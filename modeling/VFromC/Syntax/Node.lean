import VFromC.Ident
import VFromC.Syntax.Kind
import VFromC.Syntax.Place
/-!
Syntax nodes.
-/
namespace VFromC.Syntax

inductive Literal where
  | bool (b : Bool)
  | int (n : Int)
  | text (s : String)
deriving DecidableEq, Repr

def decimal (n : Int) : String :=
  match n with
  | .ofNat m => String.ofList (Nat.toDigits 10 m)
  | .negSucc m => "-" ++ String.ofList (Nat.toDigits 10 (m + 1))

def Literal.written : Literal → String
  | .bool true => "true"
  | .bool false => "false"
  | .int n => decimal n
  | .text s => s

/-- The spelling of a type, and the spelling without aliases. -/
structure TypeText where
  spelling : String := ""
  canonical : String := ""
deriving DecidableEq, Repr, Inhabited

/-- The declaration that an expression refers to. -/
structure Reference where
  id : String := ""
  kind : Kind := .null
  name : String := ""
deriving DecidableEq, Repr, Inhabited

/-- Everything about a node but its children. -/
structure Info where
  id : String := ""
  kind : Kind := .null
  /-- The word that the kind was read from. -/
  kindWord : String := ""
  place : Place := {}
  previousDecl : Option String := none
  name : String := ""
  type : TypeText := {}
  storageClass : String := ""
  tagUsed : String := ""
  init : String := ""
  value : Option Literal := none
  opcode : String := ""
  argType : TypeText := {}
  declId : String := ""
  targetLabelId : String := ""
  isPostfix : Bool := false
  isArrow : Bool := false
  reference : Option Reference := none
  /-- The declaration comes from the compiler or a system header. -/
  isBuiltin : Bool := false
  /-- Number of declarations that name this one as their previous one. -/
  redeclarations : Nat := 0
deriving DecidableEq, Repr, Inhabited

structure Node where
  info : Info
  /-- The value that fills an array, followed by the elements that are written. -/
  filler : List Node
  inner : List Node

namespace Node

abbrev kind (n : Node) : Kind := n.info.kind

abbrev name (n : Node) : String := n.info.name

abbrev spelling (n : Node) : String := n.info.type.spelling

abbrev opcode (n : Node) : String := n.info.opcode

def empty : Node := ⟨{}, [], []⟩

def hasChild (n : Node) (kind : Kind) : Bool := n.inner.any (·.kind = kind)

def countChildren (n : Node) (kind : Kind) : Nat := n.inner.countP (·.kind = kind)

def childrenOf (n : Node) (kind : Kind) : List Node := n.inner.filter (·.kind = kind)

def firstChild? (n : Node) : Option Node := n.inner.head?

/-- The node below implicit casts, parentheses and constant wrappers. -/
def bare : Node → Node
  | ⟨info, filler, []⟩ => ⟨info, filler, []⟩
  | ⟨info, filler, child :: rest⟩ =>
      if info.kind.isTransparent then bare child else ⟨info, filler, child :: rest⟩

/-- The literal of a node as text, empty without one. -/
def valueText (n : Node) : String := (n.info.value.map Literal.written).getD ""

def isExtern (n : Node) : Bool := n.info.storageClass = "extern"

def isStatic (n : Node) : Bool := n.info.storageClass = "static"

def refersTo (n : Node) (kind : Kind) : Bool := (n.info.reference.map (·.kind)) = some kind

/-- The declaration that a node is, as it is referred to. -/
def identity (n : Node) : Reference := ⟨n.info.id, n.info.kind, n.info.name⟩

/-- The name of the declaration referred to, empty without one. -/
def referenceName (n : Node) : String := (n.info.reference.map (·.name)).getD ""

def hasBuiltinOrigin (n : Node) : Bool :=
  let p := n.info.place
  p.isEmpty || Ident.isSystemPath p.file || Ident.isSystemPath p.includedFrom ||
    Ident.isSystemPath p.spellingFile || Ident.isSystemPath p.extentSpellingFile ||
    Ident.isLibraryName n.name

mutual

/-- Number of nodes on the longest way down. -/
def height : Node → Nat
  | ⟨_, filler, inner⟩ => max (heights filler) (heights inner) + 1

def heights : List Node → Nat
  | [] => 0
  | n :: rest => max (height n) (heights rest)

end

mutual

/-- The first node of a kind below a node, depth first. -/
def descendant? (kind : Kind) : Node → Option Node
  | ⟨_, _, inner⟩ => descendantIn? kind inner

def descendantIn? (kind : Kind) : List Node → Option Node
  | [] => none
  | ⟨info, filler, inner⟩ :: rest =>
      if info.kind = kind then some ⟨info, filler, inner⟩
      else (descendant? kind ⟨info, filler, inner⟩).or (descendantIn? kind rest)

end

end Node

end VFromC.Syntax
