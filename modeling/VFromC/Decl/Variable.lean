import VFromC.Decl.Function
/-!
Global variables.
-/
namespace VFromC.Decl
open VFromC.Syntax VFromC.Output VFromC.Emit VFromC.Text

/-- Another declaration of the same name in the unit has an initializer. -/
def isInitializedElsewhere (u : SourceUnit) (n : Node) : Bool :=
  u.root.inner.any fun other =>
    other.kind = .varDecl && other.name = n.name && other.info.id ≠ n.info.id &&
      (initializer? other).isSome

def isFixedArray (n : Node) : Bool := occursIn "]" n.spelling

def constantText (n : Node) (name : String) (value : Node) : Script Unit := do
  Script.register (·.addConst name)
  Script.line s!"[export:\"{name}\"]"
  Script.line "const ("
  Script.indented do
    Script.declare .global n name
    Script.write " = "
    writeExpr value
    Script.endLine
  Script.line ")"

/-- A record literal has its type in it already; any other value is converted. -/
def givenText (n : Node) (type : String) (value : Node) : Script Unit :=
  if value.kind = .initListExpr && !isFixedArray n then writeExpr value
  else do
    Script.write (type ++ "(")
    writeExpr value
    Script.write ")"

def storageMark (n : Node) (value : Option Node) : String :=
  if value.isNone && n.isExtern && isFixedArray n && n.info.redeclarations = 0 then "[c_extern]"
  else "[weak]"

def variableText (n : Node) (name type : String) (value : Option Node) : Script Unit := do
  Script.line (storageMark n value)
  Script.write "__global ( "
  Script.declare .global n name
  match value with
  | some value =>
      Script.write " = "
      givenText n type value
      Script.line " )"
  | none => Script.line s!" {type} )"

/-- The text of a global that is written, and its entry among the symbols. -/
def recordGlobal (u : SourceUnit) (n : Node) (name type : String) (text : Script Unit) :
    Script Unit := do
  Script.command .mark
  text
  Script.line ""
  Script.when u.shared (Script.command (.take name))
  Script.register (·.addGlobal ⟨name, type, n.isExtern⟩)

/-- A variable is passed over when the C text does not mention it, when the library has it, or when
it only holds an enumeration without a name. -/
def writeVariable (u : SourceUnit) (n : Node) (name type : String) (value : Option Node) :
    Script Unit :=
  if !u.mentions n.name then Script.note s!"global {name} is not in this unit, skipping"
  else if Ident.isLibraryGlobal name then pure ()
  else if value.isNone &&
      (occursIn "anonymous enum" n.spelling || occursIn "unnamed enum" n.spelling) then pure ()
  else recordGlobal u n name type (variableText n name type value)

/-- An initialized global that is `const` or an array is a constant. -/
def writeGlobal (u : SourceUnit) (n : Node) (name : String) (type : Spelling.VType) :
    Script Unit :=
  match initializer? n with
  | some value =>
      if type.isConst || isFixedArray n then
        recordGlobal u n name type.name (constantText n name value)
      else writeVariable u n name type.name (some value)
  | none => writeVariable u n name type.name none

/-- A declaration without storage gives way to one with an initializer or, unless globals are
shared, to any later one. -/
def givesWay (u : SourceUnit) (n : Node) : Bool :=
  n.isExtern &&
    (((initializer? n).isNone && isInitializedElsewhere u n) ||
      (!u.shared && 0 < n.info.redeclarations))

/-- An array without storage and without a size cannot be written. -/
def isUnsized (n : Node) : Bool :=
  n.isExtern && (initializer? n).isNone && occursIn "[]" n.spelling && !occursIn "*" n.spelling

/-- A declaration, judged by the symbols that are known. -/
def judgedGlobal (u : SourceUnit) (n : Node) (known : Symbols) : Script Unit :=
  let name := Ident.spell n.name
  let type := Spelling.convert n.spelling
  if begins "[]" n.spelling then pure ()
  else
    match known.checkGlobal name type.name with
    | .error e => Script.fail e
    | .ok .duplicate => Script.note s!"skipping duplicate global {name}"
    | .ok .emit =>
        if givesWay u n then pure ()
        else if isUnsized n then Script.fail (.unsizedArray name n.spelling)
        else writeGlobal u n name type

def globalDecl (u : SourceUnit) (n : Node) : Script Unit := do
  judgedGlobal u n (← Script.symbols)

end VFromC.Decl
