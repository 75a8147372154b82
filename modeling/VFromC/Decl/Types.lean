import VFromC.Decl.Function
/-!
Records and aliases.
-/
namespace VFromC.Decl
open VFromC.Syntax VFromC.Output VFromC.Emit VFromC.Text

/-- The type of a record or enumeration without a name. -/
def isUnnamedTag (type : String) : Bool :=
  occursIn "anonymous at" type || occursIn "unnamed at" type || occursIn "(anonymous" type ||
    occursIn "(unnamed" type

/-- A record or enumeration without a name takes that of the alias that follows. -/
def tagName (n : Node) (next : Option Node) : String :=
  match next with
  | some later => if n.name = "" && later.kind = .typedefDecl then later.name else n.name
  | none => n.name

/-- The lines of the fields that have a name and a named type. -/
def fieldLines (n : Node) : List String :=
  ((n.childrenOf .fieldDecl).filter fun field =>
      !isUnnamedTag field.spelling && field.name ≠ "").map fun field =>
    Ident.spell field.name ++ " " ++ Spelling.typeOf field.spelling

def recordText (n : Node) (name : String) : Script Unit := do
  Script.head (.record (n.info.tagUsed = "union") name)
  Script.indented (Script.each Script.line (fieldLines n))
  Script.line "\x7d"
  Script.line ""

mutual

/-- A record, after the named records inside it. A record without children only announces one. -/
def recordDecl (next : Option Node) : Node → Script Unit
  | ⟨info, filler, inner⟩ => do
      let known ← Script.symbols
      let n : Node := ⟨info, filler, inner⟩
      let name := tagName n next
      if inner.isEmpty then pure ()
      else if name = "" then Script.note s!"skipping anonymous record at offset {info.place.offset}"
      else if Ident.isLibraryType name || known.hasType name then pure ()
      else do
        Script.register (·.addType name)
        Script.note s!"record {name} with {n.countChildren .fieldDecl} fields"
        nestedRecords inner
        recordText n name

def nestedRecords : List Node → Script Unit
  | [] => pure ()
  | n :: rest => do
      Script.when (n.kind = .recordDecl ∧ n.name ≠ "") (recordDecl none n)
      nestedRecords rest

end

/-- An alias is written unless its type declares the name itself. -/
def aliasDecl (n : Node) : Script Unit := do
  let known ← Script.symbols
  let name := n.name
  let target := Spelling.typeOf n.spelling
  if Ident.isLibraryType name || occursIn name n.spelling || isUnnamedTag n.spelling then pure ()
  else if begins "__" name then pure ()
  else if known.hasType name || known.hasEnum (Ident.capitalized name) then pure ()
  else if known.hasEnum target then pure ()
  else do
    Script.register (·.addType name)
    Script.head (.aliased name target)
    Script.line ""

end VFromC.Decl
