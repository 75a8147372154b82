import VFromC.Decl.Types
/-!
Enumerations. One without a name is a list of constants.
-/
namespace VFromC.Decl
open VFromC.Syntax VFromC.Output VFromC.Emit

/-- The value given to a member, which is written without parentheses. -/
def Surroundings.member : Surroundings where
  enter c := { c with skipParens := true }
  leave before c := { c with skipParens := before.skipParens }
  leave_enter _ := rfl

def writeMemberValue (value : Node) : Script Unit :=
  Script.within Surroundings.member (writeExpr (value.firstChild?.getD value))

def memberValue? (member : Node) : Option Node := (member.childrenOf .constantExpr).head?

def givenMember (value : Node) : Script Unit := do
  Script.write " = "
  writeMemberValue value

def enumMember (member : Node) : Script Unit := do
  Script.write (Ident.spellMember member.name)
  Script.forSome givenMember (memberValue? member)
  Script.endLine

/-- A constant without a value is one more than the constant before it. -/
def constValue (previous : Option String) (member : Node) : Script Unit :=
  match memberValue? member, previous with
  | some value, _ => writeMemberValue value
  | none, some before => Script.write (before ++ " + 1")
  | none, none => Script.write "0"

def constMembers (previous : Option String) : List Node → Script Unit
  | [] => pure ()
  | member :: rest => do
      Script.register (·.addConst member.name)
      Script.declare .constant member (Ident.spellMember member.name)
      Script.write " = "
      constValue previous member
      Script.endLine
      constMembers (some (Ident.spellMember member.name)) rest

def constEnum (n : Node) : Script Unit := do
  Script.line "const ("
  Script.indented (constMembers none (n.childrenOf .enumConstantDecl))
  Script.line ")"
  Script.line ""

/-- The names of the members, each once. -/
def memberNames (n : Node) : List String :=
  (n.childrenOf .enumConstantDecl).foldl
    (fun names member => insertName (Ident.spellMember member.name) names) []

def namedEnum (n : Node) (name : String) : Script Unit := do
  Script.head (.enum name)
  Script.indented (Script.each enumMember (n.childrenOf .enumConstantDecl))
  Script.line "\x7d"
  Script.line ""
  Script.note s!"enum {name} with {(memberNames n).length} members"
  Script.register (·.addEnum name (memberNames n))

def enumDecl (n : Node) (next : Option Node) : Script Unit := do
  let known ← Script.symbols
  let tag := tagName n next
  if tag = "boolean" then pure ()
  else if tag = "" then constEnum n
  else if known.hasEnum (Ident.capitalized tag) then pure ()
  else namedEnum n (Ident.capitalized tag)

end VFromC.Decl
