import VFromC.Emit.Arms
import VFromC.Emit.Script
import VFromC.Text.Escaped
/-!
A switch is written as a match with one arm for each group of labels and a last arm for all other
values.
-/
namespace VFromC.Emit
open VFromC.Syntax VFromC.Output

/-- The enumeration that a switch is about, judged by its first label. A switch over a plain number
has none. -/
def switchEnum? (symbols : Symbols) (condition : Node) (arms : List Arm) : Option String :=
  if condition.bare.spelling = "int" then none
  else
    match arms.flatMap Arm.labels with
    | [] => none
    | label :: _ =>
        if label.bare.kind = .declRefExpr && label.bare.refersTo .enumConstantDecl then
          symbols.enumOf (Ident.spellMember label.bare.referenceName)
        else none

/-- A value of an enumeration is converted to it. -/
def matchedValue (em : Emitter) (owner : Option String) (condition : Node) : Script Unit :=
  match owner with
  | some name => do
      Script.write (name ++ "(")
      em.value condition
      Script.write ")"
  | none => em.value condition

def matchHead (em : Emitter) (owner : Option String) (condition : Node) : Script Unit := do
  Script.write "match "
  matchedValue em owner condition
  Script.line " \x7b"

def armBody (em : Emitter) (arm : Arm) : Script Unit :=
  statements em arm.body

def labelledArm (em : Emitter) (arm : Arm) : Script Unit := do
  Script.separated (Script.write ", ") (em.value) arm.labels
  Script.line " \x7b"
  armBody em arm
  Script.line "\x7d"

/-- The arm for all values without a label. -/
def elseArm (em : Emitter) : Option Arm → Script Unit
  | some arm => do
      Script.line "else \x7b"
      armBody em arm
      Script.line "\x7d"
  | none => Script.line "else \x7b\x7d"

def matchArms (em : Emitter) (owner : Option String) (condition : Node) (arms : List Arm) :
    Script Unit := do
  matchHead em owner condition
  Script.indented do
    Script.each (labelledArm em) (arms.filter fun arm => !arm.isDefault)
    elseArm em (arms.find? Arm.isDefault)
  Script.line "\x7d"

def enumWord : Option String → String
  | some name => "Some(" ++ Text.escapedQuote name ++ ")"
  | none => "None"

/-- The inside of a switch about an enumeration, if it is about one. -/
def Surroundings.switch (owner : Option String) : Surroundings where
  enter c := { c with switchEnum := owner, switchDepth := c.switchDepth + 1 }
  leave before c :=
    { c with switchDepth := c.switchDepth - 1, switchEnum := before.switchEnum }
  leave_enter _ := rfl

/-- The body of a switch is the last of its children behind the condition. -/
def switchBody (n : Node) : Script Node :=
  match (n.inner.drop 1).getLast? with
  | some body => pure body
  | none => Script.fail (.missingChild n.kind "body")

def switchStatement (em : Emitter) (n : Node) : Script Unit := do
  let condition ← childAt n 0 "condition"
  let body ← switchBody n
  let arms ← Script.ofExcept (collectArms body)
  let owner := switchEnum? (← Script.symbols) condition arms
  Script.note s!"switch with {arms.length} arms over {enumWord owner}"
  Script.within (.switch owner) (matchArms em owner condition arms)

end VFromC.Emit
