import VFromC.Emit.Script
/-!
Operators and assignments.
-/
namespace VFromC.Emit
open VFromC.Syntax VFromC.Output

/-- Operators whose result is a truth value. -/
def isTruthOperator (op : String) : Bool :=
  ["<", ">", "<=", ">=", "==", "!=", "&&", "||", "!"].contains op

def isAssignment (n : Node) : Bool := n.kind = .binaryOperator && n.opcode = "="

/-- The targets of directly nested assignments, outermost first, and what they are given. -/
def assignmentChain : Node → Except Fault (List Node × Node)
  | ⟨info, filler, inner⟩ =>
      if isAssignment ⟨info, filler, inner⟩ then
        match inner with
        | [] => .error (.missingChild info.kind "left operand")
        | [_] => .error (.missingChild info.kind "right operand")
        | target :: source :: _ =>
            match assignmentChain source with
            | .ok chain => .ok (target :: chain.1, chain.2)
            | .error e => .error e
      else .ok ([], ⟨info, filler, inner⟩)

/-- Writes assignments line by line, innermost target first. Each target is what the next one is
given, and the last line stays open. -/
def writeAssignments (em : Emitter) (source : Node) : List Node → Script Unit
  | [] => pure ()
  | target :: rest => do
      em.value target
      Script.write " = "
      em.value source
      Script.when (rest ≠ []) Script.endLine
      writeAssignments em target rest

/-- Assignments in one another, from `left` to the innermost source. -/
def chainedAssignment (em : Emitter) (left right : Node) : Script Unit := do
  let chain ← Script.ofExcept (assignmentChain right)
  writeAssignments em chain.2 (left :: chain.1).reverse

def infixOperator (em : Emitter) (op : String) (left right : Node) : Script Unit := do
  em.value left
  Script.write s!" {op} "
  em.value right

def binaryOperator (em : Emitter) (n : Node) : Script Bool := do
  let left ← childAt n 0 "left operand"
  let right ← childAt n 1 "right operand"
  if n.opcode = "=" && isAssignment right then do
    chainedAssignment em left right
    pure false
  else do
    infixOperator em n.opcode left right
    pure (isTruthOperator n.opcode)

def compoundAssignment (em : Emitter) (n : Node) : Script Unit := do
  let left ← childAt n 0 "left operand"
  let right ← childAt n 1 "right operand"
  infixOperator em n.opcode left right

/-- Increments and decrements stand behind their operand, all other operators before it. -/
def signedOperand (em : Emitter) (op : String) (operand : Node) : Script Unit :=
  if op = "++" ∨ op = "--" then do
    em.value operand
    Script.write op
  else if op = "__extension__" then em.value operand
  else do
    Script.write op
    em.value operand

def unaryOperator (em : Emitter) (n : Node) : Script Bool := do
  let operand ← childAt n 0 "operand"
  signedOperand em n.opcode operand
  pure (n.opcode = "!")

/-- The condition of a conditional operator is an ordinary expression; only the two values can be
what a function returns. -/
def Surroundings.condition : Surroundings where
  enter c := { c with returnsBool := false }
  leave before c := { c with returnsBool := before.returnsBool }
  leave_enter _ := rfl

def conditionalOperator (em : Emitter) (n : Node) : Script Unit := do
  let condition ← childAt n 0 "condition"
  let yes ← childAt n 1 "true value"
  let no ← childAt n 2 "false value"
  Script.write "if "
  Script.within .condition (em.value condition)
  Script.write " \x7b "
  em.value yes
  Script.write " \x7d else \x7b "
  em.value no
  Script.write " \x7d"

end VFromC.Emit
