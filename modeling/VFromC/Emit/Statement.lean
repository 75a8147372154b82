import VFromC.Emit.Loop
import VFromC.Emit.Match
/-!
Statements, and the emitter that writes whole trees.
-/
namespace VFromC.Emit
open VFromC.Syntax VFromC.Output

/-- A returned value: `return 1` in a function of truth values is `return true`. -/
def Surroundings.returned (value : Node) : Surroundings where
  enter c :=
    if value.kind = .implicitCastExpr ∧ (value.spelling = "bool" ∨ value.spelling = "_Bool") then
      { c with returnsBool := true }
    else c
  leave before c := { c with returnsBool := before.returnsBool }
  leave_enter _ := by
    split <;> rfl

/-- The main function returns nothing. -/
def returnedValue (em : Emitter) (value : Node) : Script Unit := do
  let context ← Script.context
  if context.inMain then pure ()
  else do
    Script.write " "
    Script.within (.returned value) (em.value value)

def returnStatement (em : Emitter) (n : Node) : Script Unit := do
  Script.write "return"
  Script.forSome (returnedValue em) n.firstChild?

def labelStatement (em : Emitter) (n : Node) : Script Unit := do
  Script.command (.label n.info.declId n.name)
  Script.line (n.name ++ ":")
  Script.each em.stmt n.inner

/-- Writes one statement; what is no statement is written as an expression. -/
def statement (em : Emitter) (n : Node) : Script Unit :=
  match n.kind with
  | .declStmt => do
      localVariables em n
      Script.endLine
  | .returnStmt => do
      returnStatement em n
      Script.endLine
  | .ifStmt => ifStatement em n
  | .whileStmt => whileStatement em n
  | .forStmt => forStatement em n
  | .doStmt => doStatement em n
  | .switchStmt => switchStatement em n
  | .compoundStmt => do
      Script.line "\x7b"
      statements em n.inner
      Script.line "\x7d"
  | .gccAsmStmt => Script.line "/* __asm__ */"
  | .breakStmt | .continueStmt | .gotoStmt => jump n
  | .labelStmt => labelStatement em n
  | .cxxForRangeStmt => rangeStatement em n
  | .nullStmt | .attribute | .comment | .null => pure ()
  | _ => do
      let _ ← expression em n
      Script.endLine

/-- The emitter for trees of at most `depth` levels: what stands below a node is written by the
emitter for one level less. A deeper tree is refused. -/
def emitter : Nat → Emitter
  | 0 =>
      { expr := fun n => Script.fail (.unhandledNode n.kind "expression")
        stmt := fun n => Script.fail (.unhandledNode n.kind "expression") }
  | depth + 1 =>
      { expr := expression (emitter depth)
        stmt := statement (emitter depth) }

def emitExpr (n : Node) : Script Bool := (emitter n.height).expr n

def emitStmt (n : Node) : Script Unit := (emitter n.height).stmt n

end VFromC.Emit
