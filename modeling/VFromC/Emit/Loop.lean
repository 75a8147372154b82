import VFromC.Emit.Expression
/-!
Local variables, conditions, branches and loops.
-/
namespace VFromC.Emit
open VFromC.Syntax VFromC.Output

section Locals

/-- Only an initializer written with `=` is taken over. -/
def givenValue? (var : Node) : Option Node :=
  if var.info.init = "c" ∨ var.info.init = "" then initializer? var else none

def localValue (em : Emitter) (var : Node) : Script Unit :=
  match givenValue? var with
  | some value => do
      Script.write " := "
      em.value value
  | none => Script.write (" := " ++ zeroOf var)

def localName (var : Node) : String := Ident.spell (Text.lowered var.name)

/-- A declaration of one local variable, left on the pending line. -/
def localVariable (em : Emitter) (var : Node) : Script Unit :=
  if var.isExtern then Script.fail (.localExtern var.name)
  else do
    Script.when var.isStatic (Script.write "static ")
    Script.declare .inner var (localName var)
    localValue em var

/-- The variables of one declaration statement, each on a line of its own; the last line stays
open. Other declarations are passed over. -/
def localVariables (em : Emitter) (n : Node) : Script Unit := do
  Script.each (fun child => Script.note s!"skipping local {child.kind.name}")
    (n.inner.filter (·.kind ≠ .varDecl))
  Script.separated Script.endLine (localVariable em) (n.childrenOf .varDecl)

end Locals

/-- Types whose values are compared with zero to make a truth value. -/
def isIntegerType (type : String) : Bool :=
  ["int", "i8", "i16", "i64", "u8", "u16", "u32", "u64", "usize", "isize"].contains type

/-- A condition. Numbers are compared with zero. -/
def condition (em : Emitter) (n : Node) : Script Unit := do
  let isBool ← em.expr n
  Script.when (!isBool && isIntegerType (Spelling.typeOf n.spelling)) (Script.write " != 0")

/-- The body of a loop: a `break` in it leaves the loop, not a switch around. -/
def Surroundings.loop : Surroundings where
  enter c := { c with switchDepth := 0 }
  leave before c := { c with switchDepth := before.switchDepth }
  leave_enter _ := rfl

def loopBody (em : Emitter) (n : Node) : Script Unit := Script.within .loop (block em n)

/-- The part after the first branch. A further condition continues the line. -/
def elseBranch (em : Emitter) : Option Node → Script Unit
  | none => Script.line "\x7d"
  | some other =>
      if other.kind = .null then Script.line "\x7d"
      else if other.kind = .ifStmt then do
        Script.write "\x7d else "
        em.stmt other
      else do
        Script.line "\x7d else \x7b"
        block em other
        Script.line "\x7d"

def ifStatement (em : Emitter) (n : Node) : Script Unit := do
  let cond ← childAt n 0 "condition"
  let yes ← childAt n 1 "then branch"
  Script.write "if "
  condition em cond
  Script.line " \x7b"
  block em yes
  elseBranch em n.inner[2]?

def whileStatement (em : Emitter) (n : Node) : Script Unit := do
  let cond ← childAt n 0 "condition"
  let body ← childAt n 1 "body"
  Script.write "for "
  condition em cond
  Script.line " \x7b"
  loopBody em body
  Script.line "\x7d"

def forStart (em : Emitter) (start : Node) : Script Unit :=
  match start.kind with
  | .declStmt => localVariables em start
  | .null => pure ()
  | _ => em.value start

def forHead (em : Emitter) (start cond step : Node) : Script Unit :=
  if start.kind = .null ∧ cond.kind = .null ∧ step.kind = .null then Script.line "for \x7b"
  else do
    Script.write "for "
    forStart em start
    Script.write "; "
    Script.when (cond.kind ≠ .null) (condition em cond)
    Script.write "; "
    em.value step
    Script.line " \x7b"

/-- The second child, a variable declared in the condition, is not written. -/
def forStatement (em : Emitter) (n : Node) : Script Unit := do
  let start ← childAt n 0 "init"
  let _ ← childAt n 1 "condition variable"
  let cond ← childAt n 2 "condition"
  let step ← childAt n 3 "increment"
  let body ← childAt n 4 "body"
  forHead em start cond step
  loopBody em body
  Script.line "\x7d"

/-- A loop that tests at its end becomes one without end that is left by a `break`. -/
def doStatement (em : Emitter) (n : Node) : Script Unit := do
  let body ← childAt n 0 "body"
  let cond ← childAt n 1 "condition"
  Script.line "for \x7b"
  loopBody em body
  Script.indented do
    Script.write "if !("
    condition em cond
    Script.line ") \x7b"
    Script.indented (Script.line "break")
    Script.line "\x7d"
  Script.line "\x7d"

def rangeStatement (em : Emitter) (n : Node) : Script Unit :=
  match n.inner.getLast? with
  | none => Script.fail (.missingChild n.kind "body")
  | some body => do
      Script.line "for val in vals \x7b"
      block em body
      Script.line "\x7d"

end VFromC.Emit
