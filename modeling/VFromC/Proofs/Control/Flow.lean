import VFromC.Proofs.Control.Runs
/-!
Statements: expressions, blocks, branches, loops and the jumps out of them and to their next round.

The loops of C are lowered to those of the output, which have one kind of head. A loop that tests
at its end becomes one without end whose last line leaves it. A `continue` passes over that line,
so the two do the same where no test at the end can be passed over.
-/
namespace VFromC.Control
open VFromC.Syntax

/-- Statements with loops of some shape. -/
inductive Flow (Shape : Type) where
  | act (n : Node)
  | idle
  | leave
  | again
  | block (body : List (Flow Shape))
  | branch (cond : Node) (yes : Flow Shape)
  | choice (cond : Node) (yes no : Flow Shape)
  | loop (shape : Shape) (body : Flow Shape)

variable {Shape : Type}

mutual

/-- Carries out a statement, where `loop` tells how a loop is carried out with a given inside. -/
def Flow.run (loop : Shape → Run → Run) : Flow Shape → Run
  | .act n => Run.act n
  | .idle => Run.pass
  | .leave => Run.leave
  | .again => Run.again
  | .block body => runFlows loop body
  | .branch cond yes => Run.test cond (yes.run loop) Run.pass
  | .choice cond yes no => Run.test cond (yes.run loop) (no.run loop)
  | .loop shape body => loop shape (body.run loop)

def runFlows (loop : Shape → Run → Run) : List (Flow Shape) → Run
  | [] => Run.pass
  | s :: rest => (s.run loop).seq (runFlows loop rest)

end

/-- The loops of C. A `for` may leave out each of its three parts. -/
inductive SourceLoop where
  | whileLoop (cond : Node)
  | forLoop (start cond step : Option Node)
  | doLoop (cond : Node)

/-- A `continue` in a `for` comes to the step, and in a `do` to the test. -/
def SourceLoop.run (fuel : Nat) (body : Run) : SourceLoop → Run
  | .whileLoop cond => Run.rounds (Run.guard (some cond) body.inLoop) fuel
  | .forLoop start cond step =>
      (Run.actIf start).seq (Run.rounds (Run.guard cond (body.inLoop.seq (Run.actIf step))) fuel)
  | .doLoop cond => Run.rounds (body.inLoop.seq (Run.check cond)) fuel

/-- What stands between `for` and the brace. -/
inductive Head where
  | endless
  | guarded (cond : Node)
  | clauses (start cond step : Option Node)

def Head.start : Head → Option Node
  | .clauses start _ _ => start
  | _ => none

def Head.cond : Head → Option Node
  | .endless => none
  | .guarded cond => some cond
  | .clauses _ cond _ => cond

def Head.step : Head → Option Node
  | .clauses _ _ step => step
  | _ => none

/-- A loop of the output. If `last` is given, the last line inside leaves the loop unless that
condition holds. -/
structure ForLoop where
  head : Head
  last : Option Node := none

def checkIf : Option Node → Run
  | some cond => Run.check cond
  | none => Run.pass

/-- A `continue` comes to the step, and the last line is passed over like any other. -/
def ForLoop.run (fuel : Nat) (body : Run) (l : ForLoop) : Run :=
  (Run.actIf l.head.start).seq
    (Run.rounds
      (Run.guard l.head.cond ((body.seq (checkIf l.last)).inLoop.seq (Run.actIf l.head.step)))
      fuel)

def SourceLoop.lower : SourceLoop → ForLoop
  | .whileLoop cond => { head := .guarded cond }
  | .forLoop none none none => { head := .endless }
  | .forLoop start cond step => { head := .clauses start cond step }
  | .doLoop cond => { head := .endless, last := some cond }

mutual

def Flow.lower : Flow SourceLoop → Flow ForLoop
  | .act n => .act n
  | .idle => .idle
  | .leave => .leave
  | .again => .again
  | .block body => .block (lowerAll body)
  | .branch cond yes => .branch cond yes.lower
  | .choice cond yes no => .choice cond yes.lower no.lower
  | .loop shape body => .loop shape.lower body.lower

def lowerAll : List (Flow SourceLoop) → List (Flow ForLoop)
  | [] => []
  | s :: rest => s.lower :: lowerAll rest

end

/-- The run of a statement of C, with at most `fuel` rounds of each loop. -/
def Flow.given (fuel : Nat) (s : Flow SourceLoop) : Run :=
  s.run fun shape body => shape.run fuel body

/-- The run of a statement of the output. -/
def Flow.emitted (fuel : Nat) (s : Flow ForLoop) : Run :=
  s.run fun shape body => shape.run fuel body

/-- Whether a loop may be over, where its inside may end as told. -/
def SourceLoop.mayEnd (body : Ending → Bool) : SourceLoop → Bool
  | .whileLoop _ | .forLoop _ (some _) _ => true
  | .forLoop _ none _ => body .left
  | .doLoop _ => body .passed || body .left || body .again

mutual

/-- Whether a statement may end in a given way. -/
def Flow.may : Flow SourceLoop → Ending → Bool
  | .act _, e | .idle, e => e = .passed
  | .leave, e => e = .left
  | .again, e => e = .again
  | .block body, e => mayAll body e
  | .branch _ yes, e => yes.may e || e = .passed
  | .choice _ yes no, e => yes.may e || no.may e
  | .loop shape body, e => e = .passed && shape.mayEnd body.may

def mayAll : List (Flow SourceLoop) → Ending → Bool
  | [], e => e = .passed
  | s :: rest, e => (e ≠ .passed && s.may e) || (s.may .passed && mayAll rest e)

end

/-- Whether no `continue` of the inside passes over the test of the loop, where the inside may end
as told. -/
def SourceLoop.keepsTest (body : Ending → Bool) : SourceLoop → Bool
  | .doLoop _ => !body .again
  | _ => true

mutual

/-- No `continue` that can be come to belongs to a loop that tests at its end. -/
def Flow.steady : Flow SourceLoop → Bool
  | .block body => steadyAll body
  | .branch _ yes => yes.steady
  | .choice _ yes no => yes.steady && no.steady
  | .loop shape body => body.steady && shape.keepsTest body.may
  | _ => true

def steadyAll : List (Flow SourceLoop) → Bool
  | [] => true
  | s :: rest => s.steady && (!s.may .passed || steadyAll rest)

end

def givenAll (fuel : Nat) (l : List (Flow SourceLoop)) : Run :=
  runFlows (fun shape body => shape.run fuel body) l

def emittedAll (fuel : Nat) (l : List (Flow ForLoop)) : Run :=
  runFlows (fun shape body => shape.run fuel body) l

section Endings

variable {fuel : Nat}

theorem endsAs_check (cond : Node) :
    (Run.check cond).EndsAs fun e => e = .passed || e = .left :=
  Run.endsAs_pass.test cond Run.endsAs_leave

theorem SourceLoop.endsAs {body : Run} {may : Ending → Bool} (shape : SourceLoop)
    (h : body.EndsAs may) :
    (shape.run fuel body).EndsAs fun e => e = .passed && shape.mayEnd may := by
  cases shape with
  | whileLoop cond => exact ((h.inLoop.guard (some cond)).rounds fuel).mono (by simp [mayEnd])
  | forLoop start cond step =>
      have inside := (h.inLoop.seq (Run.endsAs_actIf step)).guard cond
      refine ((Run.endsAs_actIf start).seq (inside.rounds fuel)).mono fun e => ?_
      cases cond <;> simp +contextual [mayEnd]
  | doLoop cond =>
      refine ((h.inLoop.seq (endsAs_check cond)).rounds fuel).mono fun e => ?_
      rw [mayEnd]
      cases may .passed <;> cases may .left <;> cases may .again <;> simp

mutual

theorem Flow.endsAs : ∀ s : Flow SourceLoop, (s.given fuel).EndsAs s.may
  | .act _ | .idle | .leave | .again => fun _ _ => rfl
  | .block body => endsAs_all body
  | .branch cond yes => yes.endsAs.test cond Run.endsAs_pass
  | .choice cond yes no => yes.endsAs.test cond no.endsAs
  | .loop shape body => shape.endsAs body.endsAs

theorem endsAs_all : ∀ l : List (Flow SourceLoop), (givenAll fuel l).EndsAs (mayAll l)
  | [] => Run.endsAs_pass
  | s :: rest => s.endsAs.seq (endsAs_all rest)

end

end Endings

theorem lower_forLoop {start cond step : Option Node}
    (h : ¬(start = none ∧ cond = none ∧ step = none)) :
    (SourceLoop.forLoop start cond step).lower = { head := .clauses start cond step } := by
  cases start <;> cases cond <;> cases step <;> first | rfl | exact absurd ⟨rfl, rfl, rfl⟩ h

section Lowered

variable {fuel : Nat} {body : Run}

theorem lower_run_whileLoop (cond : Node) :
    (SourceLoop.whileLoop cond).lower.run fuel body =
      (SourceLoop.whileLoop cond).run fuel body := by
  simp only [SourceLoop.lower, SourceLoop.run, ForLoop.run, Head.start, Head.cond, Head.step,
    checkIf, Run.actIf, Run.pass_seq, Run.seq_pass]

theorem lower_run_forLoop (start cond step : Option Node) :
    (SourceLoop.forLoop start cond step).lower.run fuel body =
      (SourceLoop.forLoop start cond step).run fuel body := by
  by_cases h : start = none ∧ cond = none ∧ step = none
  · obtain ⟨rfl, rfl, rfl⟩ := h
    simp only [SourceLoop.lower, SourceLoop.run, ForLoop.run, Head.start, Head.cond, Head.step,
      checkIf, Run.actIf, Run.seq_pass]
  · simp only [lower_forLoop h, SourceLoop.run, ForLoop.run, Head.start, Head.cond, Head.step,
      checkIf, Run.seq_pass]

/-- In the output a `continue` passes over the test. -/
theorem lower_run_doLoop (cond : Node) :
    (SourceLoop.doLoop cond).lower.run fuel body =
      Run.rounds (body.seq (Run.check cond)).inLoop fuel := by
  simp only [SourceLoop.lower, ForLoop.run, Head.start, Head.cond, Head.step, checkIf, Run.actIf,
    Run.guard, Run.pass_seq, Run.seq_pass]

theorem SourceLoop.lower_run {may : Ending → Bool} (shape : SourceLoop) (h : body.EndsAs may)
    (keeps : shape.keepsTest may = true) : shape.lower.run fuel body = shape.run fuel body := by
  cases shape with
  | whileLoop cond => exact lower_run_whileLoop cond
  | forLoop start cond step => exact lower_run_forLoop start cond step
  | doLoop cond =>
      have never : may .again = false := by simpa [keepsTest] using keeps
      have inside := h.seq (endsAs_check cond)
      rw [lower_run_doLoop, SourceLoop.run,
        Run.inLoop_of_never (h.never never (by simp)),
        Run.inLoop_of_never (inside.never (by simp [never]) (by simp))]

mutual

theorem Flow.emitted_lower : ∀ s : Flow SourceLoop, s.steady = true →
    s.lower.emitted fuel = s.given fuel
  | .act _, _ | .idle, _ | .leave, _ | .again, _ => rfl
  | .block body, h => emittedAll_lower body h
  | .branch cond yes, h => congrArg (Run.test cond · Run.pass) (yes.emitted_lower h)
  | .choice cond yes no, h => by
      obtain ⟨hyes, hno⟩ := Bool.and_eq_true_iff.mp h
      change Run.test cond (yes.lower.emitted fuel) (no.lower.emitted fuel) = _
      rw [yes.emitted_lower hyes, no.emitted_lower hno]
      rfl
  | .loop shape body, h => by
      obtain ⟨steady, keeps⟩ := Bool.and_eq_true_iff.mp h
      calc shape.lower.run fuel (body.lower.emitted fuel)
        _ = shape.lower.run fuel (body.given fuel) := by rw [body.emitted_lower steady]
        _ = shape.run fuel (body.given fuel) := shape.lower_run body.endsAs keeps

theorem emittedAll_lower : ∀ l : List (Flow SourceLoop), steadyAll l = true →
    emittedAll fuel (lowerAll l) = givenAll fuel l
  | [], _ => rfl
  | s :: rest, h => by
      obtain ⟨steady, others⟩ := Bool.and_eq_true_iff.mp h
      change (s.lower.emitted fuel).seq (emittedAll fuel (lowerAll rest)) =
        (s.given fuel).seq (givenAll fuel rest)
      rw [s.emitted_lower steady]
      cases passes : s.may .passed with
      | true =>
          rw [emittedAll_lower rest (by simpa [passes] using others)]
      | false =>
          -- The end of the first statement is never reached, whatever stands behind it.
          have ends : (s.given fuel).EndsAs s.may := s.endsAs
          have never := ends.never passes (by simp)
          rw [Run.seq_of_never never, Run.seq_of_never never]

end

end Lowered

section Staying

mutual

/-- The statement as it is written, directly inside a switch or not. A break that leaves a switch
is left out; inside a loop a break leaves the loop. -/
def Flow.stay (inSwitch : Bool) : Flow Shape → Flow Shape
  | .leave => if inSwitch then .idle else .leave
  | .block body => .block (stayAll inSwitch body)
  | .branch cond yes => .branch cond (yes.stay inSwitch)
  | .choice cond yes no => .choice cond (yes.stay inSwitch) (no.stay inSwitch)
  | .act n => .act n
  | .idle => .idle
  | .again => .again
  | .loop shape body => .loop shape body

def stayAll (inSwitch : Bool) : List (Flow Shape) → List (Flow Shape)
  | [] => []
  | s :: rest => s.stay inSwitch :: stayAll inSwitch rest

end

mutual

theorem Flow.stay_false : ∀ s : Flow Shape, s.stay false = s
  | .act _ | .idle | .leave | .again | .loop _ _ => rfl
  | .block body => congrArg Flow.block (stayAll_false body)
  | .branch cond yes => congrArg (Flow.branch cond) yes.stay_false
  | .choice cond yes no => by
      rw [Flow.stay, yes.stay_false, no.stay_false]

theorem stayAll_false : ∀ l : List (Flow Shape), stayAll false l = l
  | [] => rfl
  | s :: rest => by rw [stayAll, s.stay_false, stayAll_false rest]

end

mutual

/-- No loop, and no jump to the next round of one. -/
def Flow.isStraight : Flow Shape → Bool
  | .act _ | .idle | .leave => true
  | .again | .loop _ _ => false
  | .block body => straightAll body
  | .branch _ yes => yes.isStraight
  | .choice _ yes no => yes.isStraight && no.isStraight

def straightAll : List (Flow Shape) → Bool
  | [] => true
  | s :: rest => s.isStraight && straightAll rest

end

theorem straightAll_append (l m : List (Flow Shape)) :
    straightAll (l ++ m) = (straightAll l && straightAll m) := by
  induction l with
  | nil => rfl
  | cons s l ih => rw [List.cons_append, straightAll, straightAll, ih, Bool.and_assoc]

end Staying

/-- A part of a `for` that may be left out. -/
def part? (n : Node) : Option Node := if n.kind = .null then none else some n

mutual

/-- A node as a statement with loops. Switches, labels, declarations, returns and other jumps are
none; whatever else is no statement is an expression and is not looked into. -/
def flow? : Node → Option (Flow SourceLoop)
  | ⟨info, filler, inner⟩ =>
      match info.kind with
      | .compoundStmt => (flows? inner).map .block
      | .ifStmt => branchFlow? inner
      | .whileStmt => whileFlow? inner
      | .forStmt => forFlow? inner
      | .doStmt => doFlow? inner
      | .breakStmt => some .leave
      | .continueStmt => some .again
      | .nullStmt | .attribute | .comment | .null => some .idle
      | .declStmt | .returnStmt | .switchStmt | .gccAsmStmt | .gotoStmt | .labelStmt
      | .cxxForRangeStmt | .caseStmt | .defaultStmt => none
      | _ => some (.act ⟨info, filler, inner⟩)

def flows? : List Node → Option (List (Flow SourceLoop))
  | [] => some []
  | n :: rest =>
      match flow? n, flows? rest with
      | some first, some others => some (first :: others)
      | _, _ => none

/-- A condition, what it guards and, unless it is left out, what else is done. -/
def branchFlow? : List Node → Option (Flow SourceLoop)
  | [cond, yes] => (flow? yes).map (.branch cond)
  | [cond, yes, no] =>
      match flow? yes, flow? no with
      | some yes, some other =>
          if no.kind = .null then some (.branch cond yes) else some (.choice cond yes other)
      | _, _ => none
  | _ => none

def whileFlow? : List Node → Option (Flow SourceLoop)
  | [cond, body] => (flow? body).map (.loop (.whileLoop cond))
  | _ => none

/-- C has no variable in the condition of a `for`. -/
def forFlow? : List Node → Option (Flow SourceLoop)
  | [start, var, cond, step, body] =>
      if var.kind = .null then
        (flow? body).map (.loop (.forLoop (part? start) (part? cond) (part? step)))
      else none
  | _ => none

def doFlow? : List Node → Option (Flow SourceLoop)
  | [body, cond] => (flow? body).map (.loop (.doLoop cond))
  | _ => none

end

theorem flows?_cons {n : Node} {rest : List Node} {first : Flow SourceLoop}
    {others : List (Flow SourceLoop)} (hn : flow? n = some first)
    (hrest : flows? rest = some others) : flows? (n :: rest) = some (first :: others) := by
  simp only [flows?, hn, hrest]

theorem flows?_cons_inv {n : Node} {rest : List Node} {l : List (Flow SourceLoop)}
    (h : flows? (n :: rest) = some l) :
    ∃ first others, flow? n = some first ∧ flows? rest = some others ∧ l = first :: others := by
  unfold flows? at h
  split at h
  · rename_i first others hn hrest
    cases h
    exact ⟨first, others, hn, hrest, rfl⟩
  · cases h

theorem flows?_append {a b : List Node} {l m : List (Flow SourceLoop)} (ha : flows? a = some l)
    (hb : flows? b = some m) : flows? (a ++ b) = some (l ++ m) := by
  induction a generalizing l with
  | nil => cases ha; exact hb
  | cons n a ih =>
      obtain ⟨first, others, hn, hrest, rfl⟩ := flows?_cons_inv ha
      exact flows?_cons hn (ih hrest)

theorem flows?_append_inv {a b : List Node} {l : List (Flow SourceLoop)}
    (h : flows? (a ++ b) = some l) :
    ∃ l₁ l₂, flows? a = some l₁ ∧ flows? b = some l₂ ∧ l = l₁ ++ l₂ := by
  induction a generalizing l with
  | nil => exact ⟨[], l, rfl, h, rfl⟩
  | cons n a ih =>
      obtain ⟨first, others, hn, hrest, rfl⟩ := flows?_cons_inv h
      obtain ⟨l₁, l₂, h₁, h₂, rfl⟩ := ih hrest
      exact ⟨first :: l₁, l₂, flows?_cons hn h₁, h₂, rfl⟩

end VFromC.Control
