import VFromC.Proofs.Control.Text
/-!
When the loops of the output do what the loops of C do.

Where a `continue` belongs to a loop that tests at its end, the run of the output falls short of the
run of C: for some outcomes it misses an event, with any number of rounds. This is told part by part
and comes from the innermost such loop.
-/
namespace VFromC.Control
open VFromC.Syntax

section Families

variable {r s t r' s' : Nat → Run} {conds : List Node}

/-- A course that does not come to an event, where it should after certain others: it stops before
or comes to another one. -/
def Course.Misses (c : Course) (before : List Event) (event : Event) : Prop :=
  (c.ending = .cut ∧ c.events = before) ∨
    ∃ other rest, other ≠ event ∧ c.events = before ++ other :: rest

section Repeated

variable {r : Run} {chosen : List Bool} {events : List Event} {event : Event}

theorem rounds_of_silent (h : ∀ rest, r rest = ⟨[], rest, .passed⟩) (fuel : Nat)
    (rest : List Bool) : Run.rounds r fuel rest = ⟨[], rest, .cut⟩ := by
  induction fuel with
  | zero => rfl
  | succ fuel ih => simp only [Run.rounds, h, Course.followed, ih, List.append_nil]

theorem rounds_of_passed {outcomes rest : List Bool} (h : r outcomes = ⟨events, rest, .passed⟩)
    (fuel : Nat) : Run.rounds r (fuel + 1) outcomes =
      Course.followed ⟨events, rest, .passed⟩ (Run.rounds r fuel) := by
  simp only [Run.rounds, h]

/-- A loop whose second round is like the first one comes to nothing new behind the first one. -/
theorem misses_of_repeated (h : ∀ rest, r (chosen ++ rest) = ⟨events, rest, .passed⟩)
    (enough : chosen.length ≤ events.length) (new : event ∉ events) (fuel : Nat) :
    (Run.rounds r (fuel + 1) (chosen ++ chosen)).Misses events event := by
  rw [rounds_of_passed (h chosen)]
  cases events with
  | nil =>
      -- Without events no outcome is used, and the loop goes on in silence.
      obtain rfl : chosen = [] := List.eq_nil_of_length_eq_zero (Nat.le_zero.mp enough)
      have silent : Run.rounds r fuel [] = ⟨[], [], .cut⟩ := rounds_of_silent h fuel []
      rw [Course.followed, silent]
      exact .inl ⟨rfl, rfl⟩
  | cons other rest =>
      cases fuel with
      | zero => exact .inl ⟨rfl, List.append_nil _⟩
      | succ fuel =>
          have second : r chosen = ⟨other :: rest, [], .passed⟩ := by simpa using h []
          have differs : other ≠ event := by
            rintro rfl
            exact new List.mem_cons_self
          rw [Course.followed, rounds_of_passed second]
          exact .inr ⟨other, _, differs, rfl⟩

end Repeated

/-- For some outcomes the second runs come to an event that the first ones miss, with any number of
rounds but none. -/
def Strays (r s : Nat → Run) : Prop :=
  ∃ outcomes before event, (∀ fuel, before ++ [event] <+: (s (fuel + 1) outcomes).events) ∧
    ∀ fuel, (r (fuel + 1) outcomes).Misses before event

theorem events_seq (r s : Run) (outcomes : List Bool) :
    (r outcomes).events <+: (r.seq s outcomes).events := by
  by_cases h : (r outcomes).ending = .passed
  · simp [Run.seq_of_passed h, Course.followed]
  · simp [Run.seq_of_ended h]

theorem events_inLoop (r : Run) (outcomes : List Bool) :
    (r.inLoop outcomes).events = (r outcomes).events := by
  unfold Run.inLoop
  split <;> rfl

theorem events_rounds (r : Run) (fuel : Nat) (outcomes : List Bool) :
    (r outcomes).events <+: (Run.rounds r (fuel + 1) outcomes).events := by
  unfold Run.rounds
  split <;> simp [Course.followed]

/-- What starts with a course misses the same event. -/
theorem Course.Misses.extend {c d : Course} {before : List Event} {event : Event}
    (h : c.Misses before event) (stays : c.ending = .cut → d = c) (goesOn : c.events <+: d.events) :
    d.Misses before event := by
  obtain ⟨cut, events⟩ | ⟨other, rest, differs, events⟩ := h
  · rw [stays cut]
    exact .inl ⟨cut, events⟩
  · obtain ⟨more, hd⟩ := goesOn
    exact .inr ⟨other, rest ++ more, differs, by simp [← hd, events]⟩

theorem Strays.extend (h : Strays r s)
    (stays : ∀ fuel outcomes, (r (fuel + 1) outcomes).ending = .cut →
      r' (fuel + 1) outcomes = r (fuel + 1) outcomes)
    (goesOn : ∀ fuel outcomes, (r (fuel + 1) outcomes).events <+: (r' (fuel + 1) outcomes).events)
    (more : ∀ fuel outcomes, (s (fuel + 1) outcomes).events <+: (s' (fuel + 1) outcomes).events) :
    Strays r' s' := by
  obtain ⟨outcomes, before, event, comes, misses⟩ := h
  refine ⟨outcomes, before, event, fun fuel => (comes fuel).trans (more fuel outcomes), ?_⟩
  exact fun fuel => (misses fuel).extend (stays _ _) (goesOn fuel outcomes)

theorem Strays.seq (h : Strays r s) :
    Strays (fun fuel => (r fuel).seq (r' fuel)) (fun fuel => (s fuel).seq (s' fuel)) :=
  h.extend (fun _ _ cut => Run.seq_of_ended (by simp [cut])) (fun _ _ => events_seq _ _ _)
    fun _ _ => events_seq _ _ _

theorem Strays.inLoop (h : Strays r s) :
    Strays (fun fuel => (r fuel).inLoop) (fun fuel => (s fuel).inLoop) := by
  refine h.extend (fun _ _ cut => Run.inLoop_of_ne (by simp [cut])) ?_ ?_ <;>
  · intro fuel outcomes
    simp only [events_inLoop, List.prefix_rfl]

theorem Strays.rounds (h : Strays r s) :
    Strays (fun fuel => Run.rounds (r fuel) fuel) (fun fuel => Run.rounds (s fuel) fuel) := by
  refine h.extend (fun fuel outcomes cut => ?_) (fun _ _ => events_rounds _ _ _)
    fun _ _ => events_rounds _ _ _
  simp only [Run.rounds, cut]

/-- Runs that stray still do so behind the same events. -/
theorem Strays.after (h : Strays r s) (chosen : List Bool) (first : List Event)
    (hr : ∀ fuel outcomes, r' (fuel + 1) (chosen ++ outcomes) =
      { r (fuel + 1) outcomes with events := first ++ (r (fuel + 1) outcomes).events })
    (hs : ∀ fuel outcomes, s' (fuel + 1) (chosen ++ outcomes) =
      { s (fuel + 1) outcomes with events := first ++ (s (fuel + 1) outcomes).events }) :
    Strays r' s' := by
  obtain ⟨outcomes, before, event, comes, misses⟩ := h
  refine ⟨chosen ++ outcomes, first ++ before, event, fun fuel => ?_, fun fuel => ?_⟩
  · simp only [hs, List.append_assoc]
    exact (List.prefix_append_right_inj first).mpr (comes fuel)
  · rw [hr]
    obtain ⟨cut, events⟩ | ⟨other, rest, differs, events⟩ := misses fuel
    · exact .inl ⟨cut, by rw [events]⟩
    · exact .inr ⟨other, rest, differs, by simp [events]⟩

theorem Strays.behind (h : Strays r s) (ht : Can t .passed conds) :
    Strays (fun fuel => (t fuel).seq (r fuel)) (fun fuel => (t fuel).seq (s fuel)) := by
  obtain ⟨chosen, first, runs, -⟩ := ht
  have passes (u : Run) (fuel : Nat) (outcomes : List Bool) :
      (t (fuel + 1)).seq u (chosen ++ outcomes) =
        { u outcomes with events := first ++ (u outcomes).events } := by
    rw [Run.seq_of_passed (by rw [runs]), runs, Course.followed]
  exact h.after chosen first (fun _ _ => passes _ _ _) fun _ _ => passes _ _ _

theorem Strays.test_yes (cond : Node) (h : Strays r s) :
    Strays (fun fuel => Run.test cond (r fuel) (r' fuel))
      (fun fuel => Run.test cond (s fuel) (s' fuel)) :=
  h.after [true] [.test cond true] (fun _ _ => rfl) fun _ _ => rfl

theorem Strays.test_no (cond : Node) (h : Strays r s) :
    Strays (fun fuel => Run.test cond (r' fuel) (r fuel))
      (fun fuel => Run.test cond (s' fuel) (s fuel)) :=
  h.after [false] [.test cond false] (fun _ _ => rfl) fun _ _ => rfl

theorem Strays.guard (cond : Option Node) (h : Strays r s) :
    Strays (fun fuel => Run.guard cond (r fuel)) (fun fuel => Run.guard cond (s fuel)) := by
  cases cond with
  | none => exact h
  | some cond => exact h.test_yes cond

/-- Whatever one of the runs has done with some number of rounds, the other one has done with
enough of them. -/
def SameEvents (r s : Nat → Run) : Prop :=
  ∀ outcomes fuel, (∃ more ≥ fuel, (r fuel outcomes).events <+: (s more outcomes).events) ∧
    ∃ more ≥ fuel, (s fuel outcomes).events <+: (r more outcomes).events

theorem SameEvents.refl (r : Nat → Run) : SameEvents r r :=
  fun _ fuel => ⟨⟨fuel, Nat.le_refl _, List.prefix_rfl⟩, fuel, Nat.le_refl _, List.prefix_rfl⟩

theorem Course.Misses.not_reached {c : Course} {before : List Event} {event : Event}
    (h : c.Misses before event) : ¬before ++ [event] <+: c.events := by
  intro comes
  obtain ⟨-, events⟩ | ⟨other, rest, differs, events⟩ := h
  · rw [events] at comes
    exact absurd comes.length_le (by simp)
  · rw [events, List.prefix_append_right_inj, List.cons_prefix_cons] at comes
    exact differs comes.1.symm

theorem Strays.not_sameEvents (h : Strays r s) : ¬SameEvents r s := by
  obtain ⟨outcomes, before, event, comes, misses⟩ := h
  intro same
  obtain ⟨-, more, hm, done⟩ := same outcomes 1
  obtain ⟨fuel, rfl⟩ : ∃ fuel, more = fuel + 1 := ⟨more - 1, (Nat.sub_add_cancel hm).symm⟩
  exact (misses fuel).not_reached ((comes 0).trans done)

end Families

def SourceLoop.tests : SourceLoop → List Node
  | .whileLoop cond | .doLoop cond => [cond]
  | .forLoop _ cond _ => cond.toList

mutual

/-- The conditions of a statement. -/
def Flow.tests : Flow SourceLoop → List Node
  | .block body => testsOf body
  | .branch cond yes => cond :: yes.tests
  | .choice cond yes no => cond :: (yes.tests ++ no.tests)
  | .loop shape body => shape.tests ++ body.tests
  | _ => []

def testsOf : List (Flow SourceLoop) → List Node
  | [] => []
  | s :: rest => s.tests ++ testsOf rest

end

mutual

/-- No condition of a loop is also a condition inside of it. -/
def Flow.Apart : Flow SourceLoop → Prop
  | .block body => AllApart body
  | .branch _ yes => yes.Apart
  | .choice _ yes no => yes.Apart ∧ no.Apart
  | .loop shape body => (∀ cond ∈ shape.tests, cond ∉ body.tests) ∧ body.Apart
  | _ => True

def AllApart : List (Flow SourceLoop) → Prop
  | [] => True
  | s :: rest => s.Apart ∧ AllApart rest

end

theorem SourceLoop.can {body : Nat → Run} {may : Ending → Bool} {conds : List Node}
    (shape : SourceLoop) (h : ∀ e, may e = true → Can body e conds)
    (ends : shape.mayEnd may = true) :
    Can (fun fuel => shape.run fuel (body fuel)) .passed (shape.tests ++ conds) := by
  cases shape with
  | whileLoop cond => exact (can_leave.test_no cond).rounds.mono (by simp [tests])
  | forLoop start cond step =>
      cases cond with
      | some cond =>
          refine ((can_actIf start).seq (can_leave.test_no cond).rounds).mono ?_
          simp [tests]
      | none =>
          have left : Can (fun fuel => (body fuel).inLoop) .left conds :=
            (h .left ends).inLoop (by simp)
          refine ((can_actIf start).seq (left.seq_of_ended (by simp)).rounds).mono ?_
          simp [tests]
  | doLoop cond =>
      have check : Can (fun _ => Run.check cond) .left [cond] :=
        can_leave.test_no cond
      simp only [mayEnd, Bool.or_eq_true] at ends
      obtain (passed | left) | again := ends
      · refine (((h _ passed).inLoop (by simp)).seq check).rounds.mono ?_
        simp [tests, or_comm]
      · refine (((h _ left).inLoop (by simp)).seq_of_ended (by simp)).rounds.mono ?_
        simp +contextual [tests]
      · refine ((h _ again).inLoop_of_again.seq check).rounds.mono ?_
        simp [tests, or_comm]

mutual

/-- Every ending that is told occurs. -/
theorem Flow.can : ∀ (s : Flow SourceLoop) (e : Ending), s.may e = true →
    Can (fun fuel => s.given fuel) e s.tests
  | .act n, e, h => by
      obtain rfl : e = .passed := of_decide_eq_true h
      exact can_act n
  | .idle, e, h => by
      obtain rfl : e = .passed := of_decide_eq_true h
      exact can_pass
  | .leave, e, h => by
      obtain rfl : e = .left := of_decide_eq_true h
      exact can_leave
  | .again, e, h => by
      obtain rfl : e = .again := of_decide_eq_true h
      exact can_again
  | .block body, e, h => can_all body e h
  | .branch cond yes, e, h => by
      simp only [Flow.may, Bool.or_eq_true, decide_eq_true_eq] at h
      obtain h | rfl := h
      · exact (yes.can e h).test_yes cond
      · exact (can_pass.test_no cond).mono (by simp [Flow.tests])
  | .choice cond yes no, e, h => by
      simp only [Flow.may, Bool.or_eq_true] at h
      obtain h | h := h
      · exact ((yes.can e h).test_yes cond).mono (by simp +contextual [Flow.tests])
      · exact ((no.can e h).test_no cond).mono (by simp +contextual [Flow.tests])
  | .loop shape body, e, h => by
      simp only [Flow.may, Bool.and_eq_true, decide_eq_true_eq] at h
      obtain ⟨rfl, ends⟩ := h
      exact shape.can body.can ends

theorem can_all : ∀ (l : List (Flow SourceLoop)) (e : Ending),
    mayAll l e = true → Can (fun fuel => givenAll fuel l) e (testsOf l)
  | [], e, h => by
      obtain rfl : e = .passed := of_decide_eq_true h
      exact can_pass
  | s :: rest, e, h => by
      simp only [mayAll, Bool.or_eq_true, Bool.and_eq_true, decide_eq_true_eq] at h
      obtain ⟨ended, h⟩ | ⟨passed, h⟩ := h
      · exact ((s.can e h).seq_of_ended ended).mono (by simp +contextual [testsOf])
      · exact (s.can .passed passed).seq (can_all rest e h)

end

section Straying

theorem SourceLoop.strays_of_body {r s : Nat → Run} (shape : SourceLoop) (h : Strays r s) :
    Strays (fun fuel => shape.lower.run fuel (r fuel)) (fun fuel => shape.run fuel (s fuel)) := by
  cases shape with
  | whileLoop cond =>
      simp only [lower_run_whileLoop]
      exact (h.inLoop.guard (some cond)).rounds
  | forLoop start cond step =>
      simp only [lower_run_forLoop]
      exact (h.inLoop.seq.guard cond).rounds.behind (can_actIf start)
  | doLoop cond =>
      simp only [lower_run_doLoop]
      refine Strays.rounds (h.extend (fun fuel outcomes cut => ?_) ?_ ?_)
      · have ended : (r (fuel + 1)).seq (Run.check cond) outcomes =
            r (fuel + 1) outcomes := Run.seq_of_ended (by simp [cut])
        rw [Run.inLoop_of_ne (by simp [ended, cut]), ended]
      · intro fuel outcomes
        rw [events_inLoop]
        exact events_seq _ _ _
      · intro fuel outcomes
        rw [← events_inLoop (s (fuel + 1))]
        exact events_seq _ _ _

section Again

variable {body : Run} {chosen : List Bool} {events : List Event}

/-- In the output a `continue` ends the round before the test. -/
theorem starts_over (cond : Node) (h : ∀ rest, body (chosen ++ rest) = ⟨events, rest, .again⟩)
    (rest : List Bool) :
    (body.seq (Run.check cond)).inLoop (chosen ++ rest) =
      ⟨events, rest, .passed⟩ := by
  have ends : body.seq (Run.check cond) (chosen ++ rest) =
      ⟨events, rest, .again⟩ := by
    rw [Run.seq_of_ended (by simp [h]), h]
  rw [Run.inLoop_of_again (by rw [ends]), ends]

/-- In C it comes to the test. -/
theorem comes_to_test (cond : Node) (h : ∀ rest, body (chosen ++ rest) = ⟨events, rest, .again⟩)
    (rest : List Bool) :
    events ++ [.test cond (rest.headD false)] <+:
      (body.inLoop.seq (Run.check cond) (chosen ++ rest)).events := by
  have passed : body.inLoop (chosen ++ rest) = ⟨events, rest, .passed⟩ := by
    rw [Run.inLoop_of_again (by rw [h]), h]
  rw [Run.seq_of_passed (by rw [passed]), passed]
  simp [Course.followed, Run.check, Run.test]

end Again

theorem strays_of_again {body : Nat → Run} {conds : List Node} (cond : Node)
    (h : Can body .again conds) (apart : cond ∉ conds) :
    Strays (fun fuel => (SourceLoop.doLoop cond).lower.run fuel (body fuel))
      (fun fuel => (SourceLoop.doLoop cond).run fuel (body fuel)) := by
  obtain ⟨chosen, events, runs, enough, tests⟩ := h
  simp only [lower_run_doLoop, SourceLoop.run]
  -- The output has the outcomes for a second round that is like the first one.
  refine ⟨chosen ++ chosen, events, .test cond (chosen.headD false), fun fuel => ?_, fun fuel => ?_⟩
  · exact (comes_to_test cond (runs fuel) chosen).trans (events_rounds _ _ _)
  · have new : Event.test cond (chosen.headD false) ∉ events :=
      fun tested => apart (tests cond _ tested)
    exact misses_of_repeated (starts_over cond (runs fuel)) enough new fuel

mutual

theorem Flow.strays : ∀ s : Flow SourceLoop, s.Apart → s.steady = false →
    Strays (fun fuel => s.lower.emitted fuel) (fun fuel => s.given fuel)
  | .block body, apart, h => strays_all body apart h
  | .branch cond yes, apart, h => (yes.strays apart h).test_yes cond
  | .choice cond yes no, apart, h => by
      obtain h | h := Bool.and_eq_false_iff.mp h
      · exact (yes.strays apart.1 h).test_yes cond
      · exact (no.strays apart.2 h).test_no cond
  | .loop shape body, apart, h => by
      cases steady : body.steady with
      | false => exact shape.strays_of_body (body.strays apart.2 steady)
      | true =>
          change Strays (fun fuel => shape.lower.run fuel (body.lower.emitted fuel))
            (fun fuel => shape.run fuel (body.given fuel))
          simp only [body.emitted_lower steady]
          cases shape with
          | doLoop cond =>
              have may : body.may .again = true := by
                simpa [Flow.steady, steady, SourceLoop.keepsTest] using h
              exact strays_of_again cond (body.can .again may)
                (apart.1 cond (List.mem_singleton.mpr rfl))
          | whileLoop | forLoop =>
              simp [Flow.steady, steady, SourceLoop.keepsTest] at h

theorem strays_all : ∀ l : List (Flow SourceLoop), AllApart l → steadyAll l = false →
    Strays (fun fuel => emittedAll fuel (lowerAll l)) (fun fuel => givenAll fuel l)
  | s :: rest, apart, h => by
      cases steady : s.steady with
      | false => exact (s.strays apart.1 steady).seq
      | true =>
          have behind : s.may .passed = true ∧ steadyAll rest = false := by
            simpa [steadyAll, steady] using h
          change Strays (fun fuel => (s.lower.emitted fuel).seq (emittedAll fuel (lowerAll rest)))
            (fun fuel => (s.given fuel).seq (givenAll fuel rest))
          simp only [s.emitted_lower steady]
          exact (strays_all rest apart.2 behind.2).behind (s.can .passed behind.1)

end

end Straying

/-- What stands for a statement does the same exactly when the statement is steady. -/
theorem Flow.sameEvents_iff {s : Flow SourceLoop} (apart : s.Apart) :
    SameEvents (fun fuel => s.lower.emitted fuel) (fun fuel => s.given fuel) ↔
      s.steady = true := by
  constructor
  · intro same
    cases steady : s.steady with
    | true => rfl
    | false => exact absurd same (s.strays apart steady).not_sameEvents
  · intro steady
    simp only [s.emitted_lower steady]
    exact .refl _

def Flow.isLoop {Shape : Type} : Flow Shape → Bool
  | .loop .. => true
  | _ => false

end VFromC.Control

namespace VFromC.Loop
open VFromC.Syntax VFromC.Output VFromC.Emit VFromC.Control

/-- Every loop is written as the loop that stands for it. If no `continue` that can be come to
belongs to a loop that tests at its end, the two have the same runs, for all outcomes of the
conditions. Otherwise they do not do the same in any number of rounds, unless the condition of a
loop is also one inside of it. -/
theorem loop_does_as_written_iff {n : Node} {s : Flow SourceLoop} (h : flow? n = some s)
    (loop : s.isLoop = true) :
    (∀ desk, emitStmt n desk = s.lower.print true desk) ∧
      (s.steady = true →
        ∀ fuel outcomes, s.lower.emitted fuel outcomes = s.given fuel outcomes) ∧
      (s.Apart →
        (SameEvents (fun fuel => s.lower.emitted fuel) (fun fuel => s.given fuel) ↔
          s.steady = true)) := by
  refine ⟨fun desk => ?_, fun steady fuel outcomes => ?_, Flow.sameEvents_iff⟩
  · cases s with
    | loop => exact (isTextOf_of_flow? n _ h (isInSwitch desk.context)).stmt.2 desk rfl
    | _ => cases loop
  · rw [s.emitted_lower steady]

def numeral (text : String) : Node :=
  ⟨{ kind := .integerLiteral, value := some (.text text) }, [], []⟩

/-- The loop `do { if (1) continue; 2; } while (3);`. -/
def restartingLoop : Node :=
  let restart : Node := ⟨{ kind := .continueStmt }, [], []⟩
  ⟨{ kind := .doStmt }, [],
    [⟨{ kind := .compoundStmt }, [],
        [⟨{ kind := .ifStmt }, [], [numeral "1", restart]⟩, numeral "2"]⟩,
      numeral "3"]⟩

/-- After a `continue` C leaves the loop, and what stands for it goes on with the inside. -/
theorem restartingLoop_strays :
    let s : Flow SourceLoop := .loop (.doLoop (numeral "3"))
      (.block [.branch (numeral "1") .again, .act (numeral "2")])
    flow? restartingLoop = some s ∧ s.Apart ∧
      (∀ desk, emitStmt restartingLoop desk = s.lower.print true desk) ∧
      s.given 2 [true] =
        { events := [.test (numeral "1") true, .test (numeral "3") false], outcomes := [] } ∧
      s.lower.emitted 2 [true] =
        { events := [.test (numeral "1") true, .test (numeral "1") false, .act (numeral "2"),
            .test (numeral "3") false]
          outcomes := [] } ∧
      ¬SameEvents (fun fuel => s.lower.emitted fuel) (fun fuel => s.given fuel) := by
  intro s
  have found : flow? restartingLoop = some s := rfl
  have apart : s.Apart := by
    refine ⟨fun cond here inside => ?_, trivial, trivial, trivial⟩
    have same : numeral "3" = numeral "1" :=
      (List.mem_singleton.mp here).symm.trans (List.mem_singleton.mp inside)
    exact absurd (congrArg Node.valueText same) (by decide)
  obtain ⟨written, -, does⟩ := loop_does_as_written_iff found rfl
  refine ⟨found, apart, written, rfl, rfl, fun same => ?_⟩
  have steady : s.steady = true := (does apart).mp same
  cases steady

end VFromC.Loop
