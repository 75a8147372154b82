import VFromC.Syntax.Node
/-!
Runs of statements with loops, for given outcomes of the conditions.

A run is put together from a few parts, and the loops of any language are put together from the
same ones. What holds of runs is therefore told part by part: how a run can end, and that it does
end so for some outcomes.
-/
namespace VFromC.Control
open VFromC.Syntax

inductive Event where
  | act (n : Node)
  | test (cond : Node) (outcome : Bool)

/-- How a statement ends: at its end, by a `break`, by a `continue`, or not within the rounds that
a loop is given. -/
inductive Ending where
  | passed
  | left
  | again
  | cut
deriving DecidableEq

/-- What was done, the outcomes that are left for later conditions, and how it ended. -/
structure Course where
  events : List Event := []
  outcomes : List Bool
  ending : Ending := .passed

/-- The expressions that were come to, without the conditions. -/
def Course.acts (c : Course) : List Node :=
  c.events.filterMap fun
    | .act n => some n
    | .test _ _ => none

/-- One course and then, from where it has come, another one. -/
def Course.followed (c : Course) (next : List Bool → Course) : Course :=
  { next c.outcomes with events := c.events ++ (next c.outcomes).events }

theorem Course.acts_followed (c : Course) (next : List Bool → Course) :
    (c.followed next).acts = c.acts ++ (next c.outcomes).acts :=
  List.filterMap_append

abbrev Run := List Bool → Course

namespace Run

def pass : Run := fun outcomes => { outcomes }

def leave : Run := fun outcomes => { outcomes, ending := .left }

def again : Run := fun outcomes => { outcomes, ending := .again }

def act (n : Node) : Run := fun outcomes => { events := [.act n], outcomes }

/-- Does nothing where nothing is given. -/
def actIf : Option Node → Run
  | some n => act n
  | none => pass

/-- The second run follows only when the end of the first one is reached. -/
def seq (r s : Run) : Run := fun outcomes =>
  if (r outcomes).ending = .passed then (r outcomes).followed s else r outcomes

/-- A condition takes the next outcome, and fails when there is none. -/
def test (cond : Node) (yes no : Run) : Run := fun outcomes =>
  let outcome := outcomes.headD false
  Course.followed { events := [.test cond outcome], outcomes := outcomes.tail }
    (if outcome then yes else no)

/-- Leaves the loop around unless a condition holds. -/
def check (cond : Node) : Run := test cond pass leave

/-- The inside of a loop: a `continue` goes to its end. -/
def inLoop (r : Run) : Run := fun outcomes =>
  if (r outcomes).ending = .again then { r outcomes with ending := .passed } else r outcomes

/-- At most `fuel` rounds of a loop, one after another until one of them is left. -/
def rounds (round : Run) : Nat → Run
  | 0 => fun outcomes => { outcomes, ending := .cut }
  | fuel + 1 => fun outcomes =>
      match (round outcomes).ending with
      | .passed | .again => (round outcomes).followed (rounds round fuel)
      | .left => { round outcomes with ending := .passed }
      | .cut => round outcomes

/-- A round that starts only while a condition holds. -/
def guard (cond : Option Node) (round : Run) : Run :=
  match cond with
  | some cond => test cond round leave
  | none => round

variable {r s t : Run} {e : Ending}

theorem seq_of_passed {outcomes : List Bool} (h : (r outcomes).ending = .passed) :
    r.seq s outcomes = (r outcomes).followed s := if_pos h

theorem seq_of_ended {outcomes : List Bool} (h : (r outcomes).ending ≠ .passed) :
    r.seq s outcomes = r outcomes := if_neg h

@[simp] theorem pass_seq : pass.seq r = r := rfl

@[simp] theorem seq_pass : r.seq pass = r := by
  funext outcomes
  by_cases h : (r outcomes).ending = .passed
  · rw [seq_of_passed h]
    simp only [Course.followed, pass, List.append_nil, ← h]
  · exact seq_of_ended h

theorem seq_assoc : (r.seq s).seq t = r.seq (s.seq t) := by
  funext outcomes
  by_cases h : (r outcomes).ending = .passed
  · rw [seq_of_passed (s := s.seq t) h]
    by_cases h' : (s (r outcomes).outcomes).ending = .passed
    · have ends : (r.seq s outcomes).ending = .passed := by rw [seq_of_passed h]; exact h'
      rw [seq_of_passed ends, seq_of_passed h]
      simp only [Course.followed, seq_of_passed h', List.append_assoc]
    · have ends : (r.seq s outcomes).ending ≠ .passed := by rw [seq_of_passed h]; exact h'
      rw [seq_of_ended ends, seq_of_passed h]
      simp only [Course.followed, seq_of_ended h']
  · have ends : r.seq s outcomes = r outcomes := seq_of_ended h
    rw [seq_of_ended (s := s.seq t) h, seq_of_ended (by rw [ends]; exact h), ends]

theorem seq_of_never (h : ∀ outcomes, (r outcomes).ending ≠ .passed) : r.seq s = r :=
  funext fun outcomes => seq_of_ended (h outcomes)

theorem inLoop_of_again {outcomes : List Bool} (h : (r outcomes).ending = .again) :
    r.inLoop outcomes = { r outcomes with ending := .passed } := if_pos h

theorem inLoop_of_ne {outcomes : List Bool} (h : (r outcomes).ending ≠ .again) :
    r.inLoop outcomes = r outcomes := if_neg h

theorem inLoop_of_never (h : ∀ outcomes, (r outcomes).ending ≠ .again) : r.inLoop = r :=
  funext fun outcomes => inLoop_of_ne (h outcomes)

/-- The run has no other ends than those told, unless it comes to none. -/
def EndsAs (r : Run) (may : Ending → Bool) : Prop :=
  ∀ outcomes, (r outcomes).ending ≠ .cut → may (r outcomes).ending = true

variable {may may' : Ending → Bool}

theorem EndsAs.never (h : r.EndsAs may) (he : may e = false) (hc : e ≠ .cut)
    (outcomes : List Bool) : (r outcomes).ending ≠ e := by
  intro ends
  have told := h outcomes (ends ▸ hc)
  rw [ends, he] at told
  cases told

theorem EndsAs.mono (h : r.EndsAs may) (hm : ∀ e, may e = true → may' e = true) :
    r.EndsAs may' :=
  fun outcomes hc => hm _ (h outcomes hc)

theorem endsAs_pass : pass.EndsAs fun e => e = .passed := fun _ _ => rfl

theorem endsAs_leave : leave.EndsAs fun e => e = .left := fun _ _ => rfl

theorem endsAs_actIf (n : Option Node) : (actIf n).EndsAs fun e => e = .passed := by
  intro outcomes _
  cases n <;> rfl

theorem EndsAs.seq (hr : r.EndsAs may) (hs : s.EndsAs may') :
    (r.seq s).EndsAs fun e => (e ≠ .passed && may e) || (may .passed && may' e) := by
  intro outcomes hc
  by_cases passed : (r outcomes).ending = .passed
  · have first := hr outcomes (by simp [passed])
    rw [seq_of_passed passed] at hc ⊢
    have second := hs _ hc
    rw [passed] at first
    simp [first, Course.followed, second]
  · rw [seq_of_ended passed] at hc ⊢
    simp [passed, hr outcomes hc]

theorem EndsAs.test (cond : Node) (hr : r.EndsAs may) (hs : s.EndsAs may') :
    (test cond r s).EndsAs fun e => may e || may' e := by
  intro outcomes hc
  cases h : outcomes.headD false with
  | true =>
      simp only [Run.test, Course.followed, h, if_true] at hc ⊢
      simp [hr _ hc]
  | false =>
      simp only [Run.test, Course.followed, h, Bool.false_eq_true, if_false] at hc ⊢
      simp [hs _ hc]

theorem EndsAs.guard (cond : Option Node) (h : r.EndsAs may) :
    (guard cond r).EndsAs fun e => may e || (cond.isSome && e = .left) := by
  cases cond with
  | none => exact h.mono (by simp)
  | some cond => exact (h.test cond endsAs_leave).mono (by simp)

theorem EndsAs.inLoop (h : r.EndsAs may) :
    r.inLoop.EndsAs fun e => (e ≠ .again && may e) || (e = .passed && may .again) := by
  intro outcomes hc
  by_cases ends : (r outcomes).ending = .again
  · have told := h outcomes (by simp [ends])
    rw [ends] at told
    simp [inLoop_of_again ends, told]
  · rw [inLoop_of_ne ends] at hc ⊢
    simp [ends, h outcomes hc]

/-- A loop that is over was left in some round. -/
theorem EndsAs.rounds (h : r.EndsAs may) (fuel : Nat) :
    (rounds r fuel).EndsAs fun e => e = .passed && may .left := by
  induction fuel with
  | zero => exact fun _ hc => absurd rfl hc
  | succ fuel ih =>
      intro outcomes hc
      unfold Run.rounds at hc ⊢
      cases ends : (r outcomes).ending with
      | passed | again =>
          simp only [ends] at hc ⊢
          exact ih _ hc
      | left =>
          have told := h outcomes (by simp [ends])
          rw [ends] at told
          simp [told]
      | cut =>
          simp only [ends] at hc
          exact absurd rfl hc

end Run

section Families

variable {r s : Nat → Run} {e : Ending} {conds others : List Node}

/-- Some outcomes make the runs end in a given way after the same events, whatever outcomes are left
behind them and with any number of rounds but none. No outcome goes without an event, and only
certain conditions are tested. -/
def Can (r : Nat → Run) (e : Ending) (conds : List Node) : Prop :=
  ∃ chosen events, (∀ fuel rest, r (fuel + 1) (chosen ++ rest) = ⟨events, rest, e⟩) ∧
    chosen.length ≤ events.length ∧ ∀ cond outcome, .test cond outcome ∈ events → cond ∈ conds

theorem Can.mono (h : Can r e conds) (sub : ∀ cond ∈ conds, cond ∈ others) : Can r e others := by
  obtain ⟨chosen, events, runs, enough, tests⟩ := h
  exact ⟨chosen, events, runs, enough, fun cond o hm => sub cond (tests cond o hm)⟩

theorem Can.seq (hr : Can r .passed conds) (hs : Can s e others) :
    Can (fun fuel => (r fuel).seq (s fuel)) e (conds ++ others) := by
  obtain ⟨first, events, runs, enough, tests⟩ := hr
  obtain ⟨second, events', runs', enough', tests'⟩ := hs
  refine ⟨first ++ second, events ++ events', fun fuel rest => ?_, ?_, fun cond o hm => ?_⟩
  · have passes := runs fuel (second ++ rest)
    rw [List.append_assoc]
    refine (Run.seq_of_passed (by rw [passes])).trans ?_
    rw [passes, Course.followed, runs']
  · simp only [List.length_append]
    exact Nat.add_le_add enough enough'
  · rw [List.mem_append] at hm ⊢
    exact hm.imp (tests cond o) (tests' cond o)

theorem Can.seq_of_ended (hr : Can r e conds) (he : e ≠ .passed) :
    Can (fun fuel => (r fuel).seq (s fuel)) e conds := by
  obtain ⟨chosen, events, runs, rest⟩ := hr
  refine ⟨chosen, events, fun fuel rest => ?_, rest⟩
  have ends := runs fuel rest
  exact (Run.seq_of_ended (by rw [ends]; exact he)).trans ends

theorem Can.test (cond : Node) (outcome : Bool)
    (h : Can (fun fuel => if outcome then r fuel else s fuel) e conds) :
    Can (fun fuel => Run.test cond (r fuel) (s fuel)) e (cond :: conds) := by
  obtain ⟨chosen, events, runs, enough, tests⟩ := h
  refine ⟨outcome :: chosen, .test cond outcome :: events, fun fuel rest => ?_,
    Nat.succ_le_succ enough, fun c o hm => ?_⟩
  · exact congrArg (fun c : Course => { c with events := .test cond outcome :: c.events })
      (runs fuel rest)
  · rw [List.mem_cons] at hm ⊢
    exact hm.imp (fun same => by cases same; rfl) (tests c o)

theorem Can.test_yes (cond : Node) (h : Can r e conds) :
    Can (fun fuel => Run.test cond (r fuel) (s fuel)) e (cond :: conds) :=
  Can.test cond true h

theorem Can.test_no (cond : Node) (h : Can s e conds) :
    Can (fun fuel => Run.test cond (r fuel) (s fuel)) e (cond :: conds) :=
  Can.test cond false h

theorem Can.inLoop (h : Can r e conds) (he : e ≠ .again) :
    Can (fun fuel => (r fuel).inLoop) e conds := by
  obtain ⟨chosen, events, runs, rest⟩ := h
  refine ⟨chosen, events, fun fuel rest => ?_, rest⟩
  have ends := runs fuel rest
  exact (Run.inLoop_of_ne (by rw [ends]; exact he)).trans ends

theorem Can.inLoop_of_again (h : Can r .again conds) :
    Can (fun fuel => (r fuel).inLoop) .passed conds := by
  obtain ⟨chosen, events, runs, rest⟩ := h
  refine ⟨chosen, events, fun fuel rest => ?_, rest⟩
  have ends := runs fuel rest
  refine (Run.inLoop_of_again (by rw [ends])).trans ?_
  rw [ends]

theorem Can.rounds (h : Can r .left conds) :
    Can (fun fuel => Run.rounds (r fuel) fuel) .passed conds := by
  obtain ⟨chosen, events, runs, rest⟩ := h
  exact ⟨chosen, events, fun fuel rest => by simp only [Run.rounds, runs], rest⟩

theorem can_pass : Can (fun _ => Run.pass) .passed [] :=
  ⟨[], [], fun _ _ => rfl, Nat.le_refl _, fun _ _ hm => absurd hm List.not_mem_nil⟩

theorem can_leave : Can (fun _ => Run.leave) .left [] :=
  ⟨[], [], fun _ _ => rfl, Nat.le_refl _, fun _ _ hm => absurd hm List.not_mem_nil⟩

theorem can_again : Can (fun _ => Run.again) .again [] :=
  ⟨[], [], fun _ _ => rfl, Nat.le_refl _, fun _ _ hm => absurd hm List.not_mem_nil⟩

theorem can_act (n : Node) : Can (fun _ => Run.act n) .passed [] :=
  ⟨[], [.act n], fun _ _ => rfl, Nat.zero_le _, fun _ _ hm => by simp at hm⟩

theorem can_actIf (n : Option Node) : Can (fun _ => Run.actIf n) .passed [] := by
  cases n with
  | none => exact can_pass
  | some n => exact can_act n

end Families

end VFromC.Control
