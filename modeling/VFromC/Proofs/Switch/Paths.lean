import VFromC.Proofs.Control.Text
/-!
The ways through straight statements, and what can be told of all of them at once.

A path is one choice of outcomes. It has two parts: what is done up to a break, and what would
still be done behind the break if it were not there. A view of statements says for all of their
paths which parts may be there, and it is found without going along the paths.
-/
namespace VFromC.Control
open VFromC.Syntax

structure Path where
  before : List Node := []
  after : List Node := []
  left : Bool := false
  stays : left = false → after = [] := by simp

/-- One path after another; behind a break the second one is not taken. -/
def Path.append (p q : Path) : Path :=
  if p.left = true then
    { before := p.before, after := p.after ++ (q.before ++ q.after), left := true }
  else { before := p.before ++ q.before, after := q.after, left := q.left, stays := q.stays }

theorem Path.append_of_left {p : Path} (h : p.left = true) (q : Path) :
    (p.append q).before = p.before ∧ (p.append q).after = p.after ++ (q.before ++ q.after) ∧
      (p.append q).left = true := by
  simp [append, h]

theorem Path.append_of_stays {p : Path} (h : p.left = false) (q : Path) :
    (p.append q).before = p.before ++ q.before ∧ (p.append q).after = q.after ∧
      (p.append q).left = q.left := by
  simp [append, h]

theorem Path.left_append (p q : Path) : (p.append q).left = (p.left || q.left) := by
  cases h : p.left with
  | true => simp [append_of_left h q]
  | false => simp [append_of_stays h q]

theorem Path.before_append_eq_nil_iff (p q : Path) :
    (p.append q).before = [] ↔ p.before = [] ∧ (p.left = false → q.before = []) := by
  cases h : p.left with
  | true => simp [append_of_left h q]
  | false => simp [append_of_stays h q]

theorem Path.after_append_eq_nil_iff (p q : Path) :
    (p.append q).after = [] ↔ p.after = [] ∧ (p.left = true → q.before = []) ∧ q.after = [] := by
  cases h : p.left with
  | true => simp [append_of_left h q]
  | false => simp [append_of_stays h q, p.stays h]

/-- Every path of the first list with every path of the second one behind it. -/
def joined (ps qs : List Path) : List Path := ps.flatMap fun p => qs.map p.append

theorem mem_joined {ps qs : List Path} {r : Path} :
    r ∈ joined ps qs ↔ ∃ p ∈ ps, ∃ q ∈ qs, p.append q = r := by
  simp [joined]

theorem exists_mem_joined {ps qs : List Path} {P : Path → Prop} :
    (∃ r ∈ joined ps qs, P r) ↔ ∃ p ∈ ps, ∃ q ∈ qs, P (p.append q) := by
  constructor
  · rintro ⟨r, hr, h⟩
    obtain ⟨p, hp, q, hq, rfl⟩ := mem_joined.mp hr
    exact ⟨p, hp, q, hq, h⟩
  · rintro ⟨p, hp, q, hq, h⟩
    exact ⟨p.append q, mem_joined.mpr ⟨p, hp, q, hq, rfl⟩, h⟩

theorem forall_mem_joined {ps qs : List Path} {P : Path → Prop} :
    (∀ r ∈ joined ps qs, P r) ↔ ∀ p ∈ ps, ∀ q ∈ qs, P (p.append q) := by
  constructor
  · intro h p hp q hq
    exact h _ (mem_joined.mpr ⟨p, hp, q, hq, rfl⟩)
  · intro h r hr
    obtain ⟨p, hp, q, hq, rfl⟩ := mem_joined.mp hr
    exact h p hp q hq

mutual

/-- The paths of a straight statement. -/
def Flow.paths : Flow SourceLoop → List Path
  | .act n => [{ before := [n] }]
  | .leave => [{ left := true }]
  | .block body => pathsOf body
  | .branch _ yes => yes.paths ++ [{}]
  | .choice _ yes no => yes.paths ++ no.paths
  | .idle | .again | .loop _ _ => [{}]

def pathsOf : List (Flow SourceLoop) → List Path
  | [] => [{}]
  | s :: rest => joined s.paths (pathsOf rest)

end

/-- The run of what is written for a statement directly inside a switch. -/
def Flow.stayed (fuel : Nat) (s : Flow SourceLoop) : Run := (s.stay true).lower.emitted fuel

def stayedAll (fuel : Nat) (l : List (Flow SourceLoop)) : Run :=
  emittedAll fuel (lowerAll (stayAll true l))

/-- A path tells how far statements come, with their breaks and without them. -/
structure Path.Tells (p : Path) (taken stayed : Course) : Prop where
  acts : taken.acts = p.before
  ending : taken.ending = if p.left then .left else .passed
  stayedActs : stayed.acts = p.before ++ p.after
  stayedEnding : stayed.ending = .passed
  outcomes : p.left = false → taken.outcomes = stayed.outcomes

section Tells

variable {r r' s s' : Run} {outcomes : List Bool} {p q : Path} {taken stayed : Course}

theorem Path.Tells.leaves (h : p.Tells taken stayed) (left : p.left = true) :
    taken.ending = .left := by
  rw [h.ending, if_pos left]

theorem Path.Tells.passes (h : p.Tells taken stayed) (stays : p.left = false) :
    taken.ending = .passed := by
  simp [h.ending, stays]

theorem Path.Tells.append (hp : p.Tells (r outcomes) (s outcomes))
    (hq : q.Tells (r' (s outcomes).outcomes) (s' (s outcomes).outcomes)) :
    (p.append q).Tells (r.seq r' outcomes) (s.seq s' outcomes) := by
  have stayed : (s.seq s' outcomes).acts = p.before ++ p.after ++ (q.before ++ q.after) := by
    rw [Run.seq_of_passed hp.stayedEnding, Course.acts_followed, hp.stayedActs, hq.stayedActs]
  have ends : (s.seq s' outcomes).ending = .passed := by
    rw [Run.seq_of_passed hp.stayedEnding]
    exact hq.stayedEnding
  cases h : p.left with
  | true =>
      -- The second path is gone only without breaks, with the outcomes that are left there.
      obtain ⟨before, after, left⟩ := p.append_of_left h q
      have ending := hp.leaves h
      have taken : r.seq r' outcomes = r outcomes := Run.seq_of_ended (by simp [ending])
      constructor
      · rw [taken, before, hp.acts]
      · rw [taken, left, ending, if_pos rfl]
      · rw [stayed, before, after, List.append_assoc]
      · exact ends
      · simp [left]
  | false =>
      -- Otherwise both have come to the same place.
      obtain ⟨before, after, left⟩ := p.append_of_stays h q
      have ending := hp.passes h
      have same : (r outcomes).outcomes = (s outcomes).outcomes := hp.outcomes h
      rw [← same] at hq
      constructor
      · rw [Run.seq_of_passed ending, Course.acts_followed, before, hp.acts, hq.acts]
      · rw [Run.seq_of_passed ending, left]
        exact hq.ending
      · rw [stayed, before, after, p.stays h, List.append_nil, List.append_assoc]
      · exact ends
      · rw [Run.seq_of_passed ending, Run.seq_of_passed hp.stayedEnding, left]
        intro stays
        exact (hq.outcomes stays).trans (congrArg (fun o => (s' o).outcomes) same)

/-- A condition adds nothing to a path. -/
theorem Path.Tells.test_yes (cond : Node) (outcome : outcomes.headD false = true)
    (h : p.Tells (r outcomes.tail) (s outcomes.tail)) :
    p.Tells (Run.test cond r r' outcomes) (Run.test cond s s' outcomes) := by
  simp only [Run.test, outcome, if_true]
  exact ⟨h.acts, h.ending, h.stayedActs, h.stayedEnding, h.outcomes⟩

theorem Path.Tells.test_no (cond : Node) (outcome : outcomes.headD false = false)
    (h : p.Tells (r' outcomes.tail) (s' outcomes.tail)) :
    p.Tells (Run.test cond r r' outcomes) (Run.test cond s s' outcomes) := by
  simp only [Run.test, outcome, Bool.false_eq_true, if_false]
  exact ⟨h.acts, h.ending, h.stayedActs, h.stayedEnding, h.outcomes⟩

theorem Path.tells_nil (outcomes : List Bool) :
    ({} : Path).Tells (Run.pass outcomes) (Run.pass outcomes) :=
  ⟨rfl, rfl, rfl, rfl, fun _ => rfl⟩

theorem Path.tells_act (n : Node) (outcomes : List Bool) :
    ({ before := [n] } : Path).Tells (Run.act n outcomes) (Run.act n outcomes) :=
  ⟨rfl, rfl, rfl, rfl, fun _ => rfl⟩

theorem Path.tells_leave (outcomes : List Bool) :
    ({ left := true } : Path).Tells (Run.leave outcomes) (Run.pass outcomes) :=
  ⟨rfl, rfl, rfl, rfl, fun stays => by cases stays⟩

end Tells

section Runs

variable (fuel : Nat)

mutual

theorem Flow.exists_path : ∀ (s : Flow SourceLoop) (outcomes : List Bool), s.isStraight = true →
    ∃ p ∈ s.paths, p.Tells (s.given fuel outcomes) (s.stayed fuel outcomes)
  | .act n, outcomes, _ => ⟨_, List.mem_singleton.mpr rfl, Path.tells_act n outcomes⟩
  | .idle, outcomes, _ => ⟨_, List.mem_singleton.mpr rfl, Path.tells_nil outcomes⟩
  | .leave, outcomes, _ => ⟨_, List.mem_singleton.mpr rfl, Path.tells_leave outcomes⟩
  | .block body, outcomes, h => exists_path_of_list body outcomes h
  | .branch cond yes, outcomes, h => by
      cases outcome : outcomes.headD false with
      | true =>
          obtain ⟨p, hp, tells⟩ := yes.exists_path outcomes.tail h
          exact ⟨p, List.mem_append_left _ hp, .test_yes cond outcome tells⟩
      | false =>
          have tells := Path.tells_nil outcomes.tail
          refine ⟨{}, List.mem_append_right _ ?_, .test_no cond outcome tells⟩
          exact List.mem_singleton.mpr rfl
  | .choice cond yes no, outcomes, h => by
      obtain ⟨hyes, hno⟩ := Bool.and_eq_true_iff.mp h
      cases outcome : outcomes.headD false with
      | true =>
          obtain ⟨p, hp, tells⟩ := yes.exists_path outcomes.tail hyes
          exact ⟨p, List.mem_append_left _ hp, .test_yes cond outcome tells⟩
      | false =>
          obtain ⟨p, hp, tells⟩ := no.exists_path outcomes.tail hno
          exact ⟨p, List.mem_append_right _ hp, .test_no cond outcome tells⟩
  | .again, _, h | .loop _ _, _, h => by cases h

theorem exists_path_of_list :
    ∀ (l : List (Flow SourceLoop)) (outcomes : List Bool), straightAll l = true →
      ∃ p ∈ pathsOf l, p.Tells (givenAll fuel l outcomes) (stayedAll fuel l outcomes)
  | [], outcomes, _ => ⟨{}, List.mem_singleton.mpr rfl, Path.tells_nil outcomes⟩
  | s :: rest, outcomes, h => by
      obtain ⟨hs, hrest⟩ := Bool.and_eq_true_iff.mp h
      obtain ⟨p, hp, first⟩ := s.exists_path outcomes hs
      obtain ⟨q, hq, others⟩ := exists_path_of_list rest (s.stayed fuel outcomes).outcomes hrest
      exact ⟨p.append q, mem_joined.mpr ⟨p, hp, q, hq, rfl⟩, first.append others⟩

end

mutual

/-- Every path is gone for some outcomes, whatever outcomes are left behind it. -/
theorem Flow.exists_outcomes : ∀ (s : Flow SourceLoop) {p : Path}, s.isStraight = true →
    p ∈ s.paths → ∃ chosen, ∀ rest,
      p.Tells (s.given fuel (chosen ++ rest)) (s.stayed fuel (chosen ++ rest)) ∧
        (s.stayed fuel (chosen ++ rest)).outcomes = rest
  | .act n, p, _, hp => by
      obtain rfl := List.mem_singleton.mp hp
      exact ⟨[], fun rest => ⟨Path.tells_act n rest, rfl⟩⟩
  | .idle, p, _, hp => by
      obtain rfl := List.mem_singleton.mp hp
      exact ⟨[], fun rest => ⟨Path.tells_nil rest, rfl⟩⟩
  | .leave, p, _, hp => by
      obtain rfl := List.mem_singleton.mp hp
      exact ⟨[], fun rest => ⟨Path.tells_leave rest, rfl⟩⟩
  | .block body, p, h, hp => exists_outcomes_of_list body h hp
  | .branch cond yes, p, h, hp => by
      obtain hp | hp := List.mem_append.mp hp
      · obtain ⟨chosen, goes⟩ := yes.exists_outcomes h hp
        exact ⟨true :: chosen, fun rest => ⟨.test_yes cond rfl (goes rest).1, (goes rest).2⟩⟩
      · obtain rfl := List.mem_singleton.mp hp
        exact ⟨[false], fun rest => ⟨.test_no cond rfl (Path.tells_nil rest), rfl⟩⟩
  | .choice cond yes no, p, h, hp => by
      obtain ⟨hyes, hno⟩ := Bool.and_eq_true_iff.mp h
      obtain hp | hp := List.mem_append.mp hp
      · obtain ⟨chosen, goes⟩ := yes.exists_outcomes hyes hp
        exact ⟨true :: chosen, fun rest => ⟨.test_yes cond rfl (goes rest).1, (goes rest).2⟩⟩
      · obtain ⟨chosen, goes⟩ := no.exists_outcomes hno hp
        exact ⟨false :: chosen, fun rest => ⟨.test_no cond rfl (goes rest).1, (goes rest).2⟩⟩
  | .again, _, h, _ | .loop _ _, _, h, _ => by cases h

theorem exists_outcomes_of_list : ∀ (l : List (Flow SourceLoop)) {p : Path},
    straightAll l = true → p ∈ pathsOf l → ∃ chosen, ∀ rest,
      p.Tells (givenAll fuel l (chosen ++ rest)) (stayedAll fuel l (chosen ++ rest)) ∧
        (stayedAll fuel l (chosen ++ rest)).outcomes = rest
  | [], p, _, hp => by
      obtain rfl := List.mem_singleton.mp hp
      exact ⟨[], fun rest => ⟨Path.tells_nil rest, rfl⟩⟩
  | s :: l, r, h, hr => by
      obtain ⟨hs, hl⟩ := Bool.and_eq_true_iff.mp h
      obtain ⟨p, hp, q, hq, rfl⟩ := mem_joined.mp hr
      obtain ⟨first, hfirst⟩ := s.exists_outcomes hs hp
      obtain ⟨others, hothers⟩ := exists_outcomes_of_list l hl hq
      refine ⟨first ++ others, fun rest => ?_⟩
      obtain ⟨tells, goesOn⟩ := hfirst (others ++ rest)
      obtain ⟨tells', ends⟩ := hothers rest
      rw [← goesOn] at tells' ends
      rw [List.append_assoc]
      refine ⟨tells.append tells', ?_⟩
      change ((s.stayed fuel).seq (stayedAll fuel l) (first ++ (others ++ rest))).outcomes = rest
      rw [Run.seq_of_passed tells.stayedEnding]
      exact ends

end

end Runs

/-- What can be said of statements for all outcomes: whether they may come to an expression, to
their end and to a break, whether they have no expression at all, and whether nothing is behind a
break. -/
structure View where
  mayAct : Bool
  mayPass : Bool
  mayLeave : Bool
  quiet : Bool
  clean : Bool

namespace View

def idle : View := ⟨false, true, false, true, true⟩

def either (a b : View) : View where
  mayAct := a.mayAct || b.mayAct
  mayPass := a.mayPass || b.mayPass
  mayLeave := a.mayLeave || b.mayLeave
  quiet := a.quiet && b.quiet
  clean := a.clean && b.clean

def both (a b : View) : View where
  mayAct := a.mayAct || (a.mayPass && b.mayAct)
  mayPass := a.mayPass && b.mayPass
  mayLeave := a.mayLeave || (a.mayPass && b.mayLeave)
  quiet := a.quiet && b.quiet
  clean := a.clean && (!a.mayLeave || b.quiet) && (!a.mayPass || b.clean)

/-- The view says exactly what holds of the paths. -/
structure Of (view : View) (paths : List Path) : Prop where
  nonempty : paths ≠ []
  mayAct : view.mayAct = true ↔ ∃ p ∈ paths, p.before ≠ []
  mayPass : view.mayPass = true ↔ ∃ p ∈ paths, p.left = false
  mayLeave : view.mayLeave = true ↔ ∃ p ∈ paths, p.left = true
  quiet : view.quiet = true ↔ ∀ p ∈ paths, p.before = [] ∧ p.after = []
  clean : view.clean = true ↔ ∀ p ∈ paths, p.after = []

theorem of_idle : View.idle.Of [{}] := by
  constructor <;> simp [idle]

theorem Of.either {a b : View} {ps qs : List Path} (ha : a.Of ps) (hb : b.Of qs) :
    (a.either b).Of (ps ++ qs) where
  nonempty := by simp [ha.nonempty]
  mayAct := by simp only [View.either, Bool.or_eq_true, ha.mayAct, hb.mayAct, List.mem_append,
    or_and_right, exists_or]
  mayPass := by simp only [View.either, Bool.or_eq_true, ha.mayPass, hb.mayPass, List.mem_append,
    or_and_right, exists_or]
  mayLeave := by simp only [View.either, Bool.or_eq_true, ha.mayLeave, hb.mayLeave,
    List.mem_append, or_and_right, exists_or]
  quiet := by simp only [View.either, Bool.and_eq_true, ha.quiet, hb.quiet, List.forall_mem_append]
  clean := by simp only [View.either, Bool.and_eq_true, ha.clean, hb.clean, List.forall_mem_append]

theorem Of.both {a b : View} {ps qs : List Path} (ha : a.Of ps) (hb : b.Of qs) :
    (a.both b).Of (joined ps qs) := by
  obtain ⟨p₀, hp₀⟩ := List.exists_mem_of_ne_nil ps ha.nonempty
  obtain ⟨q₀, hq₀⟩ := List.exists_mem_of_ne_nil qs hb.nonempty
  constructor
  · exact List.ne_nil_of_mem (mem_joined.mpr ⟨p₀, hp₀, q₀, hq₀, rfl⟩)
  · simp only [View.both, Bool.or_eq_true, Bool.and_eq_true, ha.mayAct, ha.mayPass, hb.mayAct,
      exists_mem_joined, ne_eq, Path.before_append_eq_nil_iff]
    grind
  · simp only [View.both, Bool.and_eq_true, ha.mayPass, hb.mayPass, exists_mem_joined,
      Path.left_append, Bool.or_eq_false_iff]
    grind
  · simp only [View.both, Bool.or_eq_true, Bool.and_eq_true, ha.mayLeave, ha.mayPass, hb.mayLeave,
      exists_mem_joined, Path.left_append]
    grind
  · simp only [View.both, Bool.and_eq_true, ha.quiet, hb.quiet, forall_mem_joined,
      Path.before_append_eq_nil_iff, Path.after_append_eq_nil_iff]
    grind
  · simp only [View.both, Bool.and_eq_true, Bool.or_eq_true, Bool.not_eq_true', ha.clean, hb.clean,
      hb.quiet, forall_mem_joined, Path.after_append_eq_nil_iff]
    grind [ha.mayLeave, ha.mayPass]

end View

mutual

/-- The view of a straight statement. -/
def Flow.view : Flow SourceLoop → View
  | .act _ => { mayAct := true, mayPass := true, mayLeave := false, quiet := false, clean := true }
  | .leave => { mayAct := false, mayPass := false, mayLeave := true, quiet := true, clean := true }
  | .block body => viewOf body
  | .branch _ yes => yes.view.either .idle
  | .choice _ yes no => yes.view.either no.view
  | .idle | .again | .loop _ _ => .idle

def viewOf : List (Flow SourceLoop) → View
  | [] => .idle
  | s :: rest => s.view.both (viewOf rest)

end

mutual

theorem Flow.view_of_paths : ∀ s : Flow SourceLoop, s.view.Of s.paths
  | .act n => by constructor <;> simp [Flow.view, Flow.paths]
  | .leave => by constructor <;> simp [Flow.view, Flow.paths]
  | .block body => viewOf_of_paths body
  | .branch _ yes => yes.view_of_paths.either View.of_idle
  | .choice _ yes no => yes.view_of_paths.either no.view_of_paths
  | .idle | .again | .loop _ _ => View.of_idle

theorem viewOf_of_paths : ∀ l : List (Flow SourceLoop), (viewOf l).Of (pathsOf l)
  | [] => View.of_idle
  | s :: rest => s.view_of_paths.both (viewOf_of_paths rest)

end

theorem givenAll_append (fuel : Nat) (l r : List (Flow SourceLoop)) :
    givenAll fuel (l ++ r) = (givenAll fuel l).seq (givenAll fuel r) := by
  induction l with
  | nil => rfl
  | cons s l ih =>
      change (s.given fuel).seq (givenAll fuel (l ++ r)) =
        ((s.given fuel).seq (givenAll fuel l)).seq (givenAll fuel r)
      rw [ih, Run.seq_assoc]

/-- Taking the breaks out of the first statements and leaving the second ones out changes nothing
for any outcomes, exactly when nothing stands behind a break and no expression is left out that
may be come to. -/
theorem acts_given_eq_stayed_iff {fuel : Nat} {l r : List (Flow SourceLoop)}
    (hl : straightAll l = true) (hr : straightAll r = true) :
    (∀ outcomes, (givenAll fuel (l ++ r) outcomes).acts = (stayedAll fuel l outcomes).acts) ↔
      (viewOf l).clean = true ∧ ((viewOf l).mayPass = true → (viewOf r).mayAct = false) := by
  have first := viewOf_of_paths l
  have second := viewOf_of_paths r
  rw [givenAll_append]
  constructor
  · intro same
    constructor
    · rw [first.clean]
      intro p hp
      cases left : p.left with
      | false => exact p.stays left
      | true =>
          obtain ⟨chosen, goes⟩ := exists_outcomes_of_list fuel l hl hp
          obtain ⟨tells, -⟩ := goes []
          have acts := same (chosen ++ [])
          have ends := tells.leaves left
          rw [Run.seq_of_ended (by rw [ends]; decide), tells.acts, tells.stayedActs] at acts
          exact List.self_eq_append_right.mp acts
    · intro passes
      obtain ⟨p, hp, stays⟩ := first.mayPass.mp passes
      rw [← Bool.not_eq_true]
      intro acting
      obtain ⟨q, hq, does⟩ := second.mayAct.mp acting
      -- Outcomes for a path to the end of the first, then for one that acts in the second.
      obtain ⟨chosen, goes⟩ := exists_outcomes_of_list fuel l hl hp
      obtain ⟨others, goes'⟩ := exists_outcomes_of_list fuel r hr hq
      obtain ⟨tells, goesOn⟩ := goes (others ++ [])
      obtain ⟨tells', -⟩ := goes' []
      have acts := same (chosen ++ (others ++ []))
      rw [Run.seq_of_passed (tells.passes stays), Course.acts_followed, tells.acts,
        tells.outcomes stays, goesOn, tells'.acts, tells.stayedActs, p.stays stays,
        List.append_nil] at acts
      exact does (List.append_right_eq_self.mp acts)
  · rintro ⟨clean, silent⟩ outcomes
    obtain ⟨p, hp, tells⟩ := exists_path_of_list fuel l outcomes hl
    have behind : p.after = [] := first.clean.mp clean p hp
    rw [tells.stayedActs, behind, List.append_nil]
    cases left : p.left with
    | true => rw [Run.seq_of_ended (by simp [tells.leaves left]), tells.acts]
    | false =>
        obtain ⟨q, hq, tells'⟩ := exists_path_of_list fuel r (givenAll fuel l outcomes).outcomes hr
        have passes : (viewOf l).mayPass = true := first.mayPass.mpr ⟨p, hp, left⟩
        rw [Run.seq_of_passed (tells.passes left), Course.acts_followed, tells.acts,
          tells'.acts]
        by_cases quiet : q.before = []
        · rw [quiet, List.append_nil]
        · have acting := second.mayAct.mpr ⟨q, hq, quiet⟩
          rw [silent passes] at acting
          cases acting

end VFromC.Control
