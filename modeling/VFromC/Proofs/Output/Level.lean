import VFromC.Output.Script
/-!
The indentation of a draft, read off the commands that are carried out on it.
-/
namespace VFromC.Output

/-- The command only adds to the page. -/
def Command.Adds : Command → Prop
  | .mark | .take _ => False
  | _ => True

def nextLevel (level : Nat) : Command → Nat
  | .deeper => level + 1
  | .shallower => level - 1
  | _ => level

/-- The level reached from another one by some commands. -/
def levelAfter (level : Nat) (commands : List Command) : Nat := commands.foldl nextLevel level

theorem levelAfter_append (level : Nat) (c₁ c₂ : List Command) :
    levelAfter level (c₁ ++ c₂) = levelAfter (levelAfter level c₁) c₂ :=
  List.foldl_append

@[simp] theorem indent_endLine (p : Page) : p.endLine.indent = p.indent := by
  unfold Page.endLine
  split <;> rfl

@[simp] theorem pending_endLine (p : Page) : p.endLine.pending = "" := by
  unfold Page.endLine
  split <;> rfl

@[simp] theorem indent_takeFrom (p : Page) (place : Nat) :
    (p.takeFrom place).2.indent = p.indent := by
  simp only [Page.takeFrom, indent_endLine]

@[simp] theorem pending_takeFrom (p : Page) (place : Nat) :
    (p.takeFrom place).2.pending = "" := by
  simp only [Page.takeFrom, pending_endLine]

theorem pending_apply_mark (d : Draft) : (d.apply .mark).page.pending = "" := by
  simp only [Draft.apply, Page.mark, pending_endLine]

theorem pending_apply_take (name : String) (d : Draft) :
    (d.apply (.take name)).page.pending = "" := by
  simp only [Draft.apply, pending_takeFrom]

theorem indent_apply (d : Draft) (c : Command) :
    (d.apply c).page.indent = nextLevel d.page.indent c := by
  cases c with
  | endLine => simp only [Draft.apply, indent_endLine, nextLevel]
  | mark => simp only [Draft.apply, Page.mark, indent_endLine, nextLevel]
  | take name => simp only [Draft.apply, indent_takeFrom, nextLevel]
  | _ => rfl

theorem indent_run (d : Draft) (commands : List Command) :
    (d.run commands).page.indent = levelAfter d.page.indent commands := by
  induction commands generalizing d with
  | nil => rfl
  | cons c rest ih =>
      change ((d.apply c).run rest).page.indent = levelAfter (nextLevel d.page.indent c) rest
      rw [ih, indent_apply]

theorem run_notes {commands : List Command} (h : ∀ c ∈ commands, ∃ e, c = .note e) :
    ∃ entries, ∀ d : Draft, d.run commands = { d with journal := d.journal ++ entries } := by
  induction commands with
  | nil => exact ⟨[], fun d => by rw [List.append_nil]; rfl⟩
  | cons c rest ih =>
      obtain ⟨⟨e, rfl⟩, hrest⟩ := List.forall_mem_cons.mp h
      obtain ⟨entries, he⟩ := ih hrest
      refine ⟨e :: entries, fun d => ?_⟩
      change (d.apply (.note e)).run rest = _
      rw [he]
      simp only [Draft.apply, List.append_assoc, List.singleton_append]

theorem levelAfter_notes (level : Nat) {commands : List Command}
    (h : ∀ c ∈ commands, ∃ e, c = .note e) : levelAfter level commands = level := by
  obtain ⟨entries, he⟩ := run_notes h
  have same := indent_run { page := { indent := level } } commands
  rw [he] at same
  exact same.symm

end VFromC.Output
