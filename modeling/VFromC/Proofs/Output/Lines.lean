import Mathlib.Data.List.TakeWhile
import VFromC.Proofs.Output.Level
/-!
Which commands complete a line.

Most commands only add to the pending line. Once there is something on that line, the complete lines
stay as they are just as long as no command ends a line.
-/
namespace VFromC.Text

theorem trimmed_eq_empty_iff (s : String) :
    trimmed s = "" ↔ ∀ c ∈ s.toList, isBlank c = true := by
  have empty : trimmed s = "" ↔ trim s.toList = [] := by
    rw [← toList_trimmed, String.toList_eq_nil_iff]
  rw [empty, trim, trimStart, List.dropWhile_eq_nil_iff]
  constructor
  · intro all c hc
    -- A character is in the run of blanks at the end, or it is left once that is cut off.
    have back : s.toList.reverse.takeWhile isBlank ++ s.toList.reverse.dropWhile isBlank =
        s.toList.reverse := List.takeWhile_append_dropWhile
    rw [← List.mem_reverse, ← back] at hc
    rcases List.mem_append.mp hc with run | kept
    · exact List.mem_takeWhile_imp run
    · exact all c (List.mem_reverse.mpr kept)
  · intro all c hc
    have back : c ∈ s.toList.reverse := (List.dropWhile_sublist _).mem (List.mem_reverse.mp hc)
    exact all c (List.mem_reverse.mp back)

end VFromC.Text

namespace VFromC.Output
open VFromC.Text

/-- The command ends the pending line. -/
def Command.Ends : Command → Prop
  | .line _ | .head _ | .endLine | .jump _ | .mark | .take _ => True
  | _ => False

/-- There is something on the pending line. -/
def Page.HasInk (p : Page) : Prop := trimmed p.pending ≠ ""

theorem length_lineText_pos (indent : Nat) (line : String) : 0 < (lineText indent line).length := by
  unfold lineText
  split
  · decide
  · rw [String.length_append]
    exact Nat.lt_add_left _ (by decide)

theorem Page.length_done_flush (p : Page) : p.done.length < p.flush.done.length := by
  have grows := length_lineText_pos p.indent p.pending
  simp only [Page.flush, String.length_append]
  omega

theorem Page.length_done_writeLine (p : Page) (s : String) :
    p.done.length < (p.writeLine s).done.length :=
  (p.write s).length_done_flush

/-- A line that is ended where no other one was completed comes right behind the complete ones. -/
theorem Page.writeLine_eq {p q : Page} (done : p.done = q.done) (indent : p.indent = q.indent)
    (fresh : q.pending = "") (s : String) :
    p.writeLine s = { q with done := q.done ++ lineText q.indent (p.pending ++ s) } := by
  simp only [Page.writeLine, Page.write, Page.flush, done, indent, fresh]

variable {c : Command} {commands : List Command}

theorem apply_of_not_ends (h : ¬c.Ends) :
    ∃ text, ∀ d : Draft,
      (d.apply c).page.done = d.page.done ∧ (d.apply c).page.pending = d.page.pending ++ text := by
  cases c with
  | write s | declare _ _ s | refer _ s => exact ⟨s, fun _ => ⟨rfl, rfl⟩⟩
  | deeper | shallower | label | note => exact ⟨"", fun _ => ⟨rfl, String.append_empty.symm⟩⟩
  | line | head | endLine | jump | mark | take => exact absurd trivial h

/-- Commands that end no line add one and the same text to any pending line. -/
theorem run_of_not_ends (h : ∀ c ∈ commands, ¬c.Ends) :
    ∃ text, ∀ d : Draft,
      (d.run commands).page.done = d.page.done ∧
        (d.run commands).page.pending = d.page.pending ++ text := by
  induction commands with
  | nil => exact ⟨"", fun _ => ⟨rfl, String.append_empty.symm⟩⟩
  | cons c rest ih =>
      obtain ⟨hc, hrest⟩ := List.forall_mem_cons.mp h
      obtain ⟨text, first⟩ := apply_of_not_ends hc
      obtain ⟨more, later⟩ := ih hrest
      refine ⟨text ++ more, fun d => ?_⟩
      obtain ⟨done, pending⟩ := later (d.apply c)
      rw [(first d).1] at done
      rw [(first d).2, String.append_assoc] at pending
      exact ⟨done, pending⟩

theorem length_done_apply (h : c.Adds) (d : Draft) :
    d.page.done.length ≤ (d.apply c).page.done.length := by
  cases c with
  | line | head | jump => exact Nat.le_of_lt (d.page.length_done_writeLine _)
  | endLine =>
      dsimp only [Draft.apply, Page.endLine]
      split
      · exact Nat.le_refl _
      · exact Nat.le_of_lt d.page.length_done_flush
  | mark | take => cases h
  | _ => exact Nat.le_refl _

theorem length_done_run (h : ∀ c ∈ commands, c.Adds) (d : Draft) :
    d.page.done.length ≤ (d.run commands).page.done.length := by
  induction commands generalizing d with
  | nil => exact Nat.le_refl _
  | cons c rest ih =>
      obtain ⟨hc, hrest⟩ := List.forall_mem_cons.mp h
      exact Nat.le_trans (length_done_apply hc d) (ih hrest (d.apply c))

theorem length_done_apply_of_ends (h : c.Ends) (adds : c.Adds) {d : Draft} (ink : d.page.HasInk) :
    d.page.done.length < (d.apply c).page.done.length := by
  cases c with
  | line | head | jump => exact d.page.length_done_writeLine _
  | endLine =>
      dsimp only [Draft.apply, Page.endLine]
      rw [if_neg ink]
      exact d.page.length_done_flush
  | mark | take => cases adds
  | _ => cases h

theorem hasInk_apply (h : ¬c.Ends) {d : Draft} (ink : d.page.HasInk) : (d.apply c).page.HasInk := by
  obtain ⟨text, same⟩ := apply_of_not_ends h
  intro blank
  rw [(same d).2, trimmed_eq_empty_iff, String.toList_append] at blank
  exact ink ((trimmed_eq_empty_iff _).mpr (List.forall_mem_append.mp blank).1)

/-- With something on the pending line, every command that ends a line completes one. -/
theorem done_run_eq_iff (adds : ∀ c ∈ commands, c.Adds) {d : Draft} (ink : d.page.HasInk) :
    (d.run commands).page.done = d.page.done ↔ ∀ c ∈ commands, ¬c.Ends := by
  constructor
  · intro same
    induction commands generalizing d with
    | nil => exact fun _ h => absurd h List.not_mem_nil
    | cons c rest ih =>
        obtain ⟨hc, hrest⟩ := List.forall_mem_cons.mp adds
        have quiet : ¬c.Ends := by
          intro ends
          have first := length_done_apply_of_ends ends hc ink
          have later := length_done_run hrest (d.apply c)
          change ((d.apply c).run rest).page.done = _ at same
          rw [same] at later
          exact absurd first (Nat.not_lt.mpr later)
        obtain ⟨text, first⟩ := apply_of_not_ends quiet
        refine List.forall_mem_cons.mpr ⟨quiet, ih hrest (hasInk_apply quiet ink) ?_⟩
        rw [(first d).1]
        exact same
  · intro quiet
    obtain ⟨text, same⟩ := run_of_not_ends quiet
    exact (same d).1

end VFromC.Output
