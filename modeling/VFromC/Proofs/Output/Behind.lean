import VFromC.Proofs.Output.Level
/-!
What is written does not depend on the text before it, and what is taken out since a mark is what
was written since.
-/
namespace VFromC.Output

/-- The draft with another text in front, and another place and other globals put aside. -/
def Draft.behind (d : Draft) (text : String) (place : Nat) (taken : List (String × String)) :
    Draft :=
  { d with page := { d.page with done := text ++ d.page.done }, place, taken }

theorem endLine_behind (p : Page) (text : String) :
    ({ p with done := text ++ p.done } : Page).endLine =
      { p.endLine with done := text ++ p.endLine.done } := by
  by_cases hp : Text.trimmed p.pending = ""
  · rw [Page.endLine, Page.endLine, if_pos hp, if_pos hp]
  · rw [Page.endLine, Page.endLine, if_neg hp, if_neg hp]
    simp only [Page.flush, String.append_assoc]

theorem behind_apply (d : Draft) (text : String) (place : Nat) (taken : List (String × String))
    {c : Command} (h : c.Adds) :
    (d.behind text place taken).apply c = (d.apply c).behind text place taken := by
  cases c with
  | line | head | jump =>
      simp only [Draft.apply, Draft.behind, Page.writeLine, Page.write, Page.flush,
        String.append_assoc]
  | endLine =>
      simp only [Draft.apply, Draft.behind, endLine_behind]
  | mark | take => cases h
  | _ => rfl

/-- Commands that only add to the page do the same behind any text. -/
theorem behind_run (d : Draft) (text : String) (place : Nat) (taken : List (String × String))
    {commands : List Command} (h : ∀ c ∈ commands, c.Adds) :
    (d.behind text place taken).run commands = (d.run commands).behind text place taken := by
  induction commands generalizing d with
  | nil => rfl
  | cons c rest ih =>
      obtain ⟨hc, hrest⟩ := List.forall_mem_cons.mp h
      change ((d.behind text place taken).apply c).run rest = _
      rw [behind_apply d text place taken hc, ih (d.apply c) hrest]
      rfl

/-- A draft on which no line is pending and nothing is indented. -/
def Draft.restAt (text : String) (labels : Labels) (journal : Journal) (place : Nat)
    (taken : List (String × String)) : Draft :=
  { page := { done := text }, labels, journal, place, taken }

theorem restAt_run {commands : List Command} (h : ∀ c ∈ commands, c.Adds)
    (hl : levelAfter 0 commands = 0)
    (hp : ∀ d : Draft, d.page.pending = "" → (d.run commands).page.pending = "")
    (labels : Labels) (journal : Journal) :
    ∃ added labels' journal', ∀ text place taken,
      (Draft.restAt text labels journal place taken).run commands =
        Draft.restAt (text ++ added) labels' journal' place taken := by
  let fresh : Draft := { labels, journal }
  refine ⟨(fresh.run commands).page.done, (fresh.run commands).labels,
    (fresh.run commands).journal, fun text place taken => ?_⟩
  have start : Draft.restAt text labels journal place taken = fresh.behind text place taken := by
    simp only [Draft.restAt, Draft.behind, fresh, String.append_empty]
  have level : (fresh.run commands).page.indent = 0 := by
    rw [indent_run]
    exact hl
  have pending := hp fresh rfl
  rw [start, behind_run fresh text place taken h]
  simp only [Draft.behind, Draft.restAt, pending, level]

theorem cutBytes_append (l₁ l₂ : List Char) :
    cutBytes (String.ofList l₁).utf8ByteSize (l₁ ++ l₂) = (l₁, l₂) := by
  induction l₁ with
  | nil =>
      cases l₂ with
      | nil => rfl
      | cons c rest =>
          have hc : ¬ c.utf8Size ≤ 0 := Nat.not_le.mpr c.utf8Size_pos
          simp only [List.nil_append, String.ofList_nil, String.utf8ByteSize_empty, cutBytes,
            if_neg hc]
  | cons c rest ih =>
      have size : (String.ofList (c :: rest)).utf8ByteSize =
          c.utf8Size + (String.ofList rest).utf8ByteSize := by
        rw [← String.utf8ByteSize_singleton, String.singleton_eq_ofList,
          ← String.utf8ByteSize_append, ← String.ofList_append]
        rfl
      simp only [List.cons_append, cutBytes, size, Nat.le_add_right, if_true,
        Nat.add_sub_cancel_left, ih]

theorem endLine_of_pending {p : Page} (h : p.pending = "") : p.endLine = p := by
  have blank : Text.trimmed "" = "" := rfl
  rw [Page.endLine, h, if_pos blank, ← h]

theorem restAt_finish (text : String) (labels : Labels) (journal : Journal) (place : Nat)
    (taken : List (String × String)) :
    (Draft.restAt text labels journal place taken).page.finish = text := by
  have same : ({ done := text } : Page).endLine = { done := text } := endLine_of_pending rfl
  rw [Draft.restAt, Page.finish, same]

theorem restAt_apply_mark (text : String) (labels : Labels) (journal : Journal) (place : Nat)
    (taken : List (String × String)) :
    (Draft.restAt text labels journal place taken).apply .mark =
      Draft.restAt text labels journal text.utf8ByteSize taken := by
  have same : ({ done := text } : Page).endLine = { done := text } := endLine_of_pending rfl
  simp only [Draft.apply, Draft.restAt, Page.mark, same]

theorem restAt_apply_line (text : String) (labels : Labels) (journal : Journal) (place : Nat)
    (taken : List (String × String)) :
    (Draft.restAt text labels journal place taken).apply (.line "") =
      Draft.restAt (text ++ "\n") labels journal place taken := rfl

theorem takeFrom_eq {p : Page} {before added : String} (h : p.endLine.done = before ++ added) :
    p.takeFrom before.utf8ByteSize = (added, { p.endLine with done := before }) := by
  have cut := cutBytes_append before.toList added.toList
  rw [String.ofList_toList] at cut
  simp only [Page.takeFrom, h, String.toList_append, cut, String.ofList_toList]

theorem restAt_apply_take (name before added : String) (labels : Labels) (journal : Journal)
    (taken : List (String × String)) :
    (Draft.restAt (before ++ added) labels journal before.utf8ByteSize taken).apply (.take name) =
      Draft.restAt before labels journal before.utf8ByteSize (taken ++ [(name, added)]) := by
  have same : ({ done := before ++ added } : Page).endLine = { done := before ++ added } :=
    endLine_of_pending rfl
  have taking := takeFrom_eq (p := { done := before ++ added }) (by rw [same])
  simp only [Draft.apply, Draft.restAt, taking, same]

section Marked

variable {labels labels' : Labels} {journal journal' : Journal} {added : String}
  {commands : List Command}

/-- A mark stands at the end of the text before it, whatever that is. -/
theorem restAt_run_marked
    (run : ∀ text place taken, (Draft.restAt text labels journal place taken).run commands =
      Draft.restAt (text ++ added) labels' journal' place taken)
    (before : String) (place : Nat) (taken : List (String × String)) :
    (Draft.restAt before labels journal place taken).run (.mark :: (commands ++ [.line ""])) =
      Draft.restAt (before ++ (added ++ "\n")) labels' journal' before.utf8ByteSize taken := by
  change ((Draft.restAt before labels journal place taken).apply .mark).run _ = _
  rw [restAt_apply_mark, Draft.run_append, run]
  change (Draft.restAt (before ++ added) _ _ _ _).apply (.line "") = _
  rw [restAt_apply_line, String.append_assoc]

/-- What was written since a mark is moved away as it is. -/
theorem restAt_run_taken
    (run : ∀ text place taken, (Draft.restAt text labels journal place taken).run commands =
      Draft.restAt (text ++ added) labels' journal' place taken)
    (name before : String) (place : Nat) (taken : List (String × String)) :
    (Draft.restAt before labels journal place taken).run
        (.mark :: (commands ++ [.line ""] ++ [.take name])) =
      Draft.restAt before labels' journal' before.utf8ByteSize
        (taken ++ [(name, added ++ "\n")]) := by
  rw [← List.cons_append, Draft.run_append, restAt_run_marked run]
  change (Draft.restAt (before ++ (added ++ "\n")) _ _ _ _).apply (.take _) = _
  rw [restAt_apply_take]

end Marked

end VFromC.Output
