import VFromC.Proofs.Output.Behind
/-!
Marks that are open on a page at the same time.

A mark is a number of bytes, and what is taken out since the mark is cut off there. As long as marks
and takes are nested, each cut comes right behind the text that was complete when its mark was set,
so that what is taken out is what the edits in between would have written on a page of their own.
-/
namespace VFromC.Output

inductive Edit where
  | write (s : String)
  | line (s : String)
  | endLine
  | deeper
  | shallower
  | mark
  /-- Takes out what was written since the latest mark that is still open. -/
  | take
deriving DecidableEq, Repr

/-- A page on which marks may be open. -/
structure MarkedPage where
  page : Page := {}
  /-- The open marks, the latest first. -/
  marks : List Nat := []
  /-- The texts that were taken out, in order. -/
  taken : List String := []
deriving DecidableEq, Repr

def MarkedPage.apply (w : MarkedPage) : Edit → MarkedPage
  | .write s => { w with page := w.page.write s }
  | .line s => { w with page := w.page.writeLine s }
  | .endLine => { w with page := w.page.endLine }
  | .deeper => { w with page := w.page.deeper }
  | .shallower => { w with page := w.page.shallower }
  | .mark => { w with page := w.page.mark.2, marks := w.page.mark.1 :: w.marks }
  | .take =>
      match w.marks with
      | [] => w
      | mark :: marks =>
          { page := (w.page.takeFrom mark).2
            marks
            taken := w.taken ++ [(w.page.takeFrom mark).1] }

def MarkedPage.run (w : MarkedPage) (edits : List Edit) : MarkedPage := edits.foldl apply w

/-- The number of open marks after an edit; there is no take without an open mark. -/
def Edit.openAfter : Nat → Edit → Option Nat
  | marks, .mark => some (marks + 1)
  | 0, .take => none
  | marks + 1, .take => some marks
  | marks, _ => some marks

/-- Each mark has a take behind it and each take a mark before it, and these pairs are nested. -/
def MarksNest (edits : List Edit) : Prop := edits.foldlM Edit.openAfter 0 = some 0

instance (edits : List Edit) : Decidable (MarksNest edits) :=
  inferInstanceAs (Decidable (_ = some 0))

/-- A cut of the complete text at the mark comes between two characters. -/
def Page.CutsBetween (p : Page) (mark : Nat) : Prop :=
  ∃ before after, p.endLine.done = before ++ after ∧ before.utf8ByteSize = mark

/-- Open marks stand in a text one inside of the other, each at the end of a character. -/
inductive MarksFit : List Nat → String → Prop
  | none (text : String) : MarksFit [] text
  | cons {marks : List Nat} {before : String} (after : String) (inside : MarksFit marks before) :
      MarksFit (before.utf8ByteSize :: marks) (before ++ after)

section Fit

variable {marks : List Nat} {text : String}

theorem MarksFit.append (h : MarksFit marks text) (more : String) :
    MarksFit marks (text ++ more) := by
  cases h with
  | none => exact .none _
  | cons after inside =>
      rw [String.append_assoc]
      exact .cons (after ++ more) inside

theorem MarksFit.mark (h : MarksFit marks text) : MarksFit (text.utf8ByteSize :: marks) text := by
  have all := MarksFit.cons "" h
  rwa [String.append_empty] at all

theorem Page.done_endLine (p : Page) : ∃ more, p.endLine.done = p.done ++ more := by
  unfold Page.endLine
  split
  · exact ⟨"", String.append_empty.symm⟩
  · exact ⟨_, rfl⟩

theorem MarksFit.endLine {p : Page} (h : MarksFit marks p.done) :
    MarksFit marks p.endLine.done := by
  obtain ⟨more, same⟩ := p.done_endLine
  rw [same]
  exact h.append more

end Fit

/-- The page with another text in front. -/
def Page.behind (p : Page) (text : String) : Page := { p with done := text ++ p.done }

section Front

variable (p : Page) (text : String)

theorem Page.behind_done : (p.behind text).done = text ++ p.done := rfl

theorem Page.behind_endLine : (p.behind text).endLine = p.endLine.behind text :=
  VFromC.Output.endLine_behind p text

theorem Page.behind_writeLine (s : String) :
    (p.behind text).writeLine s = (p.writeLine s).behind text := by
  simp only [Page.behind, Page.writeLine, Page.write, Page.flush, String.append_assoc]

/-- Taking out from the end of the text in front leaves that text. -/
theorem Page.behind_takeFrom :
    (p.behind text).takeFrom text.utf8ByteSize =
      (p.endLine.done, { (p.behind text).endLine with done := text }) := by
  refine takeFrom_eq ?_
  rw [behind_endLine, behind_done]

end Front

/-- The first page has the same on it as the second one, behind another text. -/
structure MarkedPage.Behind (text : String) (w alone : MarkedPage) : Prop where
  page : w.page = alone.page.behind text
  marks : w.marks = alone.marks.map (text.utf8ByteSize + ·)
  taken : w.taken = alone.taken
  fit : MarksFit alone.marks alone.page.done

section Behind

variable {text : String} {w alone : MarkedPage} {e : Edit} {k : Nat}

theorem MarkedPage.Behind.endLine (h : w.Behind text alone) :
    w.page.endLine = alone.page.endLine.behind text := by
  rw [h.page, Page.behind_endLine]

theorem MarkedPage.Behind.mark (h : w.Behind text alone) :
    (w.apply .mark).Behind text (alone.apply .mark) := by
  constructor <;> dsimp only [MarkedPage.apply, Page.mark]
  · exact h.endLine
  · rw [h.endLine, Page.behind_done, h.marks, String.utf8ByteSize_append, List.map_cons]
  · exact h.taken
  · exact h.fit.endLine.mark

/-- A take on either page cuts behind the same text, up to the text in front. -/
theorem MarkedPage.Behind.take {mark : Nat} {marks : List Nat} (h : w.Behind text alone)
    (latest : alone.marks = mark :: marks) :
    (w.apply .take).Behind text (alone.apply .take) ∧ (alone.apply .take).marks = marks ∧
      w.marks.head? = some (text.utf8ByteSize + mark) ∧
      w.page.CutsBetween (text.utf8ByteSize + mark) := by
  -- The line that is still pending is completed first, which moves none of the marks.
  have fit := h.fit.endLine
  rw [latest] at fit
  generalize hd : alone.page.endLine.done = done at fit
  cases fit with
  | @cons _ before after inside =>
      have marks' := h.marks
      rw [latest, List.map_cons] at marks'
      have size : (text ++ before).utf8ByteSize = text.utf8ByteSize + before.utf8ByteSize :=
        String.utf8ByteSize_append ..
      have here : w.page.endLine.done = text ++ before ++ after := by
        rw [h.endLine, Page.behind_done, hd, String.append_assoc]
      have taking := takeFrom_eq here
      rw [size] at taking
      have takingAlone := takeFrom_eq hd
      refine ⟨?_, ?_, ?_, text ++ before, after, here, size⟩
      · constructor <;> simp only [MarkedPage.apply, marks', latest, taking, takingAlone]
        · rw [h.endLine]
          rfl
        · rw [h.taken]
        · exact inside
      · simp only [MarkedPage.apply, latest]
      · rw [marks', List.head?_cons]

/-- One edit does the same to both pages. -/
theorem MarkedPage.Behind.apply (h : w.Behind text alone)
    (ok : e.openAfter alone.marks.length = some k) :
    (w.apply e).Behind text (alone.apply e) ∧ (alone.apply e).marks.length = k := by
  cases e with
  | write | deeper | shallower =>
      cases ok
      exact ⟨⟨by rw [MarkedPage.apply, h.page]; rfl, h.marks, h.taken, h.fit⟩, rfl⟩
  | line s =>
      cases ok
      refine ⟨?_, by dsimp only [MarkedPage.apply]⟩
      constructor <;> dsimp only [MarkedPage.apply]
      · rw [h.page, Page.behind_writeLine]
      · exact h.marks
      · exact h.taken
      · exact h.fit.append _
  | endLine =>
      cases ok
      refine ⟨?_, by dsimp only [MarkedPage.apply]⟩
      constructor <;> dsimp only [MarkedPage.apply]
      · exact h.endLine
      · exact h.marks
      · exact h.taken
      · exact h.fit.endLine
  | mark =>
      cases ok
      exact ⟨h.mark, rfl⟩
  | take =>
      cases latest : alone.marks with
      | nil =>
          rw [latest] at ok
          cases ok
      | cons mark marks =>
          rw [latest] at ok
          cases ok
          obtain ⟨behind, left, -⟩ := h.take latest
          exact ⟨behind, by rw [left]⟩

/-- Edits that take out only what is marked do the same to both pages. -/
theorem MarkedPage.Behind.run {edits : List Edit} (h : w.Behind text alone)
    (ok : edits.foldlM Edit.openAfter alone.marks.length = some k) :
    (w.run edits).Behind text (alone.run edits) ∧ (alone.run edits).marks.length = k := by
  induction edits generalizing w alone with
  | nil =>
      cases ok
      exact ⟨h, rfl⟩
  | cons e rest ih =>
      rw [List.foldlM_cons] at ok
      obtain ⟨opened, first, later⟩ := Option.bind_eq_some_iff.mp ok
      obtain ⟨behind, count⟩ := h.apply first
      rw [← count] at later
      exact ih behind later

end Behind

/-- Once a mark is set on a page, nested edits followed by taking out from the mark leave the
complete text as it was at the mark. What is taken out is what the edits write on an empty page, and
no take cuts a character in two. -/
theorem nested_edits_taken_exactly (p : Page) (edits : List Edit) (nested : MarksNest edits) :
    let marked : MarkedPage := { page := p.mark.2 }
    let alone : MarkedPage := { page := { indent := p.indent } }
    let out := (marked.run edits).page.takeFrom p.mark.1
    out.2.done = p.mark.2.done ∧
      out.1 = (alone.run edits).page.endLine.done ∧
      (marked.run edits).taken = (alone.run edits).taken ∧
      (marked.run edits).page.CutsBetween p.mark.1 ∧
      ∀ before after, edits = before ++ .take :: after →
        ∃ mark, (marked.run before).marks.head? = some mark ∧
          (marked.run before).page.CutsBetween mark := by
  intro marked alone out
  have atMark : p.mark = (p.endLine.done.utf8ByteSize, p.endLine) := rfl
  have start : marked.Behind p.endLine.done alone := by
    refine ⟨?_, rfl, rfl, .none _⟩
    simp only [marked, alone, atMark, Page.behind, String.append_empty]
    rw [← pending_endLine p, ← indent_endLine p]
  obtain ⟨behind, -⟩ := start.run nested
  have taking : out = ((alone.run edits).page.endLine.done,
      { (marked.run edits).page.endLine with done := p.endLine.done }) := by
    simp only [out, atMark, behind.page, Page.behind_takeFrom]
  refine ⟨?_, ?_, behind.taken, ?_, ?_⟩
  · rw [taking, atMark]
  · rw [taking]
  · refine ⟨p.endLine.done, (alone.run edits).page.endLine.done, ?_, ?_⟩
    · rw [behind.page, Page.behind_endLine, Page.behind_done]
    · rw [atMark]
  · intro before after split
    rw [MarksNest, split, List.foldlM_append] at nested
    obtain ⟨opened, first, later⟩ := Option.bind_eq_some_iff.mp nested
    obtain ⟨here, count⟩ := start.run first
    cases latest : (alone.run before).marks with
    | nil =>
        rw [latest] at count
        subst count
        cases later
    | cons mark marks =>
        obtain ⟨-, -, head, between⟩ := here.take latest
        exact ⟨_, head, between⟩

/-- A page with a half-written line, and characters of more than one byte. -/
def greekPage : Page := { done := "é\n", pending := " ξ", indent := 1 }

/-- Edits with a pair of marks inside of another one, and one more step out than there are in. -/
def greekEdits : List Edit :=
  [.write "α", .mark, .line "β", .shallower, .shallower, .take, .mark, .write "γ", .mark,
    .line "δ", .take, .take, .write "ω"]

theorem greekEdits_taken_exactly :
    let marked : MarkedPage := { page := greekPage.mark.2 }
    let out := (marked.run greekEdits).page.takeFrom greekPage.mark.1
    MarksNest greekEdits ∧ out.2.done = "é\n\tξ\n" ∧ out.1 = "\tα\nω\n" ∧
      (marked.run greekEdits).taken = ["\tβ\n", "δ\n", "γ\n"] ∧
      (marked.run greekEdits).page.CutsBetween 7 := by
  intro marked out
  have nested : MarksNest greekEdits := by decide
  obtain ⟨left, text, inner, between, -⟩ := nested_edits_taken_exactly greekPage greekEdits nested
  exact ⟨nested, left.trans rfl, text.trans rfl, inner.trans rfl, between⟩

end VFromC.Output
