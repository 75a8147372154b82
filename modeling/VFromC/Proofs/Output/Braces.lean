import VFromC.Proofs.Output.Behind
import VFromC.Proofs.Text.Braces
/-!
The braces on a page are those of the commands that were carried out, in order: indenting, trimming
and resolving jumps do not touch them.
-/
namespace VFromC.Output
open VFromC.Text

/-- What a command adds to the page as it is given. -/
def Command.text : Command → String
  | .write s | .line s | .declare _ _ s | .refer _ s => s
  | .head h => h.text
  | _ => ""

/-- The braces that some commands add to the page. -/
def bracesOf (commands : List Command) : List Char := commands.flatMap fun c => braces c.text

/-- The command only adds to the page, and a label has no brace in its name or in the identifier
that stands for it. -/
def Command.IsTame : Command → Prop
  | .label _ name => braces name = []
  | .jump id => braces id = []
  | .mark | .take _ => False
  | _ => True

theorem adds_of_isTame {c : Command} (h : c.IsTame) : c.Adds := by
  cases c with
  | mark | take => exact h
  | _ => trivial

theorem bracesOf_append (c₁ c₂ : List Command) :
    bracesOf (c₁ ++ c₂) = bracesOf c₁ ++ bracesOf c₂ := List.flatMap_append

section Pages

/-- The braces on a page, with those on the pending line. -/
def Page.braces (p : Page) : List Char := Text.braces p.done ++ Text.braces p.pending

theorem braces_lineText (indent : Nat) (line : String) :
    Text.braces (lineText indent line) = Text.braces line := by
  have newline : Text.braces "\n" = [] := by
    simp [Text.braces, isBrace]
  rw [← braces_trimmed line]
  unfold lineText
  split
  · rename_i blank
    rw [blank, braces_empty, newline]
  · rw [braces_append, braces_append, braces_ofList (braceFree_replicate rfl indent), newline,
      List.append_nil, List.nil_append]

theorem braces_write (p : Page) (s : String) : (p.write s).braces = p.braces ++ Text.braces s := by
  simp only [Page.braces, Page.write, braces_append, List.append_assoc]

theorem braces_flush (p : Page) : p.flush.braces = p.braces := by
  simp only [Page.braces, Page.flush, braces_append, braces_lineText, braces_empty, List.append_nil]

theorem braces_endLine (p : Page) : p.endLine.braces = p.braces := by
  unfold Page.endLine
  split
  · rename_i blank
    have none : Text.braces p.pending = [] := by
      rw [← braces_trimmed, blank, braces_empty]
    simp only [Page.braces, none, braces_empty]
  · exact braces_flush p

end Pages

section Drafts

/-- No label has a brace in its name, and neither have the identifiers that wait for one. -/
def Labels.BraceFree (labels : Labels) : Prop :=
  (∀ entry ∈ labels.names, braces entry.2 = []) ∧ ∀ id ∈ labels.pending, braces id = []

theorem braces_markOf {id : String} (h : braces id = []) : braces (Labels.markOf id) = [] :=
  free_append (free_append rfl h) rfl

theorem target_free {labels : Labels} (free : labels.BraceFree) {id : String}
    (h : braces id = []) :
    braces (labels.target id).1 = [] ∧ (labels.target id).2.BraceFree := by
  obtain ⟨names, pending⟩ := free
  unfold Labels.target
  split
  · rename_i hn
    exact ⟨names _ (mem_of_lookup hn), names, pending⟩
  · refine ⟨braces_markOf h, names, ?_⟩
    dsimp only
    split
    · exact pending
    · exact List.forall_mem_append.mpr ⟨pending, List.forall_mem_singleton.mpr h⟩

theorem apply_braces {d : Draft} (free : d.labels.BraceFree) {c : Command} (hc : c.IsTame) :
    (d.apply c).labels.BraceFree ∧ (d.apply c).page.braces = d.page.braces ++ braces c.text := by
  have same : d.page.braces = d.page.braces ++ braces "" := by
    rw [braces_empty, List.append_nil]
  cases c with
  | write s | declare _ _ s | refer _ s => exact ⟨free, braces_write d.page s⟩
  | line s => exact ⟨free, (braces_flush _).trans (braces_write d.page s)⟩
  | head h => exact ⟨free, (braces_flush _).trans (braces_write d.page h.text)⟩
  | endLine =>
      dsimp only [Draft.apply]
      rw [braces_endLine]
      exact ⟨free, same⟩
  | deeper | shallower | note => exact ⟨free, same⟩
  | label id name => exact ⟨⟨List.forall_mem_cons.mpr ⟨hc, free.1⟩, free.2⟩, same⟩
  | jump id =>
      obtain ⟨target, labels⟩ := target_free free hc
      have text : braces s!"goto {(d.labels.target id).1}" = [] :=
        free_append (s := "goto ") rfl target
      refine ⟨labels, ((braces_flush _).trans (braces_write d.page _)).trans ?_⟩
      rw [text]
      exact congrArg _ braces_empty.symm
  | mark | take => exact hc.elim

theorem run_braces {d : Draft} (free : d.labels.BraceFree) {commands : List Command}
    (hc : ∀ c ∈ commands, c.IsTame) :
    (d.run commands).labels.BraceFree ∧
      (d.run commands).page.braces = d.page.braces ++ bracesOf commands := by
  induction commands generalizing d with
  | nil => exact ⟨free, (List.append_nil _).symm⟩
  | cons c rest ih =>
      obtain ⟨first, later⟩ := List.forall_mem_cons.mp hc
      obtain ⟨labels, here⟩ := apply_braces free first
      obtain ⟨labels', there⟩ := ih labels later
      refine ⟨labels', there.trans ?_⟩
      rw [here, List.append_assoc]
      rfl

/-- What is added to a draft at rest has the braces of the commands. -/
theorem restAt_run_braces {commands : List Command} (hc : ∀ c ∈ commands, c.IsTame)
    (hl : levelAfter 0 commands = 0)
    (hp : ∀ d : Draft, d.page.pending = "" → (d.run commands).page.pending = "")
    {labels : Labels} (free : labels.BraceFree) (journal : Journal) :
    ∃ added labels' journal', braces added = bracesOf commands ∧ labels'.BraceFree ∧
      ∀ text place taken, (Draft.restAt text labels journal place taken).run commands =
        Draft.restAt (text ++ added) labels' journal' place taken := by
  obtain ⟨added, labels', journal', run⟩ :=
    restAt_run (fun c h => adds_of_isTame (hc c h)) hl hp labels journal
  obtain ⟨free', here⟩ := run_braces (d := Draft.restAt "" labels journal 0 []) free hc
  rw [run, String.empty_append] at free' here
  refine ⟨added, labels', journal', ?_, free', run⟩
  rw [← List.append_nil (braces added)]
  exact here

theorem taken_run (d : Draft) {commands : List Command}
    (h : ∀ c ∈ commands, ∀ name, c ≠ .take name) : (d.run commands).taken = d.taken := by
  induction commands generalizing d with
  | nil => rfl
  | cons c rest ih =>
      obtain ⟨first, later⟩ := List.forall_mem_cons.mp h
      have here : (d.apply c).taken = d.taken := by
        cases c with
        | take name => exact absurd rfl (first name)
        | _ => dsimp only [Draft.apply]
      exact (ih (d.apply c) later).trans here

end Drafts

theorem braces_resolveAll {names : List (String × String)}
    (free : ∀ entry ∈ names, braces entry.2 = []) {ids : List String}
    (hids : ∀ id ∈ ids, braces id = []) {text resolved : String}
    (h : Labels.resolveAll names ids text = .ok resolved) : braces resolved = braces text := by
  induction ids generalizing text with
  | nil =>
      cases h
      rfl
  | cons id ids ih =>
      obtain ⟨first, later⟩ := List.forall_mem_cons.mp hids
      rw [Labels.resolveAll] at h
      split at h
      · rename_i name hn
        have named : braces name = [] := free _ (mem_of_lookup hn)
        have mark : Labels.markOf id ≠ "" := by
          intro empty
          have := congrArg String.length empty
          simp [Labels.markOf, Labels.markStart] at this
        rw [ih later h, braces_replaced (braces_markOf first) mark named]
      · cases h

end VFromC.Output
