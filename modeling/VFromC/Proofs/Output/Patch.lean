import Mathlib.Data.List.TakeWhile
import VFromC.Proofs.Output.Behind
import VFromC.Proofs.Output.Marks
import VFromC.Symbols
/-!
The same commands on two drafts: one learns the labels on the way, the other one knows them from
the start.
-/
namespace VFromC.Output
open VFromC.Text

theorem trimEnd_append_singleton {l : List Char} {c : Char} (h : isBlank c = false) :
    trimEnd (l ++ [c]) = l ++ [c] := by
  simp [trimEnd, dropEndWhile, h]

/-- Trimming keeps a word at the end of a line and the blank before it. -/
theorem trim_append_word {x w : List Char} (hx : ∃ c ∈ x, isBlank c = false) (hw : w ≠ [])
    (blankless : ∀ c ∈ w, isBlank c = false) :
    trim (x ++ ' ' :: w) = x.dropWhile isBlank ++ ' ' :: w := by
  have ending : trimEnd (x ++ ' ' :: w) = x ++ ' ' :: w := by
    have last := trimEnd_append_singleton (l := x ++ ' ' :: w.dropLast)
      (blankless _ (List.getLast_mem hw))
    rwa [List.append_assoc, List.cons_append, List.dropLast_append_getLast hw] at last
  have stays : (x.dropWhile isBlank).isEmpty = false := by
    obtain ⟨c, hc, hb⟩ := hx
    rw [List.isEmpty_eq_false_iff]
    intro none
    rw [List.dropWhile_eq_nil_iff.mp none c hc] at hb
    cases hb
  rw [trim, ending, trimStart, List.dropWhile_append, stays]
  rfl

theorem lineText_jump (indent : Nat) (pending : String) :
    ∃ before : List Char, ∀ word : String, IsWord word →
      lineText indent (pending ++ s!"goto {word}") =
        String.ofList (before ++ ' ' :: (word.toList ++ ['\n'])) := by
  let x := pending.toList ++ ['g', 'o', 't', 'o']
  refine ⟨List.replicate indent '\t' ++ x.dropWhile isBlank, fun word hword => ?_⟩
  have line : (pending ++ s!"goto {word}").toList = x ++ ' ' :: word.toList := by
    simp [x, toString]
  have nonempty : word.toList ≠ [] := fun h => hword.1 (String.toList_injective (by rw [h]; rfl))
  have kept : trimmed (pending ++ s!"goto {word}") =
      String.ofList (x.dropWhile isBlank ++ ' ' :: word.toList) := by
    rw [trimmed, line, trim_append_word ⟨'g', by simp [x], rfl⟩ nonempty hword.2]
  have filled : trimmed (pending ++ s!"goto {word}") ≠ "" := by
    rw [kept]
    intro none
    simpa using congrArg String.toList none
  rw [lineText, if_neg filled, kept]
  refine String.toList_injective ?_
  simp

/-- Two texts that are one and the same but for targets that wait for a label in the first. -/
def Shows (names : String → Option String) (waiting : List String) (first second : String) : Prop :=
  ∃ t : Jotted, first.toList = t.fill (patched names []) ∧ second.toList = t.fill (settled names) ∧
    ∀ p ∈ t.parts, IsClean p.2.id ∧ (p.2.known = false → p.2.id ∈ waiting)

variable {names : String → Option String} {waiting : List String} {first second : String}

theorem shows_empty : Shows names waiting "" "" :=
  ⟨{}, rfl, rfl, fun _ h => absurd h List.not_mem_nil⟩

theorem Shows.mono {waiting' : List String} (h : Shows names waiting first second)
    (sub : ∀ id ∈ waiting, id ∈ waiting') : Shows names waiting' first second := by
  obtain ⟨t, h₁, h₂, slots⟩ := h
  exact ⟨t, h₁, h₂, fun p hp => ⟨(slots p hp).1, fun hk => sub _ ((slots p hp).2 hk)⟩⟩

theorem Shows.append (h : Shows names waiting first second) (text : String) :
    Shows names waiting (first ++ text) (second ++ text) := by
  obtain ⟨t, h₁, h₂, slots⟩ := h
  refine ⟨t.addText text.toList, ?_, ?_, slots⟩
  · rw [String.toList_append, h₁, Jotted.fill_addText]
  · rw [String.toList_append, h₂, Jotted.fill_addText]

theorem Shows.appendTarget (h : Shows names waiting first second) (before : List Char) {slot : Slot}
    (clean : IsClean slot.id) (hw : slot.known = false → slot.id ∈ waiting) :
    Shows names waiting
      (first ++ String.ofList (before ++ ' ' :: (patched names [] slot ++ ['\n'])))
      (second ++ String.ofList (before ++ ' ' :: (settled names slot ++ ['\n']))) := by
  obtain ⟨t, h₁, h₂, slots⟩ := h
  refine ⟨t.addTarget before slot, ?_, ?_, ?_⟩
  · rw [String.toList_append, String.toList_ofList, h₁, Jotted.fill_addTarget]
  · rw [String.toList_append, String.toList_ofList, h₂, Jotted.fill_addTarget]
  · exact List.forall_mem_append.mpr ⟨slots, List.forall_mem_singleton.mpr ⟨clean, hw⟩⟩

/-- Two pages that show the same, up to the place last marked as well as beyond it. -/
structure SamePage (names : String → Option String) (waiting : List String) (p₁ p₂ : Page)
    (place₁ place₂ : Nat) : Prop where
  pending : p₁.pending = p₂.pending
  indent : p₁.indent = p₂.indent
  done : Shows names waiting p₁.done p₂.done
  marked : ∃ before₁ before₂ since₁ since₂, Shows names waiting before₁ before₂ ∧
    p₁.done = before₁ ++ since₁ ∧ p₂.done = before₂ ++ since₂ ∧
    place₁ = before₁.utf8ByteSize ∧ place₂ = before₂.utf8ByteSize

namespace SamePage

variable {p₁ p₂ : Page} {place₁ place₂ : Nat}

theorem mono {waiting' : List String} (h : SamePage names waiting p₁ p₂ place₁ place₂)
    (sub : ∀ id ∈ waiting, id ∈ waiting') : SamePage names waiting' p₁ p₂ place₁ place₂ := by
  obtain ⟨before₁, before₂, since₁, since₂, shows, rest⟩ := h.marked
  exact ⟨h.pending, h.indent, h.done.mono sub, before₁, before₂, since₁, since₂, shows.mono sub,
    rest⟩

theorem add (h : SamePage names waiting p₁ p₂ place₁ place₂) {text₁ text₂ : String}
    (shows : Shows names waiting (p₁.done ++ text₁) (p₂.done ++ text₂)) :
    SamePage names waiting { p₁ with done := p₁.done ++ text₁, pending := "" }
      { p₂ with done := p₂.done ++ text₂, pending := "" } place₁ place₂ := by
  obtain ⟨before₁, before₂, since₁, since₂, marked, done₁, done₂, places⟩ := h.marked
  refine ⟨rfl, h.indent, shows, before₁, before₂, since₁ ++ text₁, since₂ ++ text₂, marked, ?_, ?_,
    places⟩
  · rw [← String.append_assoc, ← done₁]
  · rw [← String.append_assoc, ← done₂]

theorem write (h : SamePage names waiting p₁ p₂ place₁ place₂) (s : String) :
    SamePage names waiting (p₁.write s) (p₂.write s) place₁ place₂ :=
  ⟨congrArg (· ++ s) h.pending, h.indent, h.done, h.marked⟩

theorem flush (h : SamePage names waiting p₁ p₂ place₁ place₂) :
    SamePage names waiting p₁.flush p₂.flush place₁ place₂ := by
  have same := h.add (h.done.append (lineText p₁.indent p₁.pending))
  have line : lineText p₁.indent p₁.pending = lineText p₂.indent p₂.pending := by
    rw [h.indent, h.pending]
  unfold Page.flush
  rwa [← line]

theorem endLine (h : SamePage names waiting p₁ p₂ place₁ place₂) :
    SamePage names waiting p₁.endLine p₂.endLine place₁ place₂ := by
  unfold Page.endLine
  rw [← h.pending]
  split
  · exact ⟨rfl, h.indent, h.done, h.marked⟩
  · exact h.flush

theorem deeper (h : SamePage names waiting p₁ p₂ place₁ place₂) :
    SamePage names waiting p₁.deeper p₂.deeper place₁ place₂ :=
  ⟨h.pending, congrArg (· + 1) h.indent, h.done, h.marked⟩

theorem shallower (h : SamePage names waiting p₁ p₂ place₁ place₂) :
    SamePage names waiting p₁.shallower p₂.shallower place₁ place₂ :=
  ⟨h.pending, congrArg (· - 1) h.indent, h.done, h.marked⟩

theorem jump (h : SamePage names waiting p₁ p₂ place₁ place₂) (slot : Slot)
    (clean : IsClean slot.id)
    (hw : slot.known = false → slot.id ∈ waiting) {word₁ word₂ : String} (hword₁ : IsWord word₁)
    (hword₂ : IsWord word₂) (h₁ : word₁.toList = patched names [] slot)
    (h₂ : word₂.toList = settled names slot) :
    SamePage names waiting (p₁.writeLine s!"goto {word₁}") (p₂.writeLine s!"goto {word₂}")
      place₁ place₂ := by
  obtain ⟨before, line⟩ := lineText_jump p₁.indent p₁.pending
  have shows := h.done.appendTarget before clean hw
  rw [← h₁, ← h₂, ← line word₁ hword₁, ← line word₂ hword₂] at shows
  have same := h.add shows
  have line₂ : lineText p₁.indent (p₁.pending ++ s!"goto {word₂}") =
      lineText p₂.indent (p₂.pending ++ s!"goto {word₂}") := by
    rw [h.indent, h.pending]
  rw [line₂] at same
  exact same

theorem atEnd (h : SamePage names waiting p₁ p₂ place₁ place₂) :
    SamePage names waiting p₁ p₂ p₁.done.utf8ByteSize p₂.done.utf8ByteSize := by
  refine ⟨h.pending, h.indent, h.done, p₁.done, p₂.done, "", "", h.done, ?_, ?_, rfl, rfl⟩
  · rw [String.append_empty]
  · rw [String.append_empty]

theorem take (h : SamePage names waiting p₁ p₂ place₁ place₂) :
    SamePage names waiting (p₁.takeFrom place₁).2 (p₂.takeFrom place₂).2 place₁ place₂ := by
  obtain ⟨before₁, before₂, since₁, since₂, shows, done₁, done₂, rfl, rfl⟩ := h.endLine.marked
  rw [takeFrom_eq done₁, takeFrom_eq done₂]
  have ended := h.endLine
  generalize p₁.endLine = q₁ at ended
  generalize p₂.endLine = q₂ at ended
  refine ⟨ended.pending, ended.indent, shows, before₁, before₂, "", "", shows, ?_, ?_, rfl, rfl⟩
  · rw [String.append_empty]
  · rw [String.append_empty]

end SamePage

/-- The second draft knows all labels, the first one those that it has met. -/
structure Knows (names : String → Option String) (d₁ d₂ : Draft) : Prop where
  page : SamePage names d₁.labels.pending d₁.page d₂.page d₁.place d₂.place
  met : ∀ id name, d₁.labels.names.lookup id = some name → names id = some name
  known : ∀ id, d₂.labels.names.lookup id = names id
  waiting : d₂.labels.pending = d₁.labels.pending.filter fun id => (names id).isNone
  clean : ∀ id ∈ d₁.labels.pending, IsClean id

/-- The command speaks of labels as they are known. -/
def Agrees (names : String → Option String) : Command → Prop
  | .label id name => names id = some name
  | .jump id => IsClean id
  | _ => True

variable {d₁ d₂ : Draft}

theorem lookup_define (labels : Labels) (id name i : String) :
    (labels.define id name).names.lookup i =
      if i = id then some name else labels.names.lookup i := by
  by_cases same : i = id
  · rw [if_pos same, same]
    exact List.lookup_cons_self
  · rw [if_neg same, Labels.define, List.lookup_cons, beq_false_of_ne same]

theorem Knows.label (h : Knows names d₁ d₂) {id name : String} (hname : names id = some name) :
    Knows names (d₁.apply (.label id name)) (d₂.apply (.label id name)) := by
  refine ⟨h.page, fun i n hi => ?_, fun i => ?_, h.waiting, h.clean⟩
  · simp only [Draft.apply, lookup_define] at hi
    split at hi
    · rename_i same
      rw [same, hname, hi]
    · exact h.met i n hi
  · simp only [Draft.apply, lookup_define]
    split
    · rename_i same
      rw [same, hname]
    · exact h.known i

theorem target_known {labels : Labels} {id name : String} (h : labels.names.lookup id = some name) :
    labels.target id = (name, labels) := by
  simp only [Labels.target, h]

theorem target_unknown {labels : Labels} {id : String} (h : labels.names.lookup id = none) :
    labels.target id =
      (Labels.markOf id, { labels with pending := insertName id labels.pending }) := by
  simp only [Labels.target, h, insertName]

theorem filter_insertName {p : String → Bool} {id : String} {ids : List String} :
    (insertName id ids).filter p =
      if p id = true then insertName id (ids.filter p) else ids.filter p := by
  by_cases hp : p id = true
  · have same : (ids.filter p).contains id = ids.contains id := by
      simp [List.contains_eq_mem, hp]
    rw [if_pos hp, insertName, insertName, same]
    split
    · rfl
    · rw [List.filter_append, List.filter_cons_of_pos hp, List.filter_nil]
  · rw [if_neg hp, insertName]
    split
    · rfl
    · rw [List.filter_append, List.filter_cons_of_neg hp, List.filter_nil, List.append_nil]

theorem Knows.jump (h : Knows names d₁ d₂) (words : ∀ id name, names id = some name → IsWord name)
    {id : String} (clean : IsClean id) :
    Knows names (d₁.apply (.jump id)) (d₂.apply (.jump id)) := by
  have mark := markOf_isWord clean
  cases hd₁ : d₁.labels.names.lookup id with
  | some name =>
      -- Both drafts know the label.
      have hname := h.met id name hd₁
      have hd₂ : d₂.labels.names.lookup id = some name := (h.known id).trans hname
      simp only [Draft.apply, target_known hd₁, target_known hd₂]
      refine ⟨?_, h.met, h.known, h.waiting, h.clean⟩
      have waits : (⟨id, true⟩ : Slot).known = false → id ∈ d₁.labels.pending := by
        intro unknown
        cases unknown
      refine h.page.jump ⟨id, true⟩ clean waits (words id name hname) (words id name hname) ?_ ?_
      · simp [patched, settled, hname]
      · simp [settled, hname]
  | none =>
      have grows : ∀ i ∈ d₁.labels.pending, i ∈ insertName id d₁.labels.pending :=
        fun i hi => mem_insertName.mpr (.inr hi)
      have hclean : ∀ i ∈ insertName id d₁.labels.pending, IsClean i := by
        intro i hi
        rcases mem_insertName.mp hi with rfl | hi
        · exact clean
        · exact h.clean i hi
      have waits : (⟨id, false⟩ : Slot).known = false → id ∈ insertName id d₁.labels.pending :=
        fun _ => mem_insertName.mpr (.inl rfl)
      cases hname : names id with
      | some name =>
          have hd₂ : d₂.labels.names.lookup id = some name := (h.known id).trans hname
          simp only [Draft.apply, target_unknown hd₁, target_known hd₂]
          refine ⟨?_, h.met, h.known, ?_, hclean⟩
          · refine (h.page.mono grows).jump ⟨id, false⟩ clean waits mark
              (words id name hname) ?_ ?_
            · simp [patched]
            · simp [settled, hname]
          · rw [filter_insertName, if_neg (by simp [hname]), h.waiting]
      | none =>
          have hd₂ : d₂.labels.names.lookup id = none := (h.known id).trans hname
          simp only [Draft.apply, target_unknown hd₁, target_unknown hd₂]
          refine ⟨?_, h.met, h.known, ?_, hclean⟩
          · refine (h.page.mono grows).jump ⟨id, false⟩ clean waits mark mark ?_ ?_
            · simp [patched]
            · simp [settled, hname]
          · rw [filter_insertName, if_pos (by simp [hname]), h.waiting]

theorem Knows.withPages (h : Knows names d₁ d₂) {p₁ p₂ : Page} {place₁ place₂ : Nat}
    (page : SamePage names d₁.labels.pending p₁ p₂ place₁ place₂) (journal₁ journal₂ : Journal)
    (taken₁ taken₂ : List (String × String)) :
    Knows names ⟨p₁, d₁.labels, journal₁, place₁, taken₁⟩
      ⟨p₂, d₂.labels, journal₂, place₂, taken₂⟩ :=
  ⟨page, h.met, h.known, h.waiting, h.clean⟩

theorem Knows.apply (h : Knows names d₁ d₂) (words : ∀ id name, names id = some name → IsWord name)
    {c : Command} (hc : Agrees names c) : Knows names (d₁.apply c) (d₂.apply c) := by
  cases c with
  | label id name => exact h.label hc
  | jump id => exact h.jump words hc
  | write s | declare _ _ s | refer _ s => exact h.withPages (h.page.write s) _ _ _ _
  | line s => exact h.withPages (h.page.write s).flush _ _ _ _
  | head heading => exact h.withPages (h.page.write heading.text).flush _ _ _ _
  | endLine => exact h.withPages h.page.endLine _ _ _ _
  | deeper => exact h.withPages h.page.deeper _ _ _ _
  | shallower => exact h.withPages h.page.shallower _ _ _ _
  | note e => exact h.withPages h.page _ _ _ _
  -- Pages are generalized before the drafts are compared, as they do not compute.
  | mark =>
      have ended := h.page.endLine.atEnd
      rw [Draft.apply, Draft.apply, Page.mark, Page.mark]
      generalize d₁.page.endLine = p₁ at ended ⊢
      generalize d₂.page.endLine = p₂ at ended ⊢
      exact h.withPages ended _ _ _ _
  | take name =>
      have cut := h.page.take
      rw [Draft.apply, Draft.apply]
      generalize d₁.page.takeFrom d₁.place = taken₁ at cut ⊢
      generalize d₂.page.takeFrom d₂.place = taken₂ at cut ⊢
      exact h.withPages cut _ _ _ _

theorem Knows.run (h : Knows names d₁ d₂) (words : ∀ id name, names id = some name → IsWord name)
    {commands : List Command} (hc : ∀ c ∈ commands, Agrees names c) :
    Knows names (d₁.run commands) (d₂.run commands) := by
  induction commands generalizing d₁ d₂ with
  | nil => exact h
  | cons c rest ih =>
      obtain ⟨first, others⟩ := List.forall_mem_cons.mp hc
      exact ih (h.apply words first) others

end VFromC.Output
