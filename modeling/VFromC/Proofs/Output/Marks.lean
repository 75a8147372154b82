import VFromC.Output.Labels
import VFromC.Proofs.Text.Replace
/-!
Texts with targets of jumps in them, and what replacing marks does to such texts.

A target stands between a blank and the end of its line. So a mark is found only where it was
written, as long as the text around it has none.
-/
namespace VFromC.Output
open VFromC.Text

/-- A word that can stand for a label in a mark. -/
def IsClean (id : String) : Prop := ∀ c ∈ id.toList, c ≠ '_' ∧ isBlank c = false

/-- A word that can stand at the end of a line. -/
def IsWord (name : String) : Prop := name ≠ "" ∧ ∀ c ∈ name.toList, isBlank c = false

instance (id : String) : Decidable (IsClean id) :=
  List.decidableBAll (fun c => c ≠ '_' ∧ isBlank c = false) id.toList

instance (name : String) : Decidable (IsWord name) :=
  @instDecidableAnd _ _ inferInstance
    (List.decidableBAll (fun c => isBlank c = false) name.toList)

theorem toList_markOf (id : String) :
    (Labels.markOf id).toList = Labels.markStart.toList ++ id.toList ++ ['_', '_'] := by
  simp [Labels.markOf]

theorem markOf_isWord {id : String} (h : IsClean id) : IsWord (Labels.markOf id) := by
  have start : ∀ c ∈ Labels.markStart.toList, isBlank c = false := by
    have all : Labels.markStart.toList.all (fun c => !isBlank c) = true := by decide
    simpa using all
  constructor
  · intro same
    have : (Labels.markOf id).toList = [] := by rw [same]; rfl
    rw [toList_markOf] at this
    simp at this
  · intro c hc
    rw [toList_markOf] at hc
    rcases List.mem_append.mp hc with hc | hc
    · rcases List.mem_append.mp hc with hc | hc
      · exact start c hc
      · exact (h c hc).2
    · have blank : isBlank '_' = false := by decide
      simp only [List.mem_cons, List.not_mem_nil, or_false, or_self] at hc
      rw [hc, blank]

theorem count_markOf {id : String} (h : IsClean id) : (Labels.markOf id).toList.count '_' = 6 := by
  have none : id.toList.count '_' = 0 := List.count_eq_zero.mpr fun hm => (h _ hm).1 rfl
  have start : Labels.markStart.toList.count '_' = 4 := by decide
  rw [toList_markOf, List.count_append, List.count_append, none, start]
  rfl

theorem head?_markOf (id : String) : (Labels.markOf id).toList.head? = some '_' := by
  rw [toList_markOf, List.append_assoc]
  rfl

theorem getLast?_markOf (id : String) : (Labels.markOf id).toList.getLast? = some '_' := by
  rw [toList_markOf, List.getLast?_append]
  rfl

theorem eq_of_markOf_within {a b : String} (ha : IsClean a) (hb : IsClean b)
    (h : (Labels.markOf a).toList <:+: (Labels.markOf b).toList) : a = b := by
  obtain ⟨front, back, same⟩ := h
  -- All underscores are in the inner mark, but the outer one begins and ends with one.
  have counts : '_' ∉ front ∧ '_' ∉ back := by
    have total := congrArg (List.count '_') same
    rw [List.count_append, List.count_append, count_markOf ha, count_markOf hb] at total
    exact ⟨List.count_eq_zero.mp (by omega), List.count_eq_zero.mp (by omega)⟩
  have hfront : front = [] := by
    cases front with
    | nil => rfl
    | cons c rest =>
        have first := head?_markOf b
        rw [← same, List.append_assoc, List.cons_append, List.head?_cons] at first
        cases first
        exact absurd List.mem_cons_self counts.1
  have hback : back = [] := by
    have last := getLast?_markOf b
    rw [← same, List.getLast?_append] at last
    cases hl : back.getLast? with
    | none => exact List.getLast?_eq_none_iff.mp hl
    | some c =>
        rw [hl, Option.some_or] at last
        cases last
        exact absurd (List.mem_of_getLast? hl) counts.2
  rw [hfront, hback, List.nil_append, List.append_nil, toList_markOf, toList_markOf] at same
  exact String.toList_injective (List.append_cancel_left (List.append_cancel_right same))

theorem markStart_within_of_markOf {id : String} {text : List Char}
    (h : (Labels.markOf id).toList <:+: text) : Labels.markStart.toList <:+: text := by
  refine List.IsInfix.trans ?_ h
  rw [toList_markOf, List.append_assoc]
  exact (List.prefix_append _ _).isInfix

/-- The target of a jump; it is known when its label was met before. -/
structure Slot where
  id : String
  known : Bool

/-- A text with targets in it. Each stands behind some text and a blank, at the end of a line. -/
structure Jotted where
  parts : List (List Char × Slot) := []
  tail : List Char := []

namespace Jotted

def fill (shown : Slot → List Char) (t : Jotted) : List Char :=
  t.parts.flatMap (fun p => p.1 ++ ' ' :: (shown p.2 ++ ['\n'])) ++ t.tail

def addText (t : Jotted) (text : List Char) : Jotted := { t with tail := t.tail ++ text }

def addTarget (t : Jotted) (before : List Char) (slot : Slot) : Jotted :=
  { parts := t.parts ++ [(t.tail ++ before, slot)] }

variable {shown shown' : Slot → List Char} {t : Jotted}

theorem fill_addText (text : List Char) :
    (t.addText text).fill shown = t.fill shown ++ text := by
  simp only [addText, fill, List.append_assoc]

theorem fill_addTarget (before : List Char) (slot : Slot) :
    (t.addTarget before slot).fill shown =
      t.fill shown ++ (before ++ ' ' :: (shown slot ++ ['\n'])) := by
  simp [addTarget, fill]

theorem fill_congr (h : ∀ p ∈ t.parts, shown p.2 = shown' p.2) : t.fill shown = t.fill shown' := by
  have parts : t.parts.flatMap (fun p => p.1 ++ ' ' :: (shown p.2 ++ ['\n'])) =
      t.parts.flatMap (fun p => p.1 ++ ' ' :: (shown' p.2 ++ ['\n'])) :=
    List.flatMap_congr fun p hp => by rw [h p hp]
  rw [fill, fill, parts]

theorem part_within {p : List Char × Slot} (h : p ∈ t.parts) :
    p.1 ++ ' ' :: (shown p.2 ++ ['\n']) <:+: t.fill shown := by
  let line (p : List Char × Slot) := p.1 ++ ' ' :: (shown p.2 ++ ['\n'])
  have inside : line p <:+: t.parts.flatMap line :=
    List.infix_of_mem_flatten (List.mem_map_of_mem h)
  exact inside.trans (List.prefix_append _ _).isInfix

theorem shown_within {p : List Char × Slot} (h : p ∈ t.parts) : shown p.2 <:+: t.fill shown := by
  refine List.IsInfix.trans ⟨p.1 ++ [' '], ['\n'], ?_⟩ (part_within h)
  simp

theorem before_within {p : List Char × Slot} (h : p ∈ t.parts) : p.1 <:+: t.fill shown :=
  List.IsInfix.trans (List.prefix_append _ _).isInfix (part_within h)

theorem tail_within : t.tail <:+: t.fill shown := (List.suffix_append _ _).isInfix

/-- Replacing a word in such a text replaces it in the targets, when it is nowhere else. -/
theorem replaceAll_fill {pat new : List Char} (hne : pat ≠ [])
    (hp : ∀ c ∈ pat, isBlank c = false) (hparts : ∀ p ∈ t.parts, ¬ pat <:+: p.1)
    (htail : ¬ pat <:+: t.tail) :
    replaceAll pat new (t.fill shown) = t.fill fun slot => replaceAll pat new (shown slot) := by
  obtain ⟨parts, tail⟩ := t
  induction parts with
  | nil => exact replaceAll_of_absent htail
  | cons p rest ih =>
      obtain ⟨first, others⟩ := List.forall_mem_cons.mp hparts
      have split (shown : Slot → List Char) : fill shown ⟨p :: rest, tail⟩ =
          p.1 ++ ' ' :: (shown p.2 ++ '\n' :: fill shown ⟨rest, tail⟩) := by
        simp [fill]
      -- The blank before a target and the end of its line keep occurrences apart.
      rw [split, split, replaceAll_append_blank rfl hne hp, replaceAll_append_blank rfl hne hp,
        replaceAll_of_absent first, ih others htail]

end Jotted

section Resolve

variable {names : String → Option String}

/-- A target once all labels are known. -/
def settled (names : String → Option String) (slot : Slot) : List Char :=
  ((names slot.id).getD (Labels.markOf slot.id)).toList

/-- A target when the marks of some labels are replaced. -/
def patched (names : String → Option String) (solved : List String) (slot : Slot) : List Char :=
  if slot.known = true ∨ slot.id ∈ solved then settled names slot
  else (Labels.markOf slot.id).toList

theorem replaceAll_patched {solved : List String} {id name : String} (hid : IsClean id)
    (hname : names id = some name) {slot : Slot} (hslot : IsClean slot.id)
    (free : ¬ Labels.markStart.toList <:+: settled names slot) :
    replaceAll (Labels.markOf id).toList name.toList (patched names solved slot) =
      patched names (id :: solved) slot := by
  have settles : replaceAll (Labels.markOf id).toList name.toList (settled names slot) =
      settled names slot :=
    replaceAll_of_absent fun h => free (markStart_within_of_markOf h)
  by_cases hs : slot.known = true ∨ slot.id ∈ solved
  · have hs' : slot.known = true ∨ slot.id ∈ id :: solved := hs.imp_right (List.mem_cons_of_mem _)
    rw [patched, patched, if_pos hs, if_pos hs', settles]
  · by_cases same : slot.id = id
    · have hs' : slot.known = true ∨ slot.id ∈ id :: solved := .inr (same ▸ List.mem_cons_self)
      have nonempty : (Labels.markOf id).toList ≠ [] := by
        rw [toList_markOf]
        simp
      rw [patched, patched, if_neg hs, if_pos hs', same, replaceAll_self nonempty, settled, same,
        hname, Option.getD_some]
    · have hs' : ¬ (slot.known = true ∨ slot.id ∈ id :: solved) := by
        simpa [same] using hs
      rw [patched, patched, if_neg hs, if_neg hs', replaceAll_of_absent]
      exact fun h => same (eq_of_markOf_within hid hslot h).symm

theorem resolveAll_patched {table : List (String × String)} {t : Jotted} {ids : List String}
    (hids : ∀ id ∈ ids, IsClean id ∧ ∃ name, table.lookup id = some name ∧ names id = some name)
    (hslots : ∀ p ∈ t.parts, IsClean p.2.id)
    (free : ¬ Labels.markStart.toList <:+: t.fill (settled names)) (solved : List String) :
    Labels.resolveAll table ids (String.ofList (t.fill (patched names solved))) =
      .ok (String.ofList (t.fill (patched names (ids.reverse ++ solved)))) := by
  induction ids generalizing solved with
  | nil => rfl
  | cons id ids ih =>
      obtain ⟨⟨hid, name, hlookup, hname⟩, others⟩ := List.forall_mem_cons.mp hids
      have word := markOf_isWord hid
      have apart {x : List Char} (h : x <:+: t.fill (settled names)) :
          ¬ (Labels.markOf id).toList <:+: x :=
        fun hx => free ((markStart_within_of_markOf hx).trans h)
      have step : replaced (Labels.markOf id) name (String.ofList (t.fill (patched names solved))) =
          String.ofList (t.fill (patched names (id :: solved))) := by
        rw [replaced, String.toList_ofList, Jotted.replaceAll_fill _ word.2
          (fun p hp => apart (Jotted.before_within hp)) (apart Jotted.tail_within)]
        · congr 1
          refine Jotted.fill_congr fun p hp => ?_
          exact replaceAll_patched hid hname (hslots p hp) fun h =>
            free (h.trans (Jotted.shown_within hp))
        · rw [toList_markOf]
          simp
      rw [Labels.resolveAll, hlookup]
      dsimp only
      rw [step, ih others]
      simp

end Resolve

end VFromC.Output
