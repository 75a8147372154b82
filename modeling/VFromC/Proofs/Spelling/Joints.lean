import Mathlib.Data.List.TakeWhile
import VFromC.Proofs.Spelling.Grammar
import VFromC.Proofs.Text.Cut
/-!
The joints between the parts of a printed type. The words that are looked for in it do not go over
from one part to the next, so that whatever is dropped or found is dropped or found part by part.
-/
namespace VFromC.Spelling
open VFromC.Text

variable {a b w pat : List Char}

/-- The character is no letter. -/
def Outside (c : Char) : Prop := isNameChar c = false

theorem not_outside {c : Char} (h : isNameChar c = true) : ¬ Outside c := by
  intro outside
  rw [Outside, h] at outside
  cases outside

/-- Not both sides are inside of a word, and a blank does not come behind a word that is dropped. -/
def Joint (a b : List Char) : Prop :=
  LastIs Outside a ∨ (HeadIs Outside b ∧ (b.head? = some ' ' → ∀ w ∈ droppedWords, ¬ w <:+ a))

theorem droppedWords_names : ∀ w ∈ droppedWords, w ≠ [] ∧ w.all isNameChar = true := by
  decide

theorem outside_cons {c : Char} (hc : isNameChar c = false) (b : List Char) :
    HeadIs Outside (c :: b) := headIs_cons hc b

theorem outside_concat {c : Char} (hc : isNameChar c = false) (a : List Char) :
    LastIs Outside (a ++ [c]) := lastIs_concat hc a

theorem joint_before {c : Char} (hc : isNameChar c = false) (hs : c ≠ ' ') (a b : List Char) :
    Joint a (c :: b) :=
  .inr ⟨outside_cons hc b, fun h => absurd (Option.some.inj h) hs⟩

theorem joint_blank (h : ∀ w ∈ droppedWords, ¬ w <:+ a) (b : List Char) : Joint a (' ' :: b) :=
  .inr ⟨outside_cons rfl b, fun _ => h⟩

theorem joint_end (a : List Char) : Joint a [] :=
  .inr ⟨headIs_nil, fun h => (by cases h)⟩

theorem not_suffix_of_outside {p : List Char} (left : LastIs Outside a)
    (hp : p.all isNameChar = true) (ne : p ≠ []) : ¬ p <:+ a := by
  rintro ⟨front, rfl⟩
  have last : (front ++ p).getLast? = some (p.getLast ne) := by
    rw [List.getLast?_append_of_ne_nil front ne, List.getLast?_eq_getLast_of_ne_nil ne]
  exact not_outside (List.all_eq_true.mp hp _ (List.getLast_mem ne)) (left _ last)

/-- A word at the end of a text does not reach over a sign that is no letter. -/
theorem suffix_of_outside_append (left : LastIs Outside a)
    (hw : w.all isNameChar = true) (h : w <:+ a ++ b) : w <:+ b := by
  rcases List.suffix_or_suffix_of_suffix h (List.suffix_append a b) with inside | ⟨more, rfl⟩
  · exact inside
  · by_cases hm : more = []
    · rw [hm, List.nil_append]
    · have behind : more <:+ a := by
        obtain ⟨front, same⟩ := h
        rw [← List.append_assoc] at same
        exact ⟨front, List.append_cancel_right same⟩
      rw [List.all_append, Bool.and_eq_true] at hw
      exact absurd behind (not_suffix_of_outside left hw.1 hm)

theorem head?_of_start {p : List Char} (hp : p ≠ []) (h : p <+: b) : b.head? = p.head? := by
  obtain ⟨rest, rfl⟩ := h
  rw [List.head?_append_of_ne_nil p hp]

/-- A pattern of letters does not go over a joint. -/
theorem Joint.not_straddles_names (h : Joint a b) (hp : pat.all isNameChar = true) :
    ¬ Straddles pat a b := by
  rintro ⟨p₁, p₂, ne₁, ne₂, rfl, behind, front⟩
  rw [List.all_append, Bool.and_eq_true] at hp
  rcases h with left | ⟨right, _⟩
  · exact not_suffix_of_outside left hp.1 ne₁ behind
  · have head := List.head?_eq_some_head ne₂
    have letter := List.all_eq_true.mp hp.2 _ (List.head_mem ne₂)
    exact not_outside letter (right _ ((head?_of_start ne₂ front).trans head))

/-- A word that is dropped with the blank behind it does not go over a joint. -/
theorem Joint.not_straddles_word (h : Joint a b) (hw : w ∈ droppedWords) :
    ¬ Straddles (w ++ [' ']) a b := by
  rintro ⟨p₁, p₂, ne₁, ne₂, same, behind, front⟩
  have letters := (droppedWords_names w hw).2
  -- The first part lies in the word, so the second one is more of the word and the blank.
  obtain ⟨more, whole, rfl⟩ : ∃ more, w = p₁ ++ more ∧ p₂ = more ++ [' '] := by
    rcases List.append_eq_append_iff.mp same with ⟨more, hp₁, hp₂⟩ | ⟨more, hw, hp₂⟩
    · rcases List.singleton_eq_append_iff.mp hp₂ with ⟨rfl, rfl⟩ | ⟨_, rfl⟩
      · exact ⟨[], by simpa using hp₁.symm, rfl⟩
      · exact absurd rfl ne₂
    · exact ⟨more, hw, hp₂⟩
  by_cases hm : more = []
  · subst hm
    rw [List.append_nil] at whole
    subst whole
    rcases h with left | ⟨_, right⟩
    · exact not_suffix_of_outside left letters ne₁ behind
    · exact right (head?_of_start ne₂ front) w hw behind
  · exact h.not_straddles_names letters
      ⟨p₁, more, ne₁, hm, whole, behind, (List.prefix_append more [' ']).trans front⟩

/-- A text without letters has none of the words in it. -/
theorem not_within_of_no_letter (hw : w ∈ droppedWords) (ha : ∀ c ∈ a, isNameChar c = false) :
    ¬ w ++ [' '] <:+: a := by
  obtain ⟨ne, letters⟩ := droppedWords_names w hw
  intro h
  have first := List.head_mem ne
  have outside := ha _ (h.subset (List.mem_append_left [' '] first))
  rw [List.all_eq_true.mp letters _ first] at outside
  cases outside

/-- The letters before the first other character. -/
def firstWord (s : List Char) : List Char := s.takeWhile isNameChar

theorem firstWord_append (h : HeadIs Outside b) : firstWord (a ++ b) = firstWord a := by
  induction a with
  | nil =>
      cases b with
      | nil => rfl
      | cons c b =>
          have outside : isNameChar c = false := h c rfl
          rw [List.nil_append, firstWord, List.takeWhile_cons, outside]
          rfl
  | cons c a ih =>
      simp only [firstWord, List.cons_append, List.takeWhile_cons] at ih ⊢
      rw [ih]

theorem firstWord_of_start {sep : Char} (hw : w.all isNameChar = true)
    (hs : isNameChar sep = false) (h : w ++ [sep] <+: a) : firstWord a = w := by
  obtain ⟨rest, rfl⟩ := h
  rw [List.append_assoc, List.singleton_append, firstWord_append (outside_cons hs rest),
    firstWord, List.takeWhile_eq_self_iff.mpr (List.all_eq_true.mp hw)]

end VFromC.Spelling
