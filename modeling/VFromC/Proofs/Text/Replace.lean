import Mathlib.Data.List.Infix
import VFromC.Text.OnStrings
/-!
Where a pattern occurs and what replacing it does.

A pattern without blanks occurs in a text only inside of its words, so that replacing it goes word
by word.
-/
namespace VFromC.Text

variable {pat new s : List Char}

theorem afterStart?_eq_some {rest : List Char} :
    afterStart? pat s = some rest ↔ s = pat ++ rest := by
  fun_induction afterStart? pat s with
  | case1 s => simp [eq_comm]
  | case2 => simp
  | case3 pat c s ih => simpa using ih
  | case4 p pat c s h =>
      simp only [reduceCtorEq, List.cons_append, List.cons.injEq, false_iff, not_and]
      exact fun same => absurd same.symm h

theorem contains_iff_within : contains pat s = true ↔ pat <:+: s := by
  unfold contains
  induction s with
  | nil =>
      cases pat with
      | nil => simp [cut?, afterStart?]
      | cons p pat => simp [cut?, afterStart?]
  | cons c s ih =>
      rw [cut?, List.infix_cons_iff]
      split
      · rename_i rest h
        simp only [Option.isSome_some, true_iff]
        exact .inl ⟨rest, (afterStart?_eq_some.mp h).symm⟩
      · rename_i h
        rw [Option.isSome_map, ih]
        constructor
        · exact .inr
        · rintro (⟨rest, same⟩ | inside)
          · rw [afterStart?_eq_some.mpr same.symm] at h
            cases h
          · exact inside

theorem startsWith_iff : startsWith pat s = true ↔ pat <+: s := List.isPrefixOf_iff_prefix

theorem replaceFrom_skip (k : Nat) (s : List Char) :
    replaceFrom pat new k s = replaceAll pat new (s.drop k) := by
  induction k generalizing s with
  | zero => rfl
  | succ k ih =>
      cases s with
      | nil => rfl
      | cons c s => exact ih s

theorem replaceAll_nil : replaceAll pat new [] = [] := rfl

theorem replaceAll_cons_of_start {c : Char} (h : pat <+: c :: s) :
    replaceAll pat new (c :: s) = new ++ replaceAll pat new (s.drop (pat.length - 1)) := by
  rw [replaceAll, replaceFrom, if_pos (startsWith_iff.mpr h), replaceFrom_skip]

theorem replaceAll_cons_of_not_start {c : Char} (h : ¬ pat <+: c :: s) :
    replaceAll pat new (c :: s) = c :: replaceAll pat new s := by
  rw [replaceAll, replaceFrom, if_neg fun hs => h (startsWith_iff.mp hs)]
  rfl

theorem replaceAll_of_absent (h : ¬ pat <:+: s) : replaceAll pat new s = s := by
  induction s with
  | nil => rfl
  | cons c s ih =>
      rw [List.infix_cons_iff, not_or] at h
      rw [replaceAll_cons_of_not_start h.1, ih h.2]

theorem replaceAll_append_self (h : pat ≠ []) (rest : List Char) :
    replaceAll pat new (pat ++ rest) = new ++ replaceAll pat new rest := by
  obtain ⟨c, pat, rfl⟩ := List.exists_cons_of_ne_nil h
  have start : c :: pat <+: c :: (pat ++ rest) := ⟨rest, rfl⟩
  rw [List.cons_append, replaceAll_cons_of_start start, List.length_cons, Nat.add_sub_cancel,
    List.drop_left]

theorem replaceAll_self (h : pat ≠ []) : replaceAll pat new pat = new := by
  have whole : replaceAll pat new (pat ++ []) = new ++ replaceAll pat new [] :=
    replaceAll_append_self h []
  rwa [List.append_nil, replaceAll_nil, List.append_nil] at whole

/-- A text is passed an occurrence or a character at a time. -/
theorem replaceAll_rec {motive : List Char → List Char → Prop} (hne : pat ≠ [])
    (nil : motive [] [])
    (occurrence : ∀ {rest r}, motive rest r → motive (pat ++ rest) (new ++ r))
    (other : ∀ c {rest r}, motive rest r → motive (c :: rest) (c :: r)) (s : List Char) :
    motive s (replaceAll pat new s) := by
  induction h : s.length using Nat.strongRecOn generalizing s with
  | _ length ih =>
      cases s with
      | nil => exact nil
      | cons c s =>
          by_cases start : pat <+: c :: s
          · obtain ⟨rest, same⟩ := start
            have shorter : rest.length < length := by
              have := List.length_pos_iff.mpr hne
              rw [← h, ← same, List.length_append]
              omega
            rw [← same, replaceAll_append_self hne]
            exact occurrence (ih _ shorter rest rfl)
          · rw [replaceAll_cons_of_not_start start]
            exact other c (ih s.length (by rw [← h]; exact Nat.lt_succ_self _) s rfl)

/-- An occurrence of the pattern goes over from one text to the next. -/
def Straddles (pat a b : List Char) : Prop :=
  ∃ p₁ p₂, p₁ ≠ [] ∧ p₂ ≠ [] ∧ pat = p₁ ++ p₂ ∧ p₁ <:+ a ∧ p₂ <+: b

section Append

variable {a b : List Char}

theorem not_straddles_of_suffix {a' : List Char} (hs : ¬ Straddles pat a b) (ha : a' <:+ a) :
    ¬ Straddles pat a' b := by
  rintro ⟨p₁, p₂, ne₁, ne₂, same, behind, front⟩
  exact hs ⟨p₁, p₂, ne₁, ne₂, same, behind.trans ha, front⟩

theorem prefix_of_not_straddles (hs : ¬ Straddles pat a b) (ha : a ≠ []) (h : pat <+: a ++ b) :
    pat <+: a := by
  rcases List.prefix_or_prefix_of_prefix h (List.prefix_append a b) with within | ⟨rest, same⟩
  · exact within
  · subst same
    by_cases hr : rest = []
    · rw [hr, List.append_nil]
    · have front := (List.prefix_append_right_inj a).mp h
      exact absurd ⟨a, rest, ha, hr, rfl, List.suffix_refl a, front⟩ hs

/-- Replacing goes on two texts separately when no occurrence goes over from one to the other. -/
theorem replaceAll_append (hs : ¬ Straddles pat a b) :
    replaceAll pat new (a ++ b) = replaceAll pat new a ++ replaceAll pat new b := by
  -- An occurrence at the start of `a` is passed as a whole, so the length of `a` decreases.
  induction h : a.length using Nat.strongRecOn generalizing a with
  | _ length ih =>
      cases a with
      | nil => rfl
      | cons c a =>
          rw [List.length_cons] at h
          by_cases start : pat <+: c :: a
          · have fits : pat.length - 1 ≤ a.length := by
              have := start.length_le
              rw [List.length_cons] at this
              omega
            have shorter : (a.drop (pat.length - 1)).length < length := by
              rw [List.length_drop]
              omega
            have start' : pat <+: c :: (a ++ b) := start.trans (List.prefix_append (c :: a) b)
            have rest : a.drop (pat.length - 1) <:+ c :: a :=
              (List.drop_suffix _ a).trans (List.suffix_cons c a)
            rw [List.cons_append, replaceAll_cons_of_start start, replaceAll_cons_of_start start',
              List.drop_append_of_le_length fits, ih _ shorter
              (not_straddles_of_suffix hs rest) rfl, List.append_assoc]
          · have start' : ¬ pat <+: c :: (a ++ b) := fun h =>
              start (prefix_of_not_straddles hs (List.cons_ne_nil c a) h)
            rw [List.cons_append, replaceAll_cons_of_not_start start,
              replaceAll_cons_of_not_start start',
              ih a.length (by omega) (not_straddles_of_suffix hs (List.suffix_cons c a)) rfl,
              List.cons_append]

theorem infix_append_cases (hs : ¬ Straddles pat a b) (h : pat <:+: a ++ b) :
    pat <:+: a ∨ pat <:+: b := by
  induction a with
  | nil => exact .inr h
  | cons c a ih =>
      rw [List.cons_append, List.infix_cons_iff] at h
      rcases h with start | inside
      · exact .inl (prefix_of_not_straddles hs (List.cons_ne_nil c a) start).isInfix
      · rcases ih (not_straddles_of_suffix hs (List.suffix_cons c a)) inside with inside | inside
        · exact .inl (List.infix_cons inside)
        · exact .inr inside

end Append

section Signs

variable {sep : Char} (outside : sep ∉ pat)
include outside

theorem not_straddles_cons (x y : List Char) : ¬ Straddles pat x (sep :: y) := by
  rintro ⟨p₁, p₂, _, ne₂, rfl, _, front⟩
  obtain ⟨c, rest, rfl⟩ := List.exists_cons_of_ne_nil ne₂
  rw [(List.cons_prefix_cons.mp front).1] at outside
  exact outside (List.mem_append_right p₁ List.mem_cons_self)

theorem not_start_cons (hne : pat ≠ []) (y : List Char) : ¬ pat <+: sep :: y := by
  intro h
  obtain ⟨c, rest, rfl⟩ := List.exists_cons_of_ne_nil hne
  rw [(List.cons_prefix_cons.mp h).1] at outside
  exact outside List.mem_cons_self

/-- Replacing goes on both sides of a character that the pattern does not have separately. -/
theorem replaceAll_append_cons (hne : pat ≠ []) (x y : List Char) :
    replaceAll pat new (x ++ sep :: y) = replaceAll pat new x ++ sep :: replaceAll pat new y := by
  rw [replaceAll_append (not_straddles_cons outside x y),
    replaceAll_cons_of_not_start (not_start_cons outside hne y)]

theorem infix_append_cons (hne : pat ≠ []) {x y : List Char} :
    pat <:+: x ++ sep :: y ↔ pat <:+: x ∨ pat <:+: y := by
  constructor
  · intro h
    rcases infix_append_cases (not_straddles_cons outside x y) h with left | right
    · exact .inl left
    · rcases List.infix_cons_iff.mp right with start | inside
      · exact absurd start (not_start_cons outside hne y)
      · exact .inr inside
  · rintro (h | h)
    · exact h.trans (List.prefix_append x _).isInfix
    · exact h.trans ((List.suffix_cons sep y).trans (List.suffix_append x _)).isInfix

end Signs

/-- Replacing a pattern without blanks goes on both sides of a blank separately. -/
theorem replaceAll_append_blank {b : Char} (hb : isBlank b = true) (hne : pat ≠ [])
    (hp : ∀ c ∈ pat, isBlank c = false) (x y : List Char) :
    replaceAll pat new (x ++ b :: y) = replaceAll pat new x ++ b :: replaceAll pat new y := by
  have outside : b ∉ pat := fun hm => by
    rw [hp b hm] at hb
    cases hb
  exact replaceAll_append_cons outside hne x y

end VFromC.Text

namespace VFromC

theorem mem_of_lookup {α β : Type} [BEq α] [LawfulBEq α] {table : List (α × β)} {key : α}
    {value : β} (h : table.lookup key = some value) : (key, value) ∈ table := by
  obtain ⟨front, back, rfl, _⟩ := List.lookup_eq_some_iff.mp h
  exact List.mem_append_right front List.mem_cons_self

end VFromC
