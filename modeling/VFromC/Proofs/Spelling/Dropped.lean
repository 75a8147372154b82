import VFromC.Proofs.Spelling.Growth
/-!
What is dropped with the qualifiers.

Nothing is dropped, or at least five characters are, and the signs and brackets of a type stay where
they are.
-/
namespace VFromC.Spelling
open VFromC.Text

/-- The texts that are dropped with the qualifiers. -/
def droppedTexts : List (List Char) :=
  ["const ".toList, "volatile ".toList, "static ".toList, "std::".toList]

def dropAll (pats : List (List Char)) (s : List Char) : List Char :=
  pats.foldl (fun s pat => replaceAll pat [] s) s

/-- A spelling without its qualifiers, but with the blanks that are left at its start. -/
def dropQualifiers (s : List Char) : List Char :=
  trimEnd (dropFinalConst (dropAll droppedTexts s))

theorem stripQualifiers_eq (s : List Char) :
    (stripQualifiers s).text = trimStart (dropQualifiers s) := rfl

/-- Signs that are in none of the texts that are dropped. -/
def isSign (c : Char) : Bool := ['&', '[', ']', '('].contains c

/-- Nothing is dropped, or at least five characters are. -/
def Shortened (s r : List Char) : Prop := r = s ∨ r.length + 5 ≤ s.length

section Dropped

variable {s r t : List Char} {c : Char}

theorem Shortened.length_le (h : Shortened s r) : r.length ≤ s.length := by
  rcases h with rfl | fewer
  · exact Nat.le_refl _
  · omega

theorem Shortened.trans (h : Shortened s r) (h' : Shortened r t) : Shortened s t := by
  have bound := h'.length_le
  rcases h with rfl | fewer
  · exact h'
  · exact .inr (by omega)

theorem Shortened.eq (h : Shortened s r) (bound : s.length ≤ r.length + 4) : r = s :=
  h.resolve_right (by omega)

theorem droppedTexts_long : ∀ pat ∈ droppedTexts, pat ≠ [] ∧ 5 ≤ pat.length := by decide

theorem eq_of_isSign (hc : isSign c = true) : c = '&' ∨ c = '[' ∨ c = ']' ∨ c = '(' := by
  simpa only [isSign, List.contains_iff_mem, List.mem_cons, List.not_mem_nil, or_false] using hc

theorem not_mem_droppedTexts (hc : isSign c = true) : ∀ pat ∈ droppedTexts, c ∉ pat := by
  rcases eq_of_isSign hc with rfl | rfl | rfl | rfl <;> decide

theorem replaceAll_shortened {pat : List Char} (five : 5 ≤ pat.length) (s : List Char) :
    Shortened s (replaceAll pat [] s) := by
  have ne : pat ≠ [] := List.ne_nil_of_length_pos (by omega)
  have occurrence {rest r : List Char} (h : Shortened rest r) :
      Shortened (pat ++ rest) ([] ++ r) := by
    refine .inr ?_
    have bound := h.length_le
    rw [List.nil_append, List.length_append]
    omega
  have other (c : Char) {rest r : List Char} (h : Shortened rest r) :
      Shortened (c :: rest) (c :: r) := by
    rcases h with rfl | fewer
    · exact .inl rfl
    · refine .inr ?_
      rw [List.length_cons, List.length_cons]
      omega
  exact replaceAll_rec ne (.inl rfl) occurrence other s

/-- The number of a sign does not change. -/
theorem count_replaceAll {pat : List Char} (outside : c ∉ pat) (ne : pat ≠ []) (s : List Char) :
    (replaceAll pat [] s).count c = s.count c := by
  have occurrence {rest r : List Char} (h : r.count c = rest.count c) :
      ([] ++ r).count c = (pat ++ rest).count c := by
    rw [List.nil_append, List.count_append, List.count_eq_zero_of_not_mem outside, h, Nat.zero_add]
  have other (d : Char) {rest r : List Char} (h : r.count c = rest.count c) :
      (d :: r).count c = (d :: rest).count c := by
    rw [List.count_cons, List.count_cons, h]
  exact replaceAll_rec (motive := fun s r => r.count c = s.count c) ne rfl occurrence other s

theorem dropAll_of_absent {pats : List (List Char)} (h : ∀ pat ∈ pats, ¬ pat <:+: s) :
    dropAll pats s = s := by
  induction pats with
  | nil => rfl
  | cons pat pats ih =>
      obtain ⟨first, rest⟩ := List.forall_mem_cons.mp h
      exact (congrArg (dropAll pats) (replaceAll_of_absent first)).trans (ih rest)

section Lists

variable {pats : List (List Char)} (hp : ∀ pat ∈ pats, pat ∈ droppedTexts)
include hp

theorem dropAll_shortened (s : List Char) : Shortened s (dropAll pats s) := by
  induction pats generalizing s with
  | nil => exact .inl rfl
  | cons pat pats ih =>
      obtain ⟨first, rest⟩ := List.forall_mem_cons.mp hp
      exact (replaceAll_shortened (droppedTexts_long pat first).2 s).trans (ih rest _)

theorem dropAll_append_cons (hc : isSign c = true) (s t : List Char) :
    dropAll pats (s ++ c :: t) = dropAll pats s ++ c :: dropAll pats t := by
  induction pats generalizing s t with
  | nil => rfl
  | cons pat pats ih =>
      obtain ⟨first, rest⟩ := List.forall_mem_cons.mp hp
      have step :
          replaceAll pat [] (s ++ c :: t) = replaceAll pat [] s ++ c :: replaceAll pat [] t :=
        replaceAll_append_cons (not_mem_droppedTexts hc pat first)
          (droppedTexts_long pat first).1 s t
      exact (congrArg (dropAll pats) step).trans (ih rest _ _)

theorem count_dropAll (hc : isSign c = true) (s : List Char) :
    (dropAll pats s).count c = s.count c := by
  induction pats generalizing s with
  | nil => rfl
  | cons pat pats ih =>
      obtain ⟨first, rest⟩ := List.forall_mem_cons.mp hp
      exact (ih rest _).trans
        (count_replaceAll (not_mem_droppedTexts hc pat first) (droppedTexts_long pat first).1 s)

end Lists

theorem isBlank_of_isSign (hc : isSign c = true) : isBlank c = false := by
  rcases eq_of_isSign hc with rfl | rfl | rfl | rfl <;> rfl

theorem dropFinalConst_shortened (s : List Char) : Shortened s (dropFinalConst s) := by
  unfold dropFinalConst
  split
  · rename_i front found
    split
    · have whole := length_of_beforeEnd? found
      have word : "const".toList.length = 5 := rfl
      exact .inr (by omega)
    · exact .inl rfl
  · exact .inl rfl

theorem dropFinalConst_append_cons (hc : isSign c = true) (s t : List Char) :
    dropFinalConst (s ++ c :: t) = s ++ c :: dropFinalConst t := by
  obtain ⟨outside, blank, star⟩ : c ∉ "const".toList ∧ c ≠ ' ' ∧ c ≠ '*' := by
    rcases eq_of_isSign hc with rfl | rfl | rfl | rfl <;> decide
  cases found : beforeEnd? "const".toList t with
  | some front =>
      have whole : beforeEnd? "const".toList (s ++ c :: t) = some (s ++ c :: front) := by
        rw [beforeEnd?_eq_some, beforeEnd?_eq_some.mp found, List.append_assoc, List.cons_append]
      have last : (s ++ c :: front).getLast? = some (front.getLast?.getD c) := by
        rw [List.getLast?_append_of_ne_nil s (List.cons_ne_nil c front), List.getLast?_cons]
      simp only [dropFinalConst, found, whole, last]
      cases front.getLast? with
      | none => simp [blank, star]
      | some d => simp only [Option.getD_some]; split <;> rfl
  | none =>
      have whole : beforeEnd? "const".toList (s ++ c :: t) = none := by
        rw [beforeEnd?_eq_none] at found ⊢
        intro behind
        rcases List.suffix_or_suffix_of_suffix behind (List.suffix_append s (c :: t)) with
          inside | longer
        · rcases List.suffix_cons_iff.mp inside with same | rest
          · exact outside (same ▸ List.mem_cons_self)
          · exact found rest
        · exact outside (longer.subset List.mem_cons_self)
      simp only [dropFinalConst, found, whole]

theorem dropQualifiers_append_cons (hc : isSign c = true) (s t : List Char) :
    dropQualifiers (s ++ c :: t) = dropAll droppedTexts s ++ c :: dropQualifiers t := by
  rw [dropQualifiers, dropAll_append_cons (fun _ h => h) hc, dropFinalConst_append_cons hc,
    trimEnd_append_cons (isBlank_of_isSign hc)]
  rfl

theorem dropQualifiers_cons (hc : isSign c = true) (t : List Char) :
    dropQualifiers (c :: t) = c :: dropQualifiers t := dropQualifiers_append_cons hc [] t

theorem dropQualifiers_shortened (last : LastIs (isBlank · = false) s) :
    Shortened s (dropQualifiers s) := by
  have dropped := (dropAll_shortened (fun _ h => h) s).trans (dropFinalConst_shortened _)
  rcases dropped with same | fewer
  · exact .inl ((congrArg trimEnd same).trans (trimEnd_of_last last))
  · have bound := length_trimEnd_le (dropFinalConst (dropAll droppedTexts s))
    exact .inr (by rw [dropQualifiers]; omega)

theorem last_dropQualifiers (s : List Char) : LastIs (isBlank · = false) (dropQualifiers s) :=
  last_trimEnd _

end Dropped

section Signs

variable {s t v dims elem : List Char}

theorem dropQualifiers_function (rest : List Char) :
    dropQualifiers ("func (".toList ++ rest) = "func (".toList ++ dropQualifiers rest := by
  have word : dropAll droppedTexts "func ".toList = "func ".toList := by decide
  have same := dropQualifiers_append_cons (c := '(') rfl "func ".toList rest
  rw [word] at same
  exact same

theorem Bracketed.exists_inside (h : Bracketed s) : ∃ inside, s = '[' :: (inside ++ [']']) := by
  obtain ⟨rest, rfl⟩ := List.head?_eq_some_iff.mp h.opens
  rcases List.eq_nil_or_concat' rest with rfl | ⟨inside, c, rfl⟩
  · exact absurd h.closes (by decide)
  · have close := h.closes
    rw [← List.cons_append, List.getLast?_concat, Option.some.injEq] at close
    exact ⟨inside, by rw [close]⟩

theorem Long.dropQualifiers (h : Long s) : Long (dropQualifiers s) := by
  induction h with
  | function rest =>
      rw [dropQualifiers_function]
      exact .function _
  | sign h ih =>
      rw [dropQualifiers_cons rfl]
      exact .sign ih
  | @dims d s closed h ih =>
      obtain ⟨inside, rfl⟩ := closed.exists_inside
      have parts : '[' :: (inside ++ [']']) ++ s = '[' :: (inside ++ ']' :: s) := by simp
      have close : Bracketed ('[' :: (dropAll droppedTexts inside ++ [']'])) :=
        ⟨rfl, by rw [← List.cons_append, List.getLast?_concat]⟩
      rw [parts, dropQualifiers_cons rfl, dropQualifiers_append_cons rfl]
      have long := Long.dims close ih
      rwa [List.cons_append, List.append_assoc, List.singleton_append] at long

theorem leadingBrackets?_closed {d : List Char} (close : d.getLast? = some ']')
    (h : (leadingBrackets? false s).isSome = true) (inside : Bool) :
    (leadingBrackets? inside (d ++ s)).isSome = true := by
  induction d generalizing inside with
  | nil => cases close
  | cons c d ih =>
      have rest (next : Bool) (only : d = [] → next = false) :
          (leadingBrackets? next (d ++ s)).isSome = true := by
        cases d with
        | nil =>
            rw [only rfl]
            exact h
        | cons e d =>
            rw [List.getLast?_cons_cons] at close
            exact ih close next
      have single : d = [] → c = ']' := by
        rintro rfl
        exact Option.some.inj close
      rw [List.cons_append, leadingBrackets?]
      split
      · rw [Option.isSome_map]
        exact rest _ fun none => decide_eq_false (Decidable.not_not.mpr (single none))
      · split
        · rename_i opened
          rw [Option.isSome_map]
          refine rest true fun none => ?_
          rw [single none] at opened
          exact absurd opened (by decide)
        · rfl

/-- Brackets before a function type are closed. -/
theorem Long.closed (h : Long s) : (leadingBrackets? false s).isSome = true := by
  induction h with
  | function rest => rfl
  | sign h ih => rfl
  | dims closed h ih => exact leadingBrackets?_closed closed.closes ih false

end Signs

end VFromC.Spelling
