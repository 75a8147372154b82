import VFromC.Proofs.Spelling.Capitals
import VFromC.Proofs.Spelling.Denotation
/-!
How much longer a type gets.

A type is at most four characters longer than its spelling, unless there is a function type in it
that only dimensions and signs stand before. No type ends in a blank, and one that starts with a
blank is not longer than its spelling.
-/
namespace VFromC.Spelling
open VFromC.Text

/-- A text that opens with a bracket and closes with one. -/
structure Bracketed (d : List Char) : Prop where
  opens : d.head? = some '['
  closes : d.getLast? = some ']'

/-- A function type with dimensions and signs before it. -/
inductive Long : List Char → Prop where
  | function (rest : List Char) : Long ("func (".toList ++ rest)
  | sign {s : List Char} (h : Long s) : Long ('&' :: s)
  | dims {d s : List Char} (closed : Bracketed d) (h : Long s) : Long (d ++ s)

/-- What a type may be, for a spelling of a given length. -/
structure Grown (s r : List Char) (more : Nat) : Prop where
  long : r.length ≤ s.length + more ∨ Long r
  first : HeadIs (isBlank · = false) r ∨ r.length ≤ s.length
  last : LastIs (isBlank · = false) r

section Dimensions

variable {s d rest : List Char}

theorem Bracketed.ne_nil (h : Bracketed d) : d ≠ [] := by
  rintro rfl
  cases h.opens

theorem Bracketed.last (h : Bracketed d) : LastIs (isBlank · = false) d := by
  intro c hc
  rw [h.closes] at hc
  cases hc
  rfl

theorem Bracketed.first (h : Bracketed d) : HeadIs (isBlank · = false) d := by
  intro c hc
  rw [h.opens] at hc
  cases hc
  rfl

/-- Dimensions are read up to a closing bracket. -/
theorem closes_of_leadingBrackets? {inside : Bool}
    (h : leadingBrackets? inside s = some (d, rest)) :
    (inside = false ∧ d = []) ∨ d.getLast? = some ']' := by
  induction s generalizing inside d with
  | nil =>
      cases inside with
      | true => cases h
      | false =>
          cases h
          exact .inl ⟨rfl, rfl⟩
  | cons c s ih =>
      have behind {d' : List Char} (last : d'.getLast? = some ']') :
          (c :: d').getLast? = some ']' := by
        rw [List.getLast?_cons, last]
        rfl
      rw [leadingBrackets?] at h
      split at h
      · obtain ⟨⟨d', r⟩, found, same⟩ := Option.map_eq_some_iff.mp h
        cases same
        rcases ih found with ⟨closing, rfl⟩ | last
        · rw [Decidable.not_not.mp (of_decide_eq_false closing)]
          exact .inr rfl
        · exact .inr (behind last)
      · rename_i outside
        split at h
        · obtain ⟨⟨d', r⟩, found, same⟩ := Option.map_eq_some_iff.mp h
          cases same
          rcases ih found with ⟨none, _⟩ | last
          · cases none
          · exact .inr (behind last)
        · cases h
          exact .inl ⟨Bool.eq_false_iff.mpr outside, rfl⟩

theorem bracketed_of_leadingDimensions? (h : leadingDimensions? s = some (d, rest)) :
    Bracketed d ∧ d ++ rest = s := by
  unfold leadingDimensions? at h
  split at h
  · rename_i opens
    have whole := leadingBrackets?_append h
    obtain ⟨t, rfl⟩ := List.head?_eq_some_iff.mp opens
    refine ⟨?_, whole⟩
    rw [leadingBrackets?, if_neg Bool.false_ne_true, if_pos rfl] at h
    obtain ⟨⟨d', r⟩, found, same⟩ := Option.map_eq_some_iff.mp h
    cases same
    refine ⟨rfl, ?_⟩
    rcases closes_of_leadingBrackets? found with ⟨none, _⟩ | last
    · cases none
    · rw [List.getLast?_cons, last]
      rfl
  · cases h

theorem bracketed_splitDimensions (h : (splitDimensions s).2 ≠ []) :
    Bracketed (splitDimensions s).2 ∧ s.head? ≠ some '[' := by
  unfold splitDimensions at h ⊢
  split at h
  · rename_i array
    rw [if_pos array]
    obtain ⟨front, bracket, last⟩ := array
    refine ⟨⟨?_, ?_⟩, front⟩
    · have first := List.head?_dropWhile_not (fun c => decide (c ≠ '[')) s
      cases rest : s.dropWhile fun c => decide (c ≠ '[') with
      | nil => exact absurd rest h
      | cons c t =>
          rw [rest] at first
          exact congrArg some (Decidable.not_not.mp (of_decide_eq_false first))
    · have whole := List.takeWhile_append_dropWhile (p := fun c => decide (c ≠ '[')) (l := s)
      rw [← whole, List.getLast?_append_of_ne_nil _ h] at last
      exact last
  · exact absurd rfl h

end Dimensions

section Parts

variable {s d rest : List Char}

theorem length_splitDimensions_add (s : List Char) :
    (splitDimensions s).1.length + (splitDimensions s).2.length ≤ s.length := by
  unfold splitDimensions
  split
  · have whole := congrArg List.length
      (List.takeWhile_append_dropWhile (p := fun c => decide (c ≠ '[')) (l := s))
    have front := length_trimEnd_le (s.takeWhile fun c => decide (c ≠ '['))
    rw [List.length_append] at whole
    dsimp only
    omega
  · exact Nat.le_refl _

theorem length_splitStars_add (s : List Char) :
    (splitStars s).1.length + (splitStars s).2 ≤ s.length := by
  have whole := congrArg List.length
    (List.takeWhile_append_dropWhile (p := isStarOrSpace) (l := (trimEnd s).reverse))
  have stars := List.count_le_length (a := '*') (l := (trimEnd s).reverse.takeWhile isStarOrSpace)
  have base := length_trim_le (dropEndWhile isStarOrSpace (trimEnd s))
  have bound := length_trimEnd_le s
  rw [dropEndWhile, List.length_reverse] at base
  rw [List.length_append, List.length_reverse] at whole
  simp only [splitStars, dropEndWhile] at base ⊢
  omega

theorem length_splitReference_add (s : List Char) :
    (splitReference s).1.length + (splitReference s).2.toNat ≤ s.length := by
  unfold splitReference
  split
  · rename_i front found
    have whole := length_of_beforeEnd? found
    have sign : "&".toList.length = 1 := rfl
    split
    · have bound := length_trimEnd_le front
      have one : true.toNat = 1 := rfl
      dsimp only
      omega
    · exact Nat.le_refl _
  · exact Nat.le_refl _

/-- Each star and each character of the dimensions and of the base has a place in the text. -/
theorem length_ofText (s : List Char) :
    (Declarator.ofText s).dims.length + (Declarator.ofText s).stars +
      (Declarator.ofText s).base.length ≤ s.length := by
  have dims := length_splitDimensions_add s
  have names := length_stripNamespace_le (splitDimensions s).1
  have words := length_stripRecordWords_le (stripNamespace (splitDimensions s).1)
  have stars := length_splitStars_add (stripRecordWords (stripNamespace (splitDimensions s).1))
  have sign := length_splitReference_add
    (splitStars (stripRecordWords (stripNamespace (splitDimensions s).1))).1
  have count (n : Nat) (b : Bool) : (if b = true then n + 1 else n) = n + b.toNat := by
    cases b <;> rfl
  simp only [Declarator.ofText, count]
  omega

end Parts

section Last

variable {s : List Char}

theorem tight_of_ends (first : s.head?.all (fun c => !isBlank c) = true)
    (last : s.getLast?.all (fun c => !isBlank c) = true) : Tight s := by
  constructor
  · intro c hc
    rw [hc] at first
    exact Bool.not_eq_true' _ ▸ first
  · intro c hc
    rw [hc] at last
    exact Bool.not_eq_true' _ ▸ last

theorem last_capitalizeFirst (h : LastIs (isBlank · = false) s) :
    LastIs (isBlank · = false) (capitalizeFirst s) := by
  cases s with
  | nil => exact h
  | cons c s =>
      cases s with
      | nil =>
          intro d hd
          rw [capitalizeFirst, List.append_nil] at hd
          rw [← Bool.not_eq_true]
          intro blank
          have same := eq_of_mem_capitalForm (isPlain_of_isBlank blank) (List.mem_of_getLast? hd)
          rw [← same, h c rfl] at blank
          cases blank
      | cons e s =>
          exact (h.suffix (List.suffix_cons c _)).append_right (List.cons_ne_nil e s) _

theorem capitalForm_of_isBlank {c : Char} (h : isBlank c = true) : capitalForm c = [c] := by
  have codes : ∀ n ∈ blankCodes, capitalForm (Char.ofNat n) = [Char.ofNat n] := by decide +kernel
  have own := codes c.toNat (mem_blankCodes h)
  rwa [Char.ofNat_toNat] at own

/-- A blank has no other capital, so that it does not get longer. -/
theorem first_capitalizeFirst (s : List Char) :
    HeadIs (isBlank · = false) (capitalizeFirst s) ∨ (capitalizeFirst s).length ≤ s.length := by
  cases s with
  | nil => exact .inr (Nat.le_refl _)
  | cons c s =>
      by_cases blank : isBlank c = true
      · rw [capitalizeFirst, capitalForm_of_isBlank blank]
        exact .inr (Nat.le_refl _)
      · refine .inl (HeadIs.append_left (fun d hd => ?_) (capitalForm_ne_nil c) s)
        rw [← Bool.not_eq_true]
        intro same
        rw [← eq_of_mem_capitalForm (isPlain_of_isBlank same) (List.mem_of_mem_head? hd)] at same
        exact blank same

theorem last_splitReference (h : LastIs (isBlank · = false) s) :
    LastIs (isBlank · = false) (splitReference s).1 := by
  unfold splitReference
  split
  · split
    · exact last_trimEnd _
    · exact h
  · exact h

theorem tight_splitStars (s : List Char) : Tight (splitStars s).1 := tight_trim _

theorem last_ofText (s : List Char) : LastIs (isBlank · = false) (Declarator.ofText s).base := by
  rw [Declarator.base_ofText]
  exact last_splitReference (tight_splitStars _).last

end Last

section Grown

variable {s r t : List Char} {more : Nat}

theorem Grown.mono {most : Nat} (h : Grown s r more) (shorter : s.length ≤ t.length)
    (bound : s.length + more ≤ t.length + most) : Grown t r most where
  long := h.long.imp_left fun short => Nat.le_trans short bound
  first := h.first.imp_right fun short => Nat.le_trans short shorter
  last := h.last

theorem grown_of_tight (tight : Tight r) (short : r.length ≤ s.length + more) : Grown s r more :=
  ⟨.inl short, .inl tight.first, tight.last⟩

/-- A type that is not longer than its spelling. -/
theorem grown_of_le (short : r.length ≤ s.length) (last : LastIs (isBlank · = false) r) :
    Grown s r more :=
  ⟨.inl (Nat.le_add_right_of_le short), .inr short, last⟩

theorem Grown.sign (h : Grown s r more) : Grown ('&' :: s) ('&' :: r) more where
  long := by
    rcases h.long with short | long
    · refine .inl ?_
      simp only [List.length_cons]
      omega
    · exact .inr (.sign long)
  first := .inl (headIs_cons (by decide) r)
  last := (lastIs_concat (a := []) (by decide)).append h.last

theorem Grown.dims {d : List Char} (hd : Bracketed d) (h : Grown s r more) :
    Grown (d ++ s) (d ++ r) more where
  long := by
    rcases h.long with short | long
    · refine .inl ?_
      simp only [List.length_append]
      omega
    · exact .inr (.dims hd long)
  first := .inl (hd.first.append_left hd.ne_nil r)
  last := hd.last.append h.last

theorem length_of_vectorElement? {elem : List Char} (h : vectorElement? s = some elem) :
    s.length = elem.length + 8 := by
  obtain ⟨rest, start, close⟩ := Option.bind_eq_some_iff.mp h
  have front := length_of_afterStart? start
  have behind := length_of_beforeEnd? close
  have word : "vector<".toList.length = 7 := rfl
  have sign : ">".toList.length = 1 := rfl
  omega

theorem scalarName_grown (last : LastIs (isBlank · = false) s) : Grown s (scalarName s) 2 := by
  have rows : ∀ row ∈ primitiveTable, row.2.toList.length ≤ row.1.toList.length + 2 ∧
      row.2.toList.head?.all (fun c => !isBlank c) = true ∧
      row.2.toList.getLast?.all (fun c => !isBlank c) = true := by decide
  cases found : primitiveTable.lookup (String.ofList s) with
  | some name =>
      obtain ⟨short, front, behind⟩ := rows _ (mem_of_lookup found)
      rw [String.toList_ofList] at short
      simp only [scalarName, found]
      exact grown_of_tight (tight_of_ends front behind) short
  | none =>
      simp only [scalarName, found, Ident.typeNameChars]
      split
      · exact grown_of_le (Nat.le_refl _) last
      · have rest : Ident.dropUnderscores s <:+ s := List.dropWhile_suffix _
        have shorter := rest.length_le
        have bound := length_capitalizeFirst_le (Ident.dropUnderscores s)
        refine ⟨.inl (by omega), ?_, last_capitalizeFirst (last.suffix rest)⟩
        exact (first_capitalizeFirst _).imp_right fun short => Nat.le_trans short shorter

theorem Long.head (h : Long r) : r.head?.any ['f', '&', '['].contains = true := by
  cases h with
  | function rest => rfl
  | sign h => rfl
  | dims closed h =>
      rw [List.head?_append_of_ne_nil _ closed.ne_nil, closed.opens]
      rfl

theorem Long.signs (h : Long r) (stars : Nat) : Long (List.replicate stars '&' ++ r) := by
  induction stars with
  | zero => exact h
  | succ more ih => exact .sign ih

/-- Dimensions and signs before a base. -/
theorem declaredText_grown {dims : List Char} (hd : dims ≠ [] → Bracketed dims) (stars : Nat)
    (h : Grown s r 2) (bound : dims.length + stars + s.length ≤ t.length) :
    Grown t (declaredText dims stars r) 4 := by
  have solid (n : Nat) : Tight (dims ++ List.replicate n '&') := by
    have sign : ∀ c ∈ List.replicate n '&', isBlank c = false := fun c hc => by
      rw [List.eq_of_mem_replicate hc]
      rfl
    have signs : Tight (List.replicate n '&') :=
      ⟨fun c hc => sign c (List.mem_of_mem_head? hc), fun c hc => sign c (List.mem_of_getLast? hc)⟩
    cases dims with
    | nil => exact signs
    | cons c dims =>
        have closed := hd (List.cons_ne_nil c dims)
        exact ⟨closed.first.append signs.first, closed.last.append signs.last⟩
  unfold declaredText
  split
  · rename_i void
    have ptr : Tight "voidptr".toList := tight_of_ends rfl rfl
    refine ⟨.inl ?_, .inl ((solid (stars - 1)).first.append ptr.first),
      (solid (stars - 1)).last.append ptr.last⟩
    have base : r.length = 4 := by rw [void.1]; rfl
    have name : "voidptr".toList.length = 7 := rfl
    rcases h.long with short | long
    · simp only [List.length_append, List.length_replicate]
      omega
    · rw [void.1] at long
      exact absurd long.head (by decide)
  · refine ⟨?_, ?_, (solid stars).last.append h.last⟩
    · rcases h.long with short | long
      · refine .inl ?_
        simp only [List.length_append, List.length_replicate]
        omega
      · refine .inr ?_
        rw [List.append_assoc]
        cases dims with
        | nil => exact long.signs stars
        | cons c dims => exact .dims (hd (List.cons_ne_nil c dims)) (long.signs stars)
    · rcases h.first with first | short
      · exact .inl ((solid stars).first.append first)
      · refine .inr ?_
        simp only [List.length_append, List.length_replicate]
        omega

theorem signatureText_grown (params : List (List Char)) (h : LastIs (isBlank · = false) r) :
    Grown s (signatureText params r) 4 := by
  have front : "func (".toList ++ joined ", ".toList params ++ ")".toList =
      "func (".toList ++ (joined ", ".toList params ++ ")".toList) := List.append_assoc ..
  simp only [signatureText]
  split
  · exact ⟨.inr (front ▸ .function _), .inl (headIs_cons (by decide) _),
      lastIs_concat (by decide) _⟩
  · rename_i written
    refine ⟨.inr ?_, .inl (headIs_cons (by decide) _), ?_⟩
    · rw [front, List.append_assoc]
      exact .function _
    · have ne : r ≠ [] := fun none => written (.inr none)
      exact LastIs.append_right (h.append_right ne [' ']) (List.cons_ne_nil ' ' r) _

theorem opaquePointer?_grown {name : List Char} (h : opaquePointer? s = some name) :
    Grown s name 4 := by
  unfold opaquePointer? at h
  split at h
  · rename_i same
    cases h
    exact grown_of_tight (tight_of_ends rfl rfl) (by rcases same with rfl | rfl <;> decide)
  · split at h
    · rename_i same
      cases h
      exact grown_of_tight (tight_of_ends rfl rfl) (same ▸ by decide)
    · split at h
      · rename_i same
        cases h
        exact grown_of_tight (tight_of_ends rfl rfl) (by rcases same with rfl | rfl <;> decide)
      · obtain ⟨size, found, rfl⟩ := Option.map_eq_some_iff.mp h
        obtain ⟨rest, start, close⟩ := Option.bind_eq_some_iff.mp found
        have front := length_of_afterStart? start
        have behind := length_of_beforeEnd? close
        have word : "void *[".toList.length = 7 := rfl
        have sign : "]".toList.length = 1 := rfl
        have ptr : "]voidptr".toList.length = 8 := rfl
        refine ⟨.inl ?_, .inl (headIs_cons (by decide) _), ?_⟩
        · rw [List.length_append, List.length_cons]
          omega
        · exact LastIs.append_right (fun c hc => (by cases hc; rfl)) (List.cons_ne_nil ']' _) _

theorem enumName?_grown {name : List Char} (h : enumName? s = some name) : Grown s name 4 := by
  obtain ⟨rest, found, same⟩ := Option.bind_eq_some_iff.mp h
  split at same
  · cases same
  · cases same
    have whole := length_of_afterStart? found
    have shorter := length_trim_le rest
    have bound := length_capitalizeFirst_le (trim rest)
    refine ⟨.inl (by omega), ?_, last_capitalizeFirst (tight_trim rest).last⟩
    exact (first_capitalizeFirst _).imp_right fun short => (by omega)

end Grown

mutual

theorem typeText_grown (s : List Char) : Grown s (typeText s) 4 := by
  have bound := Nat.le_trans (length_stripQualifiers_le (trim s)) (length_trim_le s)
  rw [typeText]
  split
  · rename_i tag
    have inside := (contains_iff_within.mp tag).length_le
    have trimmed := length_trim_le s
    have word : "__va_list_tag".toList.length = 13 := rfl
    have list : "va_list".toList.length = 7 := rfl
    exact grown_of_tight (tight_of_ends rfl rfl) (by omega)
  · split
    · rename_i name found
      exact (opaquePointer?_grown found).mono bound (Nat.add_le_add_right bound 4)
    · exact (unqualifiedText_grown _).mono bound (Nat.add_le_add_right bound 4)
termination_by 4 * s.length + 3
decreasing_by omega

theorem unqualifiedText_grown (s : List Char) : Grown s (unqualifiedText s) 4 := by
  have bound := length_trim_le s
  refine Grown.mono ?_ bound (Nat.add_le_add_right bound 4)
  rw [unqualifiedText]
  split
  · exact grown_of_le (Nat.le_refl _) (tight_trim s).last
  · split
    · rename_i rest found
      have shorter := length_of_afterStart? found
      rw [afterStart?_eq_some.mp found]
      exact (unqualifiedText_grown rest).sign
    · split
      · rename_i dims elem found
        have shorter := length_lt_of_leadingDimensions? found
        obtain ⟨closed, whole⟩ := bracketed_of_leadingDimensions? found
        have grown := (unqualifiedText_grown elem).dims closed
        rwa [whole] at grown
      · split
        · exact enumName?_grown ‹_›
        · split
          · exact functionText_grown (trim s) (tight_trim s)
          · have shorter := Declarator.length_base_le (trim s)
            exact declaredText_grown (fun h => (bracketed_splitDimensions h).1) _
              (baseText_grown _ (last_ofText _)) (length_ofText (trim s))
termination_by 4 * s.length + 2
decreasing_by
  · have sign : "&".toList.length = 1 := rfl
    omega
  all_goals omega

theorem functionText_grown (s : List Char) (tight : Tight s) : Grown s (functionText s) 4 := by
  rw [functionText_eq]
  split
  · exact grown_of_le (Nat.le_refl _) tight.last
  · rename_i sig found
    have shorter := Signature.length_result_lt found
    exact signatureText_grown _ (typeText_grown sig.result).last
termination_by 4 * s.length + 1
decreasing_by omega

theorem baseText_grown (s : List Char) (last : LastIs (isBlank · = false) s) :
    Grown s (baseText s) 2 := by
  rw [baseText]
  split
  · exact grown_of_le (Nat.le_refl _) last
  · split
    · rename_i elem found
      have shorter := length_of_vectorElement? found
      have closed : Bracketed "[]".toList := ⟨rfl, rfl⟩
      have signs : ("[]".toList ++ elem).length = elem.length + 2 := rfl
      exact ((typeText_grown elem).dims closed).mono (by omega) (by omega)
    · exact scalarName_grown last
termination_by 4 * s.length
decreasing_by omega

end

end VFromC.Spelling
