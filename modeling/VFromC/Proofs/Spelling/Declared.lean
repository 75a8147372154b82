import VFromC.Proofs.Spelling.Stripped
/-!
Bases with stars and dimensions, read from a text whose qualifiers are gone.
-/
namespace VFromC.Spelling
open VFromC.Text
open Ending

theorem mem_starred {k : Nat} {c : Char} (h : c ∈ starred k) : c = ' ' ∨ c = '*' := by
  cases k with
  | zero => cases h
  | succ more =>
      rcases List.mem_cons.mp h with rfl | star
      · exact .inl rfl
      · exact .inr (List.eq_of_mem_replicate star)

theorem outside_starred {k : Nat} : ∀ c ∈ starred k, isNameChar c = false := by
  intro c hc
  rcases mem_starred hc with rfl | rfl <;> rfl

theorem last_starred (k : Nat) : LastIs (isBlank · = false) (starred k) := by
  cases k with
  | zero => exact lastIs_nil
  | succ more =>
      rw [starred, List.replicate_succ', ← List.cons_append]
      exact lastIs_concat (by decide) _

theorem joint_starred {s : List Char} (hs : IsBaseName s) (k : Nat) : Joint s (starred k) := by
  cases k with
  | zero => exact joint_end s
  | succ more => exact joint_blank (fun w hw => hs.not_suffix hw) _

theorem splitStars_name (base : Base) (k : Nat) :
    splitStars (base.name ++ starred k) = (base.name, k) := by
  have name := base.isBaseName_name
  have trimmed := trimEnd_of_last (name.tight.last.append (last_starred k))
  have stop : LastIs (isStarOrSpace · = false) base.name := by
    intro c hc
    have letter := name.last
    rw [hc] at letter
    simp [isStarOrSpace, ne_of_isNameChar letter (d := '*') rfl,
      ne_of_isNameChar letter (d := ' ') rfl]
  have run : ∀ c ∈ starred k, isStarOrSpace c = true := by
    intro c hc
    rcases mem_starred hc with rfl | rfl <;> rfl
  have stars : (starred k).reverse.count '*' = k := by
    cases k with
    | zero => rfl
    | succ more => simp [starred]
  rw [splitStars, trimmed, takeWhile_reverse_run run stop, dropEndWhile_run run stop, stars,
    name.tight.trim_eq]

theorem splitReference_of_last {s : List Char} (h : s.getLast? ≠ some '&') :
    splitReference s = (s, false) := by
  have none : beforeEnd? "&".toList s = none := by
    rw [beforeEnd?_eq_none]
    rintro ⟨front, rfl⟩
    exact h List.getLast?_concat
  rw [splitReference, none]

theorem splitReference_name (base : Base) : splitReference base.name = (base.name, false) := by
  apply splitReference_of_last
  intro last
  have letter := base.isBaseName_name.last
  rw [last] at letter
  exact absurd letter (by decide)

theorem stripNamespace_of_no_colon {s : List Char} (h : ':' ∉ s) : stripNamespace s = s := by
  rw [stripNamespace, cutLast?_of_not_mem (c := ':') (by decide) h,
    cutLast?_of_not_mem (c := ':') (by decide) h]
  exact ite_self s

theorem not_mem_text {c : Char} (hc : isBaseChar c = false) (base : Base) : c ∉ base.text := by
  intro h
  rw [base.chars_text c h] at hc
  cases hc

theorem not_mem_starred {c : Char} (hc : isBaseChar c = false) (hs : c ≠ '*') (base : Base)
    (k : Nat) : c ∉ base.text ++ starred k := by
  intro h
  rcases List.mem_append.mp h with inside | behind
  · exact not_mem_text hc base inside
  · rcases mem_starred behind with rfl | star
    · exact absurd hc (by decide)
    · exact hs star

theorem splitDimensions_starred (base : Base) (k : Nat) :
    splitDimensions (base.text ++ starred k) = (base.text ++ starred k, []) := by
  rw [splitDimensions, if_neg]
  rintro ⟨_, bracket, _⟩
  exact not_mem_starred (by decide) (by decide) base k (List.contains_iff_mem.mp bracket)

theorem trimEnd_stars (base : Base) (k : Nat) :
    trimEnd (base.text ++ ' ' :: List.replicate k '*') = base.text ++ starred k := by
  cases k with
  | zero =>
      have blank : [' '].all isBlank = true := rfl
      rw [starred, List.append_nil]
      exact dropEndWhile_run (List.all_eq_true.mp blank) base.tight_text.last
  | succ more =>
      exact trimEnd_of_last (base.tight_text.last.append (last_starred (more + 1)))

theorem splitDimensions_bracket {a inside : List Char} (ha : '[' ∉ a) (ne : a ≠ []) :
    splitDimensions (a ++ '[' :: (inside ++ [']'])) = (trimEnd a, '[' :: (inside ++ [']'])) := by
  have before : ∀ c ∈ a, decide (c ≠ '[') = true := fun c hc =>
    decide_eq_true fun same => ha (same ▸ hc)
  have stop : HeadIs (fun c => decide (c ≠ '[') = false) ('[' :: (inside ++ [']'])) :=
    headIs_cons (by decide) _
  rw [splitDimensions, if_pos, takeWhile_run before stop, dropWhile_run before stop]
  refine ⟨?_, ?_, ?_⟩
  · rw [List.head?_append_of_ne_nil a ne]
    exact fun h => ha (List.mem_of_mem_head? h)
  · rw [List.contains_iff_mem]
    exact List.mem_append_right a List.mem_cons_self
  · rw [← List.cons_append, ← List.append_assoc, List.getLast?_concat]

theorem splitDimensions_core (base : Base) (e : Ending) :
    splitDimensions (base.text ++ e.text) = (base.text ++ starred e.count, e.dims) := by
  cases e with
  | stars count =>
      rw [text_of_not_array _ rfl]
      exact splitDimensions_starred base count
  | constStars more =>
      rw [text_of_not_array _ rfl]
      exact splitDimensions_starred base (more + 1)
  | array count first rest =>
      obtain ⟨inside, dims⟩ := dims_array count first rest
      have bracket : '[' ∉ base.text ++ ' ' :: List.replicate count '*' := by
        simp [not_mem_text (c := '[') (by decide) base]
      rw [text_array, ← List.cons_append, ← List.append_assoc, dims,
        splitDimensions_bracket bracket (List.append_ne_nil_of_left_ne_nil base.ne_nil_text _),
        trimEnd_stars]
      rfl

/-- The base, the stars and the dimensions of a printed type are found. -/
theorem ofText_core (base : Base) (e : Ending) :
    Declarator.ofText (base.text ++ e.text) =
      { base := base.name, stars := e.count, dims := e.dims } := by
  have colon : ':' ∉ base.text ++ starred e.count :=
    not_mem_starred (by decide) (by decide) base e.count
  simp only [Declarator.ofText, splitDimensions_core, stripNamespace_of_no_colon colon,
    base.stripRecordWords_text (joint_starred base.isBaseName_name e.count) outside_starred,
    splitStars_name, splitReference_name, Bool.false_eq_true, if_false]

/-- The fixed spellings end in a star or a bracket. -/
theorem opaquePointer?_of_last {s : List Char} {c : Char} (h : s.getLast? = some c)
    (star : c ≠ '*') (bracket : c ≠ ']') : opaquePointer? s = none := by
  have other (front : List Char) {d : Char} (hd : c ≠ d) : s ≠ front ++ [d] := by
    rintro rfl
    rw [List.getLast?_concat] at h
    exact hd (Option.some.inj h).symm
  have size : (afterStart? "void *[".toList s).bind (beforeEnd? "]".toList) = none := by
    rw [Option.bind_eq_none_iff]
    intro rest found
    rw [beforeEnd?_eq_none]
    rintro ⟨inside, rfl⟩
    have whole := afterStart?_eq_some.mp found
    rw [← List.append_assoc] at whole
    exact other _ bracket whole
  rw [opaquePointer?, if_neg, if_neg, if_neg, size]
  · rfl
  · exact fun h => h.elim (other "void *".toList star) (other "void * ".toList star)
  · exact other "void ".toList star
  · exact fun h => h.elim (other "char *".toList star) (other "char * ".toList star)

/-- The stars and dimensions of a text are read off in one way. -/
theorem stars_dims_inj {k m : Nat} {d d' : List Char} (hd : HeadIs (· ≠ '*') d)
    (hd' : HeadIs (· ≠ '*') d') (h : List.replicate k '*' ++ d = List.replicate m '*' ++ d') :
    k = m ∧ d = d' := by
  have run (n : Nat) : ∀ c ∈ List.replicate n '*', (c == '*') = true := fun c hc =>
    beq_iff_eq.mpr (List.eq_of_mem_replicate hc)
  have stop {d : List Char} (hd : HeadIs (· ≠ '*') d) : HeadIs (fun c => (c == '*') = false) d :=
    fun c hc => beq_eq_false_iff_ne.mpr (hd c hc)
  constructor
  · have stars := congrArg (List.takeWhile (· == '*')) h
    rw [takeWhile_run (run k) (stop hd), takeWhile_run (run m) (stop hd')] at stars
    simpa using congrArg List.length stars
  · have rest := congrArg (List.dropWhile (· == '*')) h
    rwa [dropWhile_run (run k) (stop hd), dropWhile_run (run m) (stop hd')] at rest

theorem head_dims (e : Ending) : HeadIs (· = '[') e.dims := by
  cases e with
  | array count first rest => exact fun c hc => (by cases hc; rfl)
  | stars | constStars => exact headIs_nil

theorem text_of_ne_nil {e : Ending} (h : e.text ≠ []) :
    e.text = ' ' :: (List.replicate e.count '*' ++ e.dims) := by
  unfold Ending.text at h ⊢
  split
  · rename_i none
    exact absurd (if_pos none) h
  · rfl

/-- A text with stars is that of a base and an ending in one way only. -/
theorem core_inj {base : Base} {e : Ending} {b d : List Char} (more : Nat) (he : e.text ≠ [])
    (hb : b.all isBaseChar = true) (hd : HeadIs (· ≠ '*') d)
    (h : base.text ++ e.text = b ++ ' ' :: (List.replicate (more + 1) '*' ++ d)) :
    base.text = b ∧ e.count = more + 1 ∧ e.dims = d := by
  have run {b : List Char} (hb : ∀ c ∈ b, isBaseChar c = true) :
      ∀ c ∈ b ++ [' '], isBaseChar c = true := fun c hc =>
    (List.mem_append.mp hc).elim (hb c) fun blank => by
      rw [List.mem_singleton.mp blank]
      rfl
  have ending : HeadIs (isBaseChar · = false) (List.replicate e.count '*' ++ e.dims) := by
    refine HeadIs.append (fun c hc => ?_) (fun c hc => ?_)
    · rw [List.eq_of_mem_replicate (List.mem_of_mem_head? hc)]
      rfl
    · rw [head_dims e c hc]
      rfl
  have stars : HeadIs (isBaseChar · = false) (List.replicate (more + 1) '*' ++ d) :=
    headIs_cons (by decide) _
  have inside := run base.chars_text
  have given := run (List.all_eq_true.mp hb)
  -- Both texts are cut behind the blank, at the first sign that no base has.
  rw [text_of_ne_nil he, List.append_cons, List.append_cons b] at h
  have front := congrArg (List.takeWhile isBaseChar) h
  have rest := congrArg (List.dropWhile isBaseChar) h
  rw [takeWhile_run inside ending, takeWhile_run given stars] at front
  rw [dropWhile_run inside ending, dropWhile_run given stars] at rest
  have other : HeadIs (· ≠ '*') e.dims := fun c hc => by
    rw [head_dims e c hc]
    decide
  exact ⟨List.append_cancel_right front, stars_dims_inj other hd rest⟩

theorem name_of_text {base : Base} {s : List Char} (h : base.text = s) (blank : ' ' ∉ s) :
    base.name = s := by
  obtain ⟨start, hs, same⟩ := base.text_eq
  have all : ∀ start ∈ recordStarts, start = [] ∨ ' ' ∈ start := by decide
  rcases all start hs with rfl | within
  · exact same.symm.trans h
  · rw [← h, same] at blank
    exact absurd (List.mem_append_left _ within) blank

theorem isTextArray_iff {base : Base} {e : Ending} :
    isTextArray base e = true ↔ base.text ++ e.text = "char **".toList := by
  constructor
  · intro h
    simp only [isTextArray, Bool.and_eq_true, decide_eq_true_eq, Bool.not_eq_true'] at h
    obtain ⟨⟨text, two⟩, single⟩ := h
    rw [text, text_of_not_array e single, two]
    rfl
  · intro h
    have stars : e.text ≠ [] := by
      intro none
      rw [none, List.append_nil] at h
      exact not_mem_text (c := '*') (by decide) base (h ▸ by decide)
    obtain ⟨text, two, dims⟩ :=
      core_inj (b := "char".toList) (d := []) 1 stars (by decide) headIs_nil h
    cases e with
    | array count first rest => cases dims
    | stars | constStars => simp_all [isTextArray, isArray, count]

theorem baseText_void : baseText "void".toList = "void".toList := by
  rw [baseText, if_pos (by decide)]

/-- One star on `void` is in its name. -/
theorem meaning_void {base : Base} {e : Ending} {d : List Char} (more : Nat) (he : e.text ≠ [])
    (hd : HeadIs (· ≠ '*') d)
    (h : base.text ++ e.text = "void".toList ++ ' ' :: (List.replicate (more + 1) '*' ++ d)) :
    (Shape.object base e).meaning = d ++ (List.replicate more '&' ++ "voidptr".toList) := by
  obtain ⟨text, stars, dims⟩ := core_inj more he (by decide) hd h
  have other : isTextArray base e = false := by
    rw [isTextArray, text]
    rfl
  rw [Shape.meaning, other, declaredAs, stars, dims, name_of_text text (by decide), baseText_void]
  rfl

/-- No text with a blank between two stars is printed. -/
theorem core_ne_apart {base : Base} {e : Ending} {b : List Char} (he : e.text ≠ [])
    (hb : b.all isBaseChar = true) : base.text ++ e.text ≠ b ++ " * *".toList := by
  intro h
  have dims := (core_inj (d := " *".toList) 0 he hb (headIs_cons (by decide) _) h).2.2
  have bracket := head_dims e ' '
  rw [dims] at bracket
  exact absurd (bracket rfl) (by decide)

/-- The fixed spellings of pointers are among those of bases with stars. -/
theorem opaquePointer?_core (base : Base) (e : Ending) :
    opaquePointer? (base.text ++ e.text) = some (Shape.object base e).meaning ∨
      opaquePointer? (base.text ++ e.text) = none ∧ isTextArray base e = false := by
  by_cases he : e.text = []
  · obtain ⟨c, last, letter⟩ := (Option.any_eq_true _ _).mp base.last_text
    have plain : base.text ++ e.text = base.text := by rw [he, List.append_nil]
    refine .inr ⟨?_, ?_⟩
    · rw [plain]
      exact opaquePointer?_of_last last (ne_of_isNameChar letter rfl) (ne_of_isNameChar letter rfl)
    · rw [← Bool.not_eq_true, isTextArray_iff, plain]
      exact fun h => not_mem_text (c := '*') (by decide) base (h ▸ by decide)
  · unfold opaquePointer?
    split
    case isTrue texts =>
      rcases texts with text | apart
      · exact .inl (congrArg some (if_pos (isTextArray_iff.mpr text)).symm)
      · exact absurd apart (core_ne_apart (b := "char".toList) he (by decide))
    case isFalse noTexts =>
      have single : isTextArray base e = false := by
        rw [← Bool.not_eq_true, isTextArray_iff]
        exact fun h => noTexts (.inl h)
      split
      case isTrue one => exact .inl (congrArg some (meaning_void 0 he headIs_nil one).symm)
      case isFalse =>
        split
        case isTrue two =>
          rcases two with two | apart
          · exact .inl (congrArg some (meaning_void 1 he headIs_nil two).symm)
          · exact absurd apart (core_ne_apart (b := "void".toList) he (by decide))
        case isFalse =>
          cases found : (afterStart? "void *[".toList (base.text ++ e.text)).bind
              (beforeEnd? "]".toList) with
          | none => exact .inr ⟨rfl, single⟩
          | some size =>
              obtain ⟨rest, start, ends⟩ := Option.bind_eq_some_iff.mp found
              have whole := afterStart?_eq_some.mp start
              rw [beforeEnd?_eq_some.mp ends] at whole
              have named := meaning_void (d := '[' :: (size ++ "]".toList)) 0 he
                (headIs_cons (by decide) _) whole
              rw [named]
              refine .inl (congrArg some ?_)
              simp

/-- What is read of a text with nothing before its name. -/
theorem unqualifiedText_of_name {s : List Char} (tight : Tight s)
    (function : isFunctionType s = false) (reference : afterStart? "&".toList s = none)
    (dims : leadingDimensions? s = none) :
    unqualifiedText s =
      match enumName? s with
      | some name => name
      | none =>
          if isSignature s then functionText s
          else
            declaredText (Declarator.ofText s).dims (Declarator.ofText s).stars
              (baseText (Declarator.ofText s).base) := by
  rw [unqualifiedText, tight.trim_eq, function]
  simp only [Bool.false_eq_true, if_false]
  split
  · simp_all
  · split
    · simp_all
    · rfl

/-- What is read when a text starts with a letter and is no function type of the output. -/
theorem unqualifiedText_of_letter {s : List Char} (tight : Tight s)
    (letter : HeadIs (isNameChar · = true) s) (word : firstWord s ≠ "func".toList) :
    unqualifiedText s =
      match enumName? s with
      | some name => name
      | none =>
          if isSignature s then functionText s
          else
            declaredText (Declarator.ofText s).dims (Declarator.ofText s).stars
              (baseText (Declarator.ofText s).base) := by
  have noStart (sep : Char) (hs : isNameChar sep = false) :
      startsWith ("func".toList ++ [sep]) s = false := by
    rw [← Bool.not_eq_true, startsWith_iff]
    exact fun start => word (firstWord_of_start (by decide) hs start)
  have noSign {c : Char} (hc : isNameChar c = false) : s.head? ≠ some c := fun h =>
    not_outside (letter c h) hc
  apply unqualifiedText_of_name tight
  · rw [isFunctionType, Bool.or_eq_false_iff]
    exact ⟨noStart ' ' rfl, noStart '(' rfl⟩
  · rw [afterStart?_eq_none]
    rintro ⟨rest, rfl⟩
    exact noSign (c := '&') rfl rfl
  · exact if_neg (noSign rfl)

namespace Shape

theorem head_letter (shape : Shape) : HeadIs (isNameChar · = true) shape.core := by
  cases shape with
  | object base e =>
      refine HeadIs.append_left (fun c hc => ?_) base.ne_nil_text e.text
      have first := base.first_text
      rwa [hc] at first
  | enumeration x => exact fun c hc => (by cases hc; rfl)

theorem firstWord_core_object (base : Base) (e : Ending) :
    firstWord (base.text ++ e.text) = firstWord base.text := by
  refine firstWord_append fun c hc => ?_
  rcases e.text_cases with ⟨none, _⟩ | ⟨front, d, same, _⟩
  · rw [none] at hc
    cases hc
  · rw [same] at hc
    cases hc
    rfl

theorem firstWord_core (shape : Shape) : firstWord shape.core ≠ "func".toList := by
  cases shape with
  | object base e =>
      rw [core, firstWord_core_object]
      exact base.firstWord_text (by decide)
  | enumeration x =>
      have start : "enum".toList ++ [' '] <+: (enumeration x).core := List.prefix_append _ x.chars
      rw [firstWord_of_start (by decide) rfl start]
      decide

end Shape

theorem enumName?_of_word {s : List Char} (h : firstWord s ≠ "enum".toList) :
    enumName? s = none := by
  have none : afterStart? "enum ".toList s = none := by
    rw [afterStart?_eq_none]
    exact fun start => h (firstWord_of_start (by decide) rfl start)
  rw [enumName?, none]
  rfl

theorem enumName?_core (x : TypeName) :
    enumName? (Shape.enumeration x).core = some (capitalizeFirst x.chars) := by
  have start : afterStart? "enum ".toList (Shape.enumeration x).core = some x.chars :=
    afterStart?_eq_some.mpr rfl
  have absent {c : Char} (hc : isNameChar c = false) : x.chars.contains c = false := by
    rw [← Bool.not_eq_true, List.contains_iff_mem]
    exact fun h => not_outside (x.names c h) hc
  have tight := (isBaseName_typeName x).tight
  rw [enumName?, start, Option.bind_some, absent rfl, absent rfl, tight.trim_eq]
  rfl

theorem isSignature_of_no_bracket {s : List Char} (ho : '(' ∉ s) (hc : ')' ∉ s) :
    isSignature s = false := by
  have inside : contains "(*)".toList s = false := by
    rw [← Bool.not_eq_true, contains_iff_within]
    exact fun h => ho (h.subset (by decide))
  have last : decide (s.getLast? = some ')') = false :=
    decide_eq_false fun h => hc (List.mem_of_getLast? h)
  rw [isSignature, inside, last]
  rfl

theorem not_mem_core {c : Char} (hb : isBaseChar c = false) (he : isEndingChar c = false)
    (shape : Shape) : c ∉ shape.core := by
  intro h
  cases shape with
  | object base e =>
      rcases List.mem_append.mp h with h | h
      · exact not_mem_text hb base h
      · rw [e.chars_text c h] at he
        cases he
  | enumeration x =>
      have core : (Shape.enumeration x).core.all isBaseChar = true := by
        rw [Shape.core, List.all_append, (isBaseName_typeName x).chars]
        rfl
      rw [List.all_eq_true.mp core c h] at hb
      cases hb

theorem declaredText_eq (dims base : List Char) (stars : Nat) :
    declaredText dims stars base = dims ++ pointing stars base := by
  cases stars with
  | zero => simp [declaredText, pointing]
  | succ more =>
      simp only [declaredText, pointing]
      split <;> simp_all

/-- A shape that has no fixed spelling is read by its parts. -/
theorem unqualifiedText_core (shape : Shape) :
    unqualifiedText shape.core =
      match shape with
      | .object base e => declaredAs base e
      | .enumeration x => capitalizeFirst x.chars := by
  rw [unqualifiedText_of_letter shape.tight_core shape.head_letter shape.firstWord_core]
  cases shape with
  | object base e =>
      have other : firstWord (Shape.object base e).core ≠ "enum".toList := by
        rw [Shape.core, Shape.firstWord_core_object]
        exact base.firstWord_text (by decide)
      have plain : isSignature (Shape.object base e).core = false :=
        isSignature_of_no_bracket (not_mem_core (by decide) (by decide) _)
          (not_mem_core (by decide) (by decide) _)
      rw [enumName?_of_word other, plain]
      simp only [Bool.false_eq_true, if_false]
      rw [Shape.core, ofText_core, declaredText_eq]
      rfl
  | enumeration x => rw [enumName?_core]

end VFromC.Spelling
