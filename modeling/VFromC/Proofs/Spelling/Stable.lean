import VFromC.Proofs.Spelling.OwnNames
/-!
Types that are read twice.

A printed type is converted to a type that is left as it is, unless the name that it is converted to
is in the table itself or, of an enumeration, starts with an underscore. Function types are always
left as they are.
-/
namespace VFromC.Spelling
open VFromC.Text

section Pointing

variable {s : List Char}

theorem tight_signs (tight : Tight s) (n : Nat) : Tight (List.replicate n '&' ++ s) := by
  have sign : ∀ c ∈ List.replicate n '&', isBlank c = false := fun c hc => by
    rw [List.eq_of_mem_replicate hc]
    rfl
  exact ⟨HeadIs.append (fun c hc => sign c (List.mem_of_mem_head? hc)) tight.first,
    LastIs.append (fun c hc => sign c (List.mem_of_getLast? hc)) tight.last⟩

theorem voidptr_settled : Settled "voidptr".toList := settled_target "voidptr" (by decide)

theorem pointing_tight (tight : Tight s) (n : Nat) : Tight (pointing n s) := by
  cases n with
  | zero => exact tight
  | succ more =>
      rw [pointing]
      split
      · exact tight_signs voidptr_settled.tight more
      · exact tight_signs tight (more + 1)

/-- Stars do not matter for what is left as it is. -/
theorem pointing_fixed_iff (tight : Tight s) (n : Nat) :
    unqualifiedText (pointing n s) = pointing n s ↔ unqualifiedText s = s := by
  cases n with
  | zero => rfl
  | succ more =>
      rw [pointing]
      split
      · rename_i void
        refine iff_of_true ?_ ?_
        · rw [unqualifiedText_signs voidptr_settled.tight, voidptr_settled.fixed]
        · rw [void]
          exact (settled_target "void" (by decide)).fixed
      · rw [unqualifiedText_signs tight, List.append_cancel_left_eq]

theorem mem_pointing {c : Char} {n : Nat} (h : c ∈ pointing n s) :
    c = '&' ∨ isNameChar c = true ∨ c ∈ s := by
  cases n with
  | zero => exact .inr (.inr h)
  | succ more =>
      rw [pointing] at h
      split at h
      · rcases List.mem_append.mp h with sign | name
        · exact .inl (List.eq_of_mem_replicate sign)
        · have letters : "voidptr".toList.all isNameChar = true := by decide
          exact .inr (.inl (List.all_eq_true.mp letters c name))
      · rcases List.mem_append.mp h with sign | name
        · exact .inl (List.eq_of_mem_replicate sign)
        · exact .inr (.inr name)

end Pointing

/-- Signs stand before the base or before `voidptr`. -/
theorem pointing_split (n : Nat) (s : List Char) :
    ∃ more name, pointing n s = List.replicate more '&' ++ name ∧
      (name = s ∨ name = "voidptr".toList) := by
  cases n with
  | zero => exact ⟨0, s, rfl, .inl rfl⟩
  | succ more =>
      rw [pointing]
      split
      · exact ⟨more, _, rfl, .inr rfl⟩
      · exact ⟨more + 1, _, rfl, .inl rfl⟩

namespace Ending

variable (e : Ending)

theorem mem_dims {c : Char} (h : c ∈ e.dims) : c.isDigit = true ∨ c = '[' ∨ c = ']' := by
  cases e with
  | stars | constStars => cases h
  | array count first rest =>
      obtain ⟨d, _, inside⟩ := List.mem_flatMap.mp h
      rcases List.mem_cons.mp inside with opens | rest
      · exact .inr (.inl opens)
      · rcases List.mem_append.mp rest with digit | closes
        · exact .inl (List.all_eq_true.mp d.isNumber c digit)
        · exact .inr (.inr (List.mem_singleton.mp closes))

theorem outside_dims : LastIs Outside e.dims := by
  cases e with
  | stars | constStars => exact lastIs_nil
  | array count first rest =>
      obtain ⟨inside, same⟩ := dims_array count first rest
      rw [same, ← List.cons_append]
      exact outside_concat rfl _

end Ending

/-- A shape whose type is left as it is. -/
def Shape.isStable : Shape → Bool
  | .object base _ => (primitiveTable.lookup (String.ofList (baseText base.name))).isNone
  | .enumeration x =>
      x.chars.head? ≠ some '_' &&
        (primitiveTable.lookup (String.ofList (capitalizeFirst x.chars))).isNone

namespace Shape

variable (shape : Shape)

theorem baseText_of_isTextArray {base : Base} {e : Ending} (h : isTextArray base e = true) :
    baseText base.name = "i8".toList := by
  simp only [isTextArray, Bool.and_eq_true, decide_eq_true_eq] at h
  have vector : vectorElement? "char".toList = none := rfl
  rw [name_of_text h.1.1 (by decide), baseText, if_neg (by decide), vector]
  rfl

theorem meaning_fixed_iff :
    unqualifiedText shape.meaning = shape.meaning ↔ shape.isStable = true := by
  cases shape with
  | object base e =>
      rw [isStable, Option.isNone_iff_eq_none, meaning]
      split
      · rename_i text
        refine iff_of_true ?_ ?_
        · have byte := settled_target "u8" (by decide)
          have signs := unqualifiedText_signs byte.tight 2
          rw [byte.fixed] at signs
          exact signs
        · rw [baseText_of_isTextArray text]
          decide
      · have tight := pointing_tight base.written_tight e.count
        have first : HeadIs (· ≠ '[') (pointing e.count (baseText base.name)) := by
          rintro c hc rfl
          rcases mem_pointing (List.mem_of_mem_head? hc) with sign | letter | inside
          · exact absurd sign (by decide)
          · exact absurd letter (by decide)
          · rcases base.written_chars '[' inside with letter | dot
            · exact absurd letter (by decide)
            · exact absurd dot (by decide)
        rw [declaredAs, unqualifiedText_dimensions e tight first, List.append_cancel_left_eq,
          pointing_fixed_iff base.written_tight, base.written_fixed_iff]
  | enumeration x =>
      rw [isStable, Bool.and_eq_true, decide_eq_true_eq, Option.isNone_iff_eq_none]
      exact x.capitalized_fixed_iff

theorem mem_meaning {c : Char} (h : c ∈ shape.meaning) :
    isNameChar c = true ∨ c ∈ ['.', '&', '[', ']'] := by
  cases shape with
  | object base e =>
      rw [meaning] at h
      split at h
      · have chars : "&&u8".toList.all
            (fun c => isNameChar c || ['.', '&', '[', ']'].contains c) = true := by decide
        rw [← List.contains_iff_mem, ← Bool.or_eq_true]
        exact List.all_eq_true.mp chars c h
      · rcases List.mem_append.mp h with dims | rest
        · rcases e.mem_dims dims with digit | rfl | rfl
          · exact .inl (by rw [isNameChar, Char.isAlphanum, digit, Bool.or_true, Bool.true_or])
          · exact .inr (by decide)
          · exact .inr (by decide)
        · rcases mem_pointing rest with rfl | letter | inside
          · exact .inr (by decide)
          · exact .inl letter
          · rcases base.written_chars c inside with letter | rfl
            · exact .inl letter
            · exact .inr (by decide)
  | enumeration x => exact .inl (x.capitalized.names c h)

/-- Dimensions and signs stand before a name. -/
theorem meaning_split : ∃ front name, shape.meaning = front ++ name ∧
    (LastIs Outside front ∧ '_' ∉ front) ∧
    ((∃ p ∈ targetPrimitives, name = p.toList) ∨ ∃ x : TypeName, name = x.chars) := by
  have signs (n : Nat) : LastIs Outside (List.replicate n '&') ∧ '_' ∉ List.replicate n '&' := by
    refine ⟨fun c hc => ?_, fun h => absurd (List.eq_of_mem_replicate h) (by decide)⟩
    rw [List.eq_of_mem_replicate (List.mem_of_getLast? hc)]
    rfl
  cases shape with
  | object base e =>
      rw [meaning]
      split
      · exact ⟨List.replicate 2 '&', "u8".toList, rfl, signs 2, .inl ⟨"u8", by decide, rfl⟩⟩
      · obtain ⟨more, name, same, listed⟩ := pointing_split e.count (baseText base.name)
        refine ⟨e.dims ++ List.replicate more '&', name, ?_, ⟨?_, ?_⟩, ?_⟩
        · rw [declaredAs, same, List.append_assoc]
        · exact e.outside_dims.append (signs more).1
        · intro h
          rcases List.mem_append.mp h with dims | sign
          · rcases e.mem_dims dims with digit | opens | closes
            · exact absurd digit (by decide)
            · exact absurd opens (by decide)
            · exact absurd closes (by decide)
          · exact (signs more).2 sign
        · rcases listed with rfl | rfl
          · rcases baseText_base base with target | ⟨x, written⟩
            · exact .inl ⟨_, target, String.toList_ofList.symm⟩
            · exact .inr ⟨x.written, written⟩
          · exact .inl ⟨"voidptr", by decide, rfl⟩
  | enumeration x =>
      exact ⟨[], _, rfl, ⟨lastIs_nil, List.not_mem_nil⟩, .inr ⟨x.capitalized, rfl⟩⟩

theorem not_mem_meaning {c : Char} (letter : isNameChar c = false)
    (sign : ['.', '&', '[', ']'].contains c = false) : c ∉ shape.meaning := by
  intro h
  rcases shape.mem_meaning h with inside | inside
  · exact not_outside inside letter
  · rw [← List.contains_iff_mem, sign] at inside
    cases inside

theorem no_list_meaning : ¬ "__va_list_tag".toList <:+: shape.meaning := by
  have targets : ∀ p ∈ targetPrimitives, ¬ "__va_list_tag".toList <:+: p.toList := by decide
  obtain ⟨front, name, same, ⟨outside, plain⟩, listed⟩ := shape.meaning_split
  rw [same]
  intro within
  have joint : Joint front name := .inl outside
  rcases infix_append_cases (joint.not_straddles_names (by decide)) within with left | right
  · exact plain (left.subset (by decide))
  · rcases listed with ⟨p, target, rfl⟩ | ⟨x, rfl⟩
    · exact targets p target right
    · exact (isTypeName_iff.mp x.isName).2.2.2.1 right

theorem no_const_meaning : ¬ "const".toList <:+ shape.meaning := by
  have targets : ∀ p ∈ targetPrimitives, ¬ "const".toList <:+ p.toList := by decide
  obtain ⟨front, name, same, ⟨outside, _⟩, listed⟩ := shape.meaning_split
  rw [same]
  intro behind
  have right := suffix_of_outside_append outside (by decide) behind
  rcases listed with ⟨p, target, rfl⟩ | ⟨x, rfl⟩
  · exact targets p target right
  · exact (isTypeName_iff.mp x.isName).2.2.2.2 _ (by decide) right

theorem meaning_tight : Tight shape.meaning := by
  have solid : ∀ c ∈ shape.meaning, isBlank c = false := by
    intro c hc
    have signs : ['.', '&', '[', ']'].all (fun c => !isBlank c) = true := by decide
    rcases shape.mem_meaning hc with letter | sign
    · exact isBlank_of_isNameChar letter
    · simpa using List.all_eq_true.mp signs c sign
  exact ⟨fun c hc => solid c (List.mem_of_mem_head? hc),
    fun c hc => solid c (List.mem_of_getLast? hc)⟩

end Shape

/-- The texts that are looked for inside of a type. -/
def foreignTexts : List (List Char) := "__va_list_tag".toList :: droppedTexts

theorem Shape.no_foreign (shape : Shape) : ∀ pat ∈ foreignTexts, ¬ pat <:+: shape.meaning := by
  have signs : ∀ pat ∈ droppedTexts, ' ' ∈ pat ∨ ':' ∈ pat := by decide
  intro pat listed within
  rcases List.mem_cons.mp listed with rfl | dropped
  · exact shape.no_list_meaning within
  · rcases signs pat dropped with blank | colon
    · exact shape.not_mem_meaning rfl rfl (within.subset blank)
    · exact shape.not_mem_meaning rfl rfl (within.subset colon)

section Functions

variable {pat : List Char}

theorem foreignTexts_signs : ∀ pat ∈ foreignTexts, pat ≠ [] ∧ pat.head? ≠ some ' ' ∧
    ('(' ∉ pat ∧ ',' ∉ pat ∧ ')' ∉ pat) ∧ ¬ pat <:+: "func ".toList ∧
    ¬ pat <:+: "...".toList := by
  decide

theorem within_joined (listed : pat ∈ foreignTexts) {params : List (List Char)}
    (h : pat <:+: joined ", ".toList params) : ∃ p ∈ params, pat <:+: p := by
  obtain ⟨ne, blank, ⟨_, comma, _⟩, _⟩ := foreignTexts_signs pat listed
  induction params with
  | nil => exact absurd (List.infix_nil.mp h) ne
  | cons p params ih =>
      cases params with
      | nil => exact ⟨p, List.mem_cons_self, h⟩
      | cons q params =>
          have text : joined ", ".toList (p :: q :: params) =
              p ++ ',' :: ' ' :: joined ", ".toList (q :: params) := List.append_assoc p _ _
          rw [text, infix_append_cons comma ne, List.infix_cons_iff] at h
          rcases h with first | front | rest
          · exact ⟨p, List.mem_cons_self, first⟩
          · obtain ⟨c, pat, rfl⟩ := List.exists_cons_of_ne_nil ne
            exact absurd (congrArg some (List.cons_prefix_cons.mp front).1) blank
          · obtain ⟨p', inside, within⟩ := ih rest
            exact ⟨p', List.mem_cons_of_mem p inside, within⟩

theorem functionAs_parts (params : List (List Char)) (result : List Char) :
    ∃ tail, (tail = [] ∨ tail = ' ' :: result) ∧
      functionAs params result = "func (".toList ++ (joined ", ".toList params ++ ')' :: tail) := by
  unfold functionAs
  split
  · exact ⟨[], .inl rfl, by rw [List.append_nil, List.append_assoc]; rfl⟩
  · exact ⟨_, .inr rfl, by rw [List.append_assoc, List.append_assoc]; rfl⟩

/-- What is not inside of the parts of a function type is not inside of it. -/
theorem within_functionAs (listed : pat ∈ foreignTexts) {params : List (List Char)}
    {result : List Char} (h : pat <:+: functionAs params result) :
    (∃ p ∈ params, pat <:+: p) ∨ pat <:+: result := by
  obtain ⟨ne, blank, ⟨opens, _, closes⟩, word, _⟩ := foreignTexts_signs pat listed
  obtain ⟨tail, which, text⟩ := functionAs_parts params result
  have bracket (t : List Char) : "func (".toList ++ t = "func ".toList ++ '(' :: t := rfl
  rw [text, bracket, infix_append_cons opens ne, infix_append_cons closes ne] at h
  rcases h with front | inside | behind
  · exact absurd front word
  · exact .inl (within_joined listed inside)
  · refine .inr ?_
    rcases which with rfl | rfl
    · exact absurd (List.infix_nil.mp behind) ne
    · rcases List.infix_cons_iff.mp behind with front | rest
      · obtain ⟨c, pat, rfl⟩ := List.exists_cons_of_ne_nil ne
        exact absurd (congrArg some (List.cons_prefix_cons.mp front).1) blank
      · exact rest

mutual

theorem CType.no_foreign (listed : pat ∈ foreignTexts) : ∀ t : CType, ¬ pat <:+: t.meaning
  | .simple quals shape => shape.no_foreign pat listed
  | .function quals shape noArray spaced params variadic => by
      intro within
      rcases within_functionAs listed within with ⟨p, inside, inner⟩ | result
      · split at inside
        · cases inside
        · rcases List.mem_append.mp inside with param | dot
          · exact no_foreign_all listed params p param inner
          · cases variadic with
            | false => cases dot
            | true =>
                obtain rfl := List.mem_singleton.mp dot
                exact (foreignTexts_signs pat listed).2.2.2.2 inner
      · exact shape.no_foreign pat listed result

theorem no_foreign_all (listed : pat ∈ foreignTexts) :
    ∀ ts : List CType, ∀ p ∈ meaningAll ts, ¬ pat <:+: p
  | [], p, h => absurd h List.not_mem_nil
  | t :: ts, p, h => by
      rcases List.mem_cons.mp h with rfl | rest
      · exact CType.no_foreign listed t
      · exact no_foreign_all listed ts p rest

end

theorem functionAs_tight (params : List (List Char)) (shape : Shape) :
    Tight (functionAs params shape.meaning) := by
  obtain ⟨tail, which, text⟩ := functionAs_parts params shape.meaning
  rw [text]
  refine ⟨headIs_cons (by decide) _, ?_⟩
  rw [← List.append_assoc]
  refine LastIs.append_right ?_ (List.cons_ne_nil ')' tail) _
  rcases which with rfl | rfl
  · exact lastIs_concat (a := []) (by decide)
  · exact shape.meaning_tight.last.append_right shape.meaning_ne_nil [')', ' ']

theorem no_const_functionAs (params : List (List Char)) (shape : Shape) :
    ¬ "const".toList <:+ functionAs params shape.meaning := by
  obtain ⟨tail, which, text⟩ := functionAs_parts params shape.meaning
  rw [text, ← List.append_assoc]
  intro behind
  have closed := suffix_of_outside_append
    (a := "func (".toList ++ joined ", ".toList params ++ [')']) (outside_concat rfl _)
    (w := "const".toList) (b := tail) (by decide)
    (by rwa [List.append_assoc, List.singleton_append])
  rcases which with rfl | rfl
  · exact absurd closed (by decide)
  · have outside : LastIs Outside [' '] := outside_concat (a := []) rfl
    exact shape.no_const_meaning (suffix_of_outside_append outside (by decide) closed)

end Functions

theorem CType.meaning_tight (t : CType) : Tight t.meaning := by
  cases t with
  | simple quals shape => exact shape.meaning_tight
  | function quals shape noArray spaced params variadic => exact functionAs_tight _ shape

theorem CType.no_const_meaning (t : CType) : ¬ "const".toList <:+ t.meaning := by
  cases t with
  | simple quals shape => exact shape.no_const_meaning
  | function quals shape noArray spaced params variadic => exact no_const_functionAs _ shape

theorem CType.not_start_meaning (t : CType) {w : List Char}
    (hw : w ∈ ["char ".toList, "void ".toList]) : ¬ w <+: t.meaning := by
  have words : ∀ w ∈ ["char ".toList, "void ".toList], ' ' ∈ w ∧
      w.length ≤ "func (".toList.length ∧ ¬ w <+: "func (".toList := by decide
  intro start
  cases t with
  | simple quals shape => exact shape.not_mem_meaning rfl rfl (start.subset (words w hw).1)
  | function quals shape noArray spaced params variadic =>
      obtain ⟨tail, _, text⟩ := functionAs_parts
        (if isNoParameter params variadic then [] else meaningAll params ++ dots variadic)
        shape.meaning
      rw [CType.meaning, text] at start
      have five : w.length ≤ "func (".toList.length := (words w hw).2.1
      exact (words w hw).2.2 (List.prefix_of_prefix_length_le start (List.prefix_append _ _) five)

/-- Nothing of a type that stands for a printed one is dropped or taken for something else. -/
theorem CType.meaning_clean (t : CType) : Clean t.meaning where
  list := by
    rw [← Bool.not_eq_true, contains_iff_within]
    exact t.no_foreign List.mem_cons_self
  words := by
    have absent : ∀ pat ∈ droppedTexts, ¬ pat <:+: t.meaning :=
      fun pat listed => t.no_foreign (List.mem_cons_of_mem _ listed)
    rw [dropQualifiers, dropAll_of_absent absent, dropFinalConst_of_not_suffix t.no_const_meaning,
      trimEnd_of_last t.meaning_tight.last]
  pointer := opaquePointer?_of_start (t.not_start_meaning (by decide))
    (t.not_start_meaning (by decide))

/-- A type that is converted to a type that is left as it is. -/
def CType.isStable : CType → Bool
  | .simple _ shape => shape.isStable
  | .function .. => true

theorem CType.meaning_fixed_iff (t : CType) :
    typeText t.meaning = t.meaning ↔ t.isStable = true := by
  have clean := t.meaning_clean
  rw [typeText_eq_self_iff]
  cases t with
  | simple quals shape =>
      rw [CType.isStable, ← shape.meaning_fixed_iff]
      refine ⟨fun h => h.2.fixed, fun h => ⟨clean, (settled_of_fixed ?_).2⟩⟩
      rw [clean.words]
      exact h
  | function quals shape noArray spaced params variadic =>
      obtain ⟨tail, _, text⟩ := functionAs_parts
        (if isNoParameter params variadic then [] else meaningAll params ++ dots variadic)
        shape.meaning
      refine iff_of_true ⟨clean, .function (functionAs_tight _ shape) ?_⟩ rfl
      rw [CType.meaning, text]
      rfl

/-- The type of a spelling is left as it is exactly if it is clean and settled. Of a spelling that
is a printed type this is so exactly if the printed type is stable. -/
theorem converted_twice_iff (c : String) :
    (typeOf (typeOf c) = typeOf c ↔ Clean (typeOf c).toList ∧ Settled (typeOf c).toList) ∧
    ∀ t : CType, t.spelling = c → (typeOf (typeOf c) = typeOf c ↔ t.isStable = true) := by
  constructor
  · rw [← typeText_eq_self_iff, typeOf_eq (typeOf c), ← String.toList_inj, String.toList_ofList]
  · rintro t rfl
    have text : typeOf t.spelling = String.ofList t.meaning := by
      rw [typeOf_eq, CType.spelling, String.toList_ofList, typeText_eq_meaning]
    rw [text, typeOf_eq, String.toList_ofList, String.ofList_inj, t.meaning_fixed_iff]

/-- An enumeration keeps the underscore that a name loses. -/
theorem underscored_enum_changes : ∃ t : CType, t.spelling = "enum _mode" ∧
    ¬ typeOf (typeOf "enum _mode") = typeOf "enum _mode" ∧ typeOf "enum _mode" = "_mode" ∧
    typeOf "_mode" = "Mode" := by
  let mode : CType := .simple [] (.enumeration ⟨"_mode".toList, by decide⟩)
  have spelled : mode.spelling = "enum _mode" := by decide
  have changes : ¬ mode.isStable = true := by decide
  exact ⟨mode, spelled, fun same => changes (((converted_twice_iff _).2 mode spelled).mp same),
    by decide +kernel, by decide +kernel⟩

end VFromC.Spelling
