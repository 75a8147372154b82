import VFromC.Proofs.Spelling.Pointers
import VFromC.Proofs.Spelling.Settled
/-!
The names that bases are written as.

A base is written as a name of the output or as a name with a capital and without leading
underscores. Such a name is left as it is exactly if it is not in the table. Signs and dimensions
before it do not matter.
-/
namespace VFromC.Spelling
open VFromC.Text

section Names

variable {c d : Char} {s z : List Char}

theorem lt_of_isNameChar (h : isNameChar c = true) : c.toNat < 0x80 := by
  -- The letters end with `z`, behind the capitals, the digits and the underscore.
  have last : c.val ≤ 'z'.val := by
    delta isNameChar Char.isAlphanum Char.isAlpha Char.isUpper Char.isLower Char.isDigit at h
    simp only [Bool.or_eq_true, Bool.and_eq_true, decide_eq_true_eq, beq_iff_eq] at h
    rcases h with ((⟨_, capital⟩ | ⟨_, small⟩) | ⟨_, digit⟩) | rfl
    · exact UInt32.le_trans capital (by decide)
    · exact small
    · exact UInt32.le_trans digit (by decide)
    · decide
  exact Nat.lt_of_le_of_lt (UInt32.le_iff_toNat_le.mp last) (by decide)

/-- The capital of a letter of a name is one letter of a name, and its own capital. -/
theorem capitalForm_of_isNameChar (h : isNameChar c = true) :
    ∃ d, capitalForm c = [d] ∧ isNameChar d = true ∧ capitalForm d = [d] := by
  have codes : ∀ n < 0x80, isNameChar (Char.ofNat n) = true →
      isNameChar (Char.ofNat n).toUpper = true ∧
        (Char.ofNat n).toUpper.toUpper = (Char.ofNat n).toUpper := by decide
  have small := lt_of_isNameChar h
  have code := codes c.toNat small
  rw [Char.ofNat_toNat] at code
  obtain ⟨letter, upper⟩ := code h
  refine ⟨c.toUpper, ?_, letter, ?_⟩
  · rw [capitalForm, if_pos small]
  · rw [capitalForm, if_pos (lt_of_isNameChar letter), upper]

theorem isTypeName_iff :
    isTypeName s = true ↔
      s.all isNameChar = true ∧ s.any (· ≠ '_') = true ∧
        leadWords.contains (String.ofList s) = false ∧ ¬ "__va_list_tag".toList <:+: s ∧
        ∀ w ∈ droppedWords, ¬ w <:+ s := by
  simp only [isTypeName, Bool.and_eq_true, Bool.not_eq_true', ← contains_iff_within,
    Bool.not_eq_true, List.all_eq_true, endsWith, ← Bool.not_eq_true (List.isSuffixOf _ _),
    List.isSuffixOf_iff_suffix, and_assoc]

/-- The end of a name is a name when it is capitalised, unless it has nothing but underscores. -/
theorem TypeName.capital (x : TypeName) (hz : z <:+ x.chars) (solid : z.any (· ≠ '_') = true) :
    isTypeName (capitalizeFirst z) = true := by
  obtain ⟨letters, _, _, tag, words⟩ := isTypeName_iff.mp x.isName
  cases z with
  | nil => cases solid
  | cons c z =>
      have inside : ∀ d ∈ c :: z, isNameChar d = true := fun d hd =>
        List.all_eq_true.mp letters d (hz.subset hd)
      have behind : z <:+ x.chars := (List.suffix_cons c z).trans hz
      obtain ⟨d, form, letter, _⟩ := capitalForm_of_isNameChar (inside c List.mem_cons_self)
      have underscore : d = '_' → c = '_' := by
        rintro rfl
        exact eq_of_mem_capitalForm (by decide) (form ▸ List.mem_cons_self)
      -- The words start with small letters, which are no capitals.
      have start {w : List Char} (small : w.head?.all isSmall = true) : d :: z ≠ w := by
        rintro rfl
        exact not_mem_capitalForm small (form ▸ List.mem_cons_self)
      rw [capitalizeFirst, form, List.singleton_append, isTypeName_iff]
      refine ⟨?_, ?_, ?_, ?_, ?_⟩
      · rw [List.all_cons, letter, Bool.true_and]
        exact List.all_eq_true.mpr fun e he => inside e (List.mem_cons_of_mem c he)
      · rw [List.any_cons, Bool.or_eq_true, decide_eq_true_eq] at solid ⊢
        exact solid.imp_left fun other same => other (underscore same)
      · have small : ∀ w ∈ leadWords, w.toList.head?.all isSmall = true := by decide
        rw [← Bool.not_eq_true, List.contains_iff_mem]
        intro listed
        refine start (small _ listed) ?_
        rw [String.toList_ofList]
      · intro within
        rcases List.infix_cons_iff.mp within with front | rest
        · have same := underscore (List.cons_prefix_cons.mp front).1.symm
          have first : d = c := (List.cons_prefix_cons.mp front).1.symm.trans same.symm
          rw [first] at within
          exact tag (within.trans hz.isInfix)
        · exact tag (rest.trans behind.isInfix)
      · have small : ∀ w ∈ droppedWords, w.head?.all isSmall = true := by decide
        intro w hw suffix
        rcases List.suffix_cons_iff.mp suffix with same | rest
        · exact start (small w hw) same.symm
        · exact words w hw (rest.trans behind)

end Names

section Bases

theorem TypeName.idents (x : TypeName) : x.chars.all isIdentChar = true := by
  refine List.all_eq_true.mpr fun c hc => ?_
  rw [isIdentChar, x.names c hc, Bool.true_or]

theorem TypeName.solid_rest (x : TypeName) :
    (Ident.dropUnderscores x.chars).any (· ≠ '_') = true := by
  obtain ⟨c, hc, other⟩ := List.any_eq_true.mp (isBaseName_typeName x).solid
  refine List.any_eq_true.mpr ⟨c, ?_, other⟩
  rw [← List.takeWhile_append_dropWhile (p := (· == '_')) (l := x.chars), List.mem_append] at hc
  refine hc.resolve_left fun front => ?_
  have underscore : (c == '_') = true :=
    List.mem_takeWhile_imp (p := fun c => c == '_') front
  exact of_decide_eq_true other (beq_iff_eq.mp underscore)

/-- The name without its leading underscores, with a capital. -/
def TypeName.written (x : TypeName) : TypeName :=
  ⟨capitalizeFirst (Ident.dropUnderscores x.chars),
    x.capital (List.dropWhile_suffix _) x.solid_rest⟩

/-- The name with a capital. -/
def TypeName.capitalized (x : TypeName) : TypeName :=
  ⟨capitalizeFirst x.chars, x.capital (List.suffix_refl _) (isBaseName_typeName x).solid⟩

theorem lookup_of_mem {row : String × String} (h : row ∈ primitiveTable) :
    ∃ name, primitiveTable.lookup row.1 = some name := by
  cases found : primitiveTable.lookup row.1 with
  | some name => exact ⟨name, rfl⟩
  | none =>
      have apart := List.lookup_eq_none_iff.mp found row h
      rw [bne_self_eq_false] at apart
      cases apart

theorem lookup_target : ∀ p ∈ targetPrimitives, primitiveTable.lookup p = none := by decide

/-- A base is a name of the output, or it is written as a name. -/
theorem baseText_base (base : Base) :
    String.ofList (baseText base.name) ∈ targetPrimitives ∨
      ∃ x : TypeName, baseText base.name = x.written.chars := by
  cases base with
  | primitive p listed =>
      refine .inl ?_
      rw [Base.name, baseText, String.ofList_toList]
      split
      · rename_i target
        rw [String.ofList_toList]
        exact List.contains_iff_mem.mp target
      · rename_i other
        rw [List.contains_iff_mem] at other
        have key := (List.mem_append.mp (List.mem_filter.mp listed).1).resolve_left other
        obtain ⟨row, among, rfl⟩ := List.mem_map.mp key
        obtain ⟨name, found⟩ := lookup_of_mem among
        have plain : ∀ row ∈ primitiveTable, ¬ "vector<".toList <+: row.1.toList := by decide
        rw [noVector_of_not_start (plain row among)]
        simp only [scalarName, String.ofList_toList, found]
        exact values_are_targets _ (mem_of_lookup found)
  | named record x =>
      rcases baseText_cases x.idents with ⟨listed, same⟩ | ⟨name, listed, same⟩ | same
      · exact .inl (by rwa [Base.name, same])
      · refine .inl ?_
        rw [Base.name, same, String.ofList_toList]
        exact values_are_targets _ listed
      · exact .inr ⟨x, same⟩

theorem TypeName.noFunction (y : TypeName) : isFunctionType y.chars = false := by
  have absent {c : Char} (hc : isIdentChar c = false) {w : List Char} (hw : c ∈ w) :
      startsWith w y.chars = false := by
    rw [← Bool.not_eq_true, startsWith_iff]
    exact fun h => not_mem_of_letters y.idents hc (h.subset hw)
  rw [isFunctionType, absent (c := ' ') rfl (by decide), absent (c := '(') rfl (by decide)]
  rfl

theorem TypeName.noVector (y : TypeName) : vectorElement? y.chars = none :=
  noVector_of_idents y.idents

/-- A name is left as it is exactly if it is its own. -/
theorem TypeName.fixed_iff (y : TypeName) :
    unqualifiedText y.chars = y.chars ↔ isOwnName y.chars = true := by
  have read : unqualifiedText y.chars = baseText y.chars := by
    have core := unqualifiedText_core (.object (.named none y) (.stars 0))
    rw [Shape.core] at core
    exact (congrArg unqualifiedText (List.append_nil _).symm).trans core
  rw [read]
  refine ⟨fun h => ?_, baseText_of_isOwnName y.noFunction⟩
  rw [isOwnName, Bool.or_eq_true]
  by_cases target : targetPrimitives.contains (String.ofList y.chars) = true
  · exact .inl target
  · refine .inr ?_
    rw [baseText, if_neg target, y.noVector] at h
    cases found : primitiveTable.lookup (String.ofList y.chars) with
    | some name =>
        simp only [scalarName, found] at h
        rw [← h, String.ofList_toList, List.contains_iff_mem] at target
        exact absurd (values_are_targets _ (mem_of_lookup found)) target
    | none =>
        have func : ¬ startsWith "func ".toList y.chars = true := by
          intro start
          have none := y.noFunction
          rw [isFunctionType, start, Bool.true_or] at none
          cases none
        simp only [scalarName, found, Ident.typeNameChars, if_neg func] at h
        rw [y.noVector, capital_eq_self_iff.mp h]
        rfl

theorem isOwnName_of_target {p : List Char} (h : String.ofList p ∈ targetPrimitives) :
    isOwnName p = true := by
  rw [isOwnName, List.contains_iff_mem.mpr h, Bool.true_or]

theorem TypeName.head_capital (x : TypeName) {z : List Char} (hz : z <:+ x.chars)
    (h : z.head? ≠ some '_') :
    (capitalizeFirst z).head?.all (fun c => c ≠ '_' && capitalForm c = [c]) = true := by
  cases z with
  | nil => rfl
  | cons c z =>
      obtain ⟨d, form, _, own⟩ :=
        capitalForm_of_isNameChar (x.names c (hz.subset List.mem_cons_self))
      have other : d ≠ '_' := by
        rintro rfl
        exact h (congrArg some (eq_of_mem_capitalForm (by decide) (form ▸ List.mem_cons_self)))
      rw [capitalizeFirst, form]
      simp [other, own]

/-- A name without leading underscores is left as it is exactly if it is not in the table. -/
theorem TypeName.written_fixed_iff (x : TypeName) :
    unqualifiedText x.written.chars = x.written.chars ↔
      primitiveTable.lookup (String.ofList x.written.chars) = none := by
  have first : (Ident.dropUnderscores x.chars).head? ≠ some '_' := by
    intro h
    have stop := List.head?_dropWhile_not (· == '_') x.chars
    rw [Ident.dropUnderscores] at h
    rw [h] at stop
    cases stop
  have capital := x.head_capital (List.dropWhile_suffix _) first
  rw [x.written.fixed_iff, isOwnName, Bool.or_eq_true]
  constructor
  · rintro (target | other)
    · exact lookup_target _ (List.contains_iff_mem.mp target)
    · rw [Bool.and_eq_true, Bool.and_eq_true, Option.isNone_iff_eq_none] at other
      exact other.1.1
  · intro none
    refine .inr ?_
    rw [none, x.written.noVector]
    exact capital

theorem capitalizeFirst_ne_of_small {z p : List Char} (small : p.head?.all isSmall = true)
    (ne : p ≠ []) : capitalizeFirst z ≠ p := by
  rintro rfl
  cases z with
  | nil => exact ne rfl
  | cons c z =>
      obtain ⟨d, form, whole⟩ := List.exists_cons_of_ne_nil (capitalForm_ne_nil c)
      rw [capitalizeFirst, whole] at small
      exact not_mem_capitalForm small (whole ▸ List.mem_cons_self)

/-- A name with a capital is no name of the output. -/
theorem TypeName.capitalized_not_target (x : TypeName) :
    String.ofList x.capitalized.chars ∉ targetPrimitives := by
  have targets : ∀ p ∈ targetPrimitives,
      p.toList.contains '.' = true ∨ p.toList.head?.all isSmall = true ∧ p.toList ≠ [] := by decide
  intro listed
  rcases targets _ listed with dot | ⟨small, ne⟩
  · rw [String.toList_ofList, List.contains_iff_mem] at dot
    exact absurd (x.capitalized.names '.' dot) (by decide)
  · rw [String.toList_ofList] at small ne
    exact capitalizeFirst_ne_of_small small ne rfl

/-- A name with a capital is left as it is exactly if it does not start with an underscore and is
not in the table. -/
theorem TypeName.capitalized_fixed_iff (x : TypeName) :
    unqualifiedText x.capitalized.chars = x.capitalized.chars ↔
      x.chars.head? ≠ some '_' ∧
        primitiveTable.lookup (String.ofList x.capitalized.chars) = none := by
  have target : targetPrimitives.contains (String.ofList x.capitalized.chars) = false := by
    rw [← Bool.not_eq_true, List.contains_iff_mem]
    exact x.capitalized_not_target
  rw [x.capitalized.fixed_iff, isOwnName, target, Bool.false_or, x.capitalized.noVector,
    Bool.and_eq_true, Bool.and_eq_true, Option.isNone_iff_eq_none]
  constructor
  · rintro ⟨⟨none, _⟩, capital⟩
    refine ⟨fun underscore => ?_, none⟩
    obtain ⟨rest, chars⟩ := List.head?_eq_some_iff.mp underscore
    have same : x.capitalized.chars = '_' :: rest :=
      (congrArg capitalizeFirst chars).trans rfl
    rw [same] at capital
    exact absurd capital (by simp)
  · rintro ⟨first, none⟩
    exact ⟨⟨none, rfl⟩, x.head_capital (List.suffix_refl _) first⟩

end Bases

section Marks

variable {s r : List Char}

theorem unqualifiedText_signs (tight : Tight s) (n : Nat) :
    unqualifiedText (List.replicate n '&' ++ s) = List.replicate n '&' ++ unqualifiedText s := by
  induction n with
  | zero => rfl
  | succ n ih =>
      have signs : LastIs (isBlank · = false) (List.replicate (n + 1) '&') := by
        intro c hc
        rw [List.eq_of_mem_replicate (List.mem_of_getLast? hc)]
        rfl
      have whole : Tight ('&' :: (List.replicate n '&' ++ s)) :=
        ⟨headIs_cons (by decide) _, signs.append tight.last⟩
      rw [List.replicate_succ, List.cons_append, unqualifiedText_sign whole, ih, List.cons_append]

theorem leadingBrackets?_digits {digits : List Char} (h : digits.all Char.isDigit = true)
    (t : List Char) :
    leadingBrackets? true (digits ++ ']' :: t) =
      (leadingBrackets? false t).map fun p => (digits ++ ']' :: p.1, p.2) := by
  induction digits with
  | nil => rfl
  | cons c digits ih =>
      rw [List.all_cons, Bool.and_eq_true] at h
      have other : c ≠ ']' := by
        rintro rfl
        exact absurd h.1 (by decide)
      rw [List.cons_append, leadingBrackets?, if_pos rfl, decide_eq_true other, ih h.2,
        Option.map_map]
      rfl

theorem leadingBrackets?_dims (ds : List Dimension) (hr : HeadIs (· ≠ '[') r) :
    leadingBrackets? false (ds.flatMap Dimension.text ++ r) =
      some (ds.flatMap Dimension.text, r) := by
  induction ds with
  | nil =>
      cases r with
      | nil => rfl
      | cons c r =>
          rw [List.flatMap_nil, List.nil_append, leadingBrackets?, if_neg Bool.false_ne_true,
            if_neg (hr c rfl)]
  | cons d ds ih =>
      have text : (d :: ds).flatMap Dimension.text ++ r =
          '[' :: (d.digits ++ ']' :: (ds.flatMap Dimension.text ++ r)) := by
        simp [List.flatMap_cons, Dimension.text]
      rw [text, leadingBrackets?, if_neg Bool.false_ne_true, if_pos rfl,
        leadingBrackets?_digits d.isNumber, ih]
      simp [List.flatMap_cons, Dimension.text]

/-- Dimensions are kept. -/
theorem unqualifiedText_dimensions (e : Ending) (tight : Tight r) (hr : HeadIs (· ≠ '[') r) :
    unqualifiedText (e.dims ++ r) = e.dims ++ unqualifiedText r := by
  cases e with
  | stars | constStars => rfl
  | array count first rest =>
      have found : leadingDimensions? (Ending.dims (.array count first rest) ++ r) =
          some (Ending.dims (.array count first rest), r) :=
        (if_pos rfl).trans (leadingBrackets?_dims (first :: rest) hr)
      obtain ⟨closed, _⟩ := bracketed_of_leadingDimensions? found
      have whole : Tight (Ending.dims (.array count first rest) ++ r) :=
        ⟨closed.first.append_left closed.ne_nil _, closed.last.append tight.last⟩
      exact unqualifiedText_dims whole found

end Marks

/-- The names of the output are settled. -/
theorem settled_target : ∀ p ∈ targetPrimitives, Settled p.toList := by
  have ends : ∀ p ∈ targetPrimitives, p.toList.head?.all (fun c => !isBlank c) = true ∧
      p.toList.getLast?.all (fun c => !isBlank c) = true := by decide
  have marks : ∀ p ∈ targetPrimitives, isFunctionType p.toList = false ∧
      afterStart? "&".toList p.toList = none ∧ leadingDimensions? p.toList = none ∧
      enumName? p.toList = none ∧ isSignature p.toList = false := by decide +kernel
  intro p listed
  obtain ⟨function, sign, dims, enum, signature⟩ := marks p listed
  refine .name ⟨tight_of_ends (ends p listed).1 (ends p listed).2, function, sign, dims, enum⟩
    signature (ofText_target p listed) (isOwnName_of_target ?_)
  rwa [String.ofList_toList]

namespace Base

variable (base : Base)

theorem written_chars : ∀ c ∈ baseText base.name, isNameChar c = true ∨ c = '.' := by
  have targets : ∀ p ∈ targetPrimitives,
      p.toList.all (fun c => isNameChar c || c == '.') = true := by decide
  intro c hc
  rcases baseText_base base with listed | ⟨x, same⟩
  · have letters := targets _ listed
    rw [String.toList_ofList] at letters
    have letter := List.all_eq_true.mp letters c hc
    rwa [Bool.or_eq_true, beq_iff_eq] at letter
  · rw [same] at hc
    exact .inl (x.written.names c hc)

theorem written_tight : Tight (baseText base.name) := by
  rcases baseText_base base with listed | ⟨x, same⟩
  · have tight := (settled_target _ listed).tight
    rwa [String.toList_ofList] at tight
  · rw [same]
    exact tight_of_idents x.written.idents

/-- A base is left as it is exactly if it is not written as a name of the table. -/
theorem written_fixed_iff :
    unqualifiedText (baseText base.name) = baseText base.name ↔
      primitiveTable.lookup (String.ofList (baseText base.name)) = none := by
  rcases baseText_base base with listed | ⟨x, same⟩
  · have fixed := (settled_target _ listed).fixed
    rw [String.toList_ofList] at fixed
    exact iff_of_true fixed (lookup_target _ listed)
  · rw [same]
    exact x.written_fixed_iff

end Base

end VFromC.Spelling
