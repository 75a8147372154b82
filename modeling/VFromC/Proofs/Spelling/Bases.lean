import VFromC.Proofs.Spelling.Joints
/-!
The bases of printed types: their names are not taken for anything else, with the word of a record
before them or without it.
-/
namespace VFromC.Spelling
open VFromC.Text

def isBaseChar (c : Char) : Bool := isNameChar c || c == ' ' || c == '.'

/-- What is asked of the name of a base. -/
structure IsBaseName (s : List Char) : Prop where
  chars : s.all isBaseChar = true
  first : s.head?.any isNameChar = true
  last : s.getLast?.any isNameChar = true
  words : droppedWords.all (fun w => !endsWith w s && !contains (w ++ [' ']) s) = true
  solid : s.any (· ≠ '_') = true
  tag : contains "__va_list_tag".toList s = false
  start : leadWords.contains (String.ofList (firstWord s)) = false

instance (s : List Char) : Decidable (IsBaseName s) :=
  decidable_of_iff
    (s.all isBaseChar = true ∧ s.head?.any isNameChar = true ∧ s.getLast?.any isNameChar = true ∧
      droppedWords.all (fun w => !endsWith w s && !contains (w ++ [' ']) s) = true ∧
      s.any (· ≠ '_') = true ∧ contains "__va_list_tag".toList s = false ∧
      leadWords.contains (String.ofList (firstWord s)) = false)
    ⟨fun ⟨chars, first, last, words, solid, tag, start⟩ =>
      ⟨chars, first, last, words, solid, tag, start⟩,
      fun h => ⟨h.chars, h.first, h.last, h.words, h.solid, h.tag, h.start⟩⟩

theorem isBaseName_primitive : ∀ p ∈ primitiveSpellings, IsBaseName p.toList := by
  decide +kernel

/-- The code points of blanks. -/
def blankCodes : List Nat :=
  List.range' 9 5 ++ [0x20, 0x85, 0xA0, 0x1680] ++ List.range' 0x2000 11 ++
    [0x2028, 0x2029, 0x202F, 0x205F, 0x3000]

theorem mem_blankCodes {c : Char} (h : isBlank c = true) : c.toNat ∈ blankCodes := by
  simp only [isBlank, Bool.or_eq_true, Bool.and_eq_true, decide_eq_true_eq, beq_iff_eq] at h
  simp only [blankCodes, List.mem_append, List.mem_cons, List.not_mem_nil, or_false,
    List.mem_range'_1]
  omega

theorem isBlank_of_isNameChar {c : Char} (h : isNameChar c = true) : isBlank c = false := by
  have codes : ∀ n ∈ blankCodes, isNameChar (Char.ofNat n) = false := by decide
  rw [← Bool.not_eq_true]
  intro blank
  have outside := codes c.toNat (mem_blankCodes blank)
  rw [Char.ofNat_toNat] at outside
  exact not_outside h outside

theorem tight_of_letters {s : List Char} (first : s.head?.any isNameChar = true)
    (last : s.getLast?.any isNameChar = true) : Tight s where
  first c hc := isBlank_of_isNameChar (by rwa [hc] at first)
  last c hc := isBlank_of_isNameChar (by rwa [hc] at last)

theorem ne_of_isNameChar {c d : Char} (hc : isNameChar c = true) (hd : isNameChar d = false) :
    c ≠ d := by
  rintro rfl
  exact not_outside hc hd

theorem TypeName.names (x : TypeName) : ∀ c ∈ x.chars, isNameChar c = true := by
  have h := x.isName
  simp only [isTypeName, Bool.and_eq_true] at h
  exact List.all_eq_true.mp h.1.1.1.1

theorem TypeName.ne_nil (x : TypeName) : x.chars ≠ [] := by
  intro hx
  have h := x.isName
  rw [hx] at h
  exact absurd h (by decide)

theorem isBaseName_typeName (x : TypeName) : IsBaseName x.chars := by
  have h := x.isName
  simp only [isTypeName, Bool.and_eq_true, Bool.not_eq_true', List.all_eq_true] at h
  obtain ⟨⟨⟨⟨names, solid⟩, keywords⟩, tag⟩, ends⟩ := h
  have first := List.head_mem x.ne_nil
  have last := List.getLast_mem x.ne_nil
  refine ⟨?_, ?_, ?_, ?_, solid, tag, ?_⟩
  · refine List.all_eq_true.mpr fun c hc => ?_
    rw [isBaseChar, names c hc, Bool.true_or, Bool.true_or]
  · rw [List.head?_eq_some_head x.ne_nil]
    exact names _ first
  · rw [List.getLast?_eq_getLast_of_ne_nil x.ne_nil]
    exact names _ last
  · refine List.all_eq_true.mpr fun w hw => ?_
    have absent : contains (w ++ [' ']) x.chars = false := by
      rw [← Bool.not_eq_true, contains_iff_within]
      intro within
      have blank := within.subset (List.mem_append_right w List.mem_cons_self)
      exact ne_of_isNameChar (names _ blank) rfl rfl
    rw [ends w hw, absent]
    rfl
  · rw [firstWord, List.takeWhile_eq_self_iff.mpr names]
    exact keywords

namespace IsBaseName

variable {s w : List Char}

theorem not_suffix (h : IsBaseName s) (hw : w ∈ droppedWords) : ¬ w <:+ s := by
  have listed := List.all_eq_true.mp h.words w hw
  rw [Bool.and_eq_true, Bool.not_eq_true', endsWith, ← Bool.not_eq_true,
    List.isSuffixOf_iff_suffix] at listed
  exact listed.1

theorem not_within (h : IsBaseName s) (hw : w ∈ droppedWords) : ¬ w ++ [' '] <:+: s := by
  have listed := List.all_eq_true.mp h.words w hw
  rw [Bool.and_eq_true, Bool.not_eq_true', Bool.not_eq_true', ← Bool.not_eq_true (contains _ _),
    contains_iff_within] at listed
  exact listed.2

theorem ne_nil (h : IsBaseName s) : s ≠ [] := by
  rintro rfl
  exact absurd h.first (by decide)

theorem tight (h : IsBaseName s) : Tight s := tight_of_letters h.first h.last

end IsBaseName

/-- The words of records, each with the blank behind it. -/
def recordStarts : List (List Char) := [[], "struct ".toList, "union ".toList]

namespace Base

variable (base : Base)

theorem isBaseName_name : IsBaseName base.name := by
  cases base with
  | primitive p listed => exact isBaseName_primitive p listed
  | named record x => exact isBaseName_typeName x

theorem text_eq : ∃ start ∈ recordStarts, base.text = start ++ base.name := by
  rcases base with ⟨p, listed⟩ | ⟨_ | record, x⟩
  · exact ⟨[], by decide, rfl⟩
  · exact ⟨[], by decide, rfl⟩
  · cases record with
    | struct => exact ⟨"struct ".toList, by decide, rfl⟩
    | union => exact ⟨"union ".toList, by decide, rfl⟩

theorem outside_start {start : List Char} (h : start ∈ recordStarts) : LastIs Outside start := by
  have all : ∀ start ∈ recordStarts, start = [] ∨ start.getLast? = some ' ' := by decide
  rcases all start h with rfl | last
  · exact lastIs_nil
  · intro c hc
    rw [last] at hc
    cases hc
    rfl

theorem chars_text : ∀ c ∈ base.text, isBaseChar c = true := by
  obtain ⟨start, hs, same⟩ := base.text_eq
  have all : ∀ start ∈ recordStarts, start.all isBaseChar = true := by decide
  intro c hc
  rw [same, List.mem_append] at hc
  rcases hc with hc | hc
  · exact List.all_eq_true.mp (all start hs) c hc
  · exact List.all_eq_true.mp base.isBaseName_name.chars c hc

theorem first_text : base.text.head?.any isNameChar = true := by
  obtain ⟨start, hs, same⟩ := base.text_eq
  have all : ∀ start ∈ recordStarts, start = [] ∨ start.head?.any isNameChar = true := by decide
  rw [same]
  rcases all start hs with rfl | first
  · exact base.isBaseName_name.first
  · cases start with
    | nil => exact absurd first (by decide)
    | cons c start => exact first

theorem last_text : base.text.getLast?.any isNameChar = true := by
  obtain ⟨start, hs, same⟩ := base.text_eq
  rw [same, List.getLast?_append_of_ne_nil start base.isBaseName_name.ne_nil]
  exact base.isBaseName_name.last

theorem tight_text : Tight base.text := tight_of_letters base.first_text base.last_text

theorem ne_nil_text : base.text ≠ [] := by
  intro h
  have first := base.first_text
  rw [h] at first
  cases first

theorem not_suffix_text {w : List Char} (hw : w ∈ droppedWords) : ¬ w <:+ base.text := by
  obtain ⟨start, hs, same⟩ := base.text_eq
  rw [same]
  exact fun h => base.isBaseName_name.not_suffix hw
    (suffix_of_outside_append (outside_start hs) (droppedWords_names w hw).2 h)

/-- The words of qualifiers are not inside of a base. -/
theorem not_within_text {w : List Char} (hw : w ∈ qualifierWords) :
    ¬ w ++ [' '] <:+: base.text := by
  obtain ⟨start, hs, same⟩ := base.text_eq
  have all : ∀ w ∈ qualifierWords, ∀ start ∈ recordStarts, ¬ w ++ [' '] <:+: start := by
    decide
  have hd : w ∈ droppedWords := List.mem_append_left _ hw
  rw [same]
  intro h
  have joint : Joint start base.name := .inl (outside_start hs)
  rcases infix_append_cases (joint.not_straddles_word hd) h with within | within
  · exact all w hw start hs within
  · exact base.isBaseName_name.not_within hd within

theorem no_tag_text : ¬ "__va_list_tag".toList <:+: base.text := by
  obtain ⟨start, hs, same⟩ := base.text_eq
  have all : ∀ start ∈ recordStarts, ¬ "__va_list_tag".toList <:+: start := by decide
  rw [same]
  intro h
  have joint : Joint start base.name := .inl (outside_start hs)
  rcases infix_append_cases (joint.not_straddles_names (by decide)) h with within | within
  · exact all start hs within
  · rw [← contains_iff_within, base.isBaseName_name.tag] at within
    cases within

/-- No type starts with a word that means something else. -/
theorem firstWord_text {w : List Char} (hw : w ∈ ["func".toList, "enum".toList]) :
    firstWord base.text ≠ w := by
  obtain ⟨start, hs, same⟩ := base.text_eq
  have all : ∀ start ∈ recordStarts, start = [] ∨
      start = firstWord start ++ [' '] ∧ firstWord start ∉ ["func".toList, "enum".toList] := by
    decide
  have lead : ∀ w ∈ ["func".toList, "enum".toList],
      leadWords.contains (String.ofList w) = true := by
    decide
  rw [same]
  rcases all start hs with rfl | ⟨whole, other⟩
  · rintro rfl
    have listed := lead _ hw
    rw [List.nil_append, base.isBaseName_name.start] at listed
    cases listed
  · have front : firstWord start ++ [' '] <+: start ++ base.name := ⟨base.name, by rw [← whole]⟩
    have letters : (firstWord start).all isNameChar = true :=
      List.all_eq_true.mpr fun c hc => List.mem_takeWhile_imp hc
    rw [firstWord_of_start letters rfl front]
    rintro rfl
    exact other hw

theorem not_signed_name {t : List Char} (ht : HeadIs Outside t) :
    afterStart? "signed ".toList (base.name ++ t) = none := by
  rw [Option.eq_none_iff_forall_ne_some]
  intro rest h
  have front : "signed".toList ++ [' '] <+: base.name ++ t :=
    ⟨rest, (afterStart?_eq_some.mp h).symm⟩
  have first := firstWord_of_start (by decide) rfl front
  rw [firstWord_append ht] at first
  have start := base.isBaseName_name.start
  rw [first] at start
  exact absurd start (by decide)

/-- The word of a record is dropped. -/
theorem stripRecordWords_text {t : List Char} (ht : Joint base.name t)
    (letters : ∀ c ∈ t, isNameChar c = false) :
    stripRecordWords (base.text ++ t) = base.name ++ t := by
  have dropped {w start : List Char} (hw : w ∈ droppedWords) (hs : start ∈ recordStarts) :
      replaceAll (w ++ [' ']) [] (start ++ (base.name ++ t)) =
        replaceAll (w ++ [' ']) [] start ++ (base.name ++ t) := by
    have joint : Joint start (base.name ++ t) := .inl (outside_start hs)
    rw [replaceAll_append (joint.not_straddles_word hw),
      replaceAll_append (ht.not_straddles_word hw),
      replaceAll_of_absent (base.isBaseName_name.not_within hw),
      replaceAll_of_absent (not_within_of_no_letter hw letters)]
  obtain ⟨start, hs, same⟩ := base.text_eq
  have first : ∀ start ∈ recordStarts, replaceAll "struct ".toList [] start ∈ recordStarts := by
    decide
  have second : ∀ start ∈ recordStarts,
      replaceAll "union ".toList [] (replaceAll "struct ".toList [] start) = [] := by
    decide
  have bare : replaceAll "union ".toList [] (replaceAll "struct ".toList [] (base.text ++ t)) =
      base.name ++ t := by
    rw [same, List.append_assoc]
    refine (congrArg _ (dropped (w := "struct".toList) (by decide) hs)).trans ?_
    refine (dropped (w := "union".toList) (by decide) (first start hs)).trans ?_
    exact congrArg (· ++ (base.name ++ t)) (second start hs)
  have outside : HeadIs Outside t := fun c hc => letters c (List.mem_of_mem_head? hc)
  rw [stripRecordWords, bare, base.not_signed_name outside]
  rfl

end Base

end VFromC.Spelling
