import VFromC.Proofs.Spelling.Starred
/-!
When a star is a sign.

Each star behind a named base is a sign before the type of the base, unless a rule reads the base
with stars in another way than the base alone: the rule for enumerations is off, a name that ends in
a dropped word loses it, `func` starts a function type, and the tag of argument lists hides the
stars.
-/
namespace VFromC.Spelling
open VFromC.Text

def NamedBase.spelling (b : NamedBase) : String := String.ofList b.text

/-- A named base with a blank and stars behind it. -/
def NamedBase.starred (b : NamedBase) (stars : Nat) : String :=
  b.spelling ++ " " ++ String.ofList (List.replicate stars '*')

/-- Stars behind the base are read as stars on what the base alone means. -/
def NamedBase.isPointable (b : NamedBase) : Bool :=
  b.tag ≠ some .enum && !(b.tag = none && b.name.chars = "func".toList) &&
    !contains "__va_list_tag".toList b.name.chars &&
    droppedWords.all fun w => !endsWith w b.name.chars

theorem NamedBase.isPointable_iff (b : NamedBase) :
    b.isPointable = true ↔
      b.tag ≠ some .enum ∧ ¬ (b.tag = none ∧ b.name.chars = "func".toList) ∧
        ¬ contains "__va_list_tag".toList b.name.chars = true ∧
        ∀ w ∈ droppedWords, ¬ w <:+ b.name.chars := by
  simp only [NamedBase.isPointable, Bool.and_eq_true, decide_eq_true_eq, Bool.not_eq_true',
    Bool.and_eq_false_iff, decide_eq_false_iff_not, not_and_or, List.all_eq_true, endsWith,
    ← Bool.not_eq_true (List.isSuffixOf _ _), List.isSuffixOf_iff_suffix, Bool.not_eq_true,
    and_assoc]

section Tag

variable {tag : Option TagWord} {x : List Char}

theorem contains_tag_tagStart (t : List Char) :
    contains "__va_list_tag".toList (tagStart tag ++ t) = contains "__va_list_tag".toList t := by
  cases tag with
  | none => rfl
  | some word =>
      have absent : ¬ "__va_list_tag".toList <:+: word.word := by cases word <;> decide
      have text : tagStart (some word) ++ t = word.word ++ ' ' :: t := List.append_assoc ..
      rw [Bool.eq_iff_iff, contains_iff_within, contains_iff_within, text,
        infix_append_cons (by decide) (by decide)]
      exact or_iff_right absent

theorem contains_tag_stars (x : List Char) (n : Nat) :
    contains "__va_list_tag".toList (x ++ [' '] ++ List.replicate n '*') =
      contains "__va_list_tag".toList x := by
  have absent : ¬ "__va_list_tag".toList <:+: List.replicate n '*' := fun h =>
    not_mem_stars (n := n) (c := '_') (by decide) (h.subset (by decide))
  rw [Bool.eq_iff_iff, contains_iff_within, contains_iff_within, List.append_assoc,
    List.singleton_append, infix_append_cons (by decide) (by decide)]
  exact or_iff_left absent

end Tag

theorem keptTag_of_ne {tag : Option TagWord} (h : tag ≠ some .enum) : keptTag tag = none := by
  revert h
  rcases tag with _ | _ | _ | _ <;> decide

section Named

variable (b : NamedBase)

theorem NamedBase.text_eq : b.text = starText b.tag b.name.chars 0 := by
  rw [starText, List.replicate_zero, List.append_nil]
  rfl

theorem NamedBase.text_stars (n : Nat) :
    b.text ++ [' '] ++ List.replicate n '*' = starText b.tag (b.name.chars ++ [' ']) n := by
  rw [NamedBase.text, starText, List.append_assoc, List.append_assoc, List.append_assoc]

/-- What a named base means on its own. -/
theorem typeText_named :
    typeText b.text =
      if contains "__va_list_tag".toList b.name.chars then "va_list".toList
      else if b.tag = some .enum then capitalizeFirst b.name.chars
      else baseText b.name.chars := by
  have worn : Worn b.name b.name.chars := .inl rfl
  have tag : contains "__va_list_tag".toList b.text =
      contains "__va_list_tag".toList b.name.chars := contains_tag_tagStart _
  have tight := tight_starText (n := 0) b.tag worn.trailing fun _ => b.name.no_blank
  rw [← b.text_eq] at tight
  split
  · rename_i list
    rw [typeText, tight.trim_eq, tag, if_pos list]
  · rename_i list
    rw [← tag, b.text_eq, Bool.not_eq_true] at list
    rw [b.text_eq, typeText_starText worn (fun _ => rfl) (fun _ other => absurd rfl other) list,
      dropWords_of_no_blank b.name.no_blank, dropWords_of_no_blank b.name.no_blank,
      (stem_of_letters b.name.letters).1]
    by_cases enum : b.tag = some .enum
    · rw [if_pos enum, enum, enumName?_enum]
    · rw [if_neg enum, enumName?_starText worn fun same => absurd same enum, keptTag_of_ne enum]
      rfl

/-- What is left of a base when stars follow. -/
def NamedBase.left : List Char :=
  tagStart (keptTag b.tag) ++ stem (dropWords droppedWords (b.name.chars ++ [' ']))

/-- What a named base means with stars behind it. -/
theorem typeText_pointer (more : Nat) :
    typeText (b.text ++ [' '] ++ List.replicate (more + 1) '*') =
      if contains "__va_list_tag".toList b.name.chars then "va_list".toList
      else if b.tag = none ∧ b.name.chars = "func".toList then
        "func ".toList ++ List.replicate (more + 1) '*'
      else pointing (more + 1) (baseText b.left) := by
  have worn : Worn b.name (b.name.chars ++ [' ']) :=
    .inr ⟨[], fun w hw => absurd hw List.not_mem_nil, rfl⟩
  have several : more + 1 = 0 → b.name.chars ++ [' '] = b.name.chars := fun h => by cases h
  have tag : contains "__va_list_tag".toList (starText b.tag (b.name.chars ++ [' ']) (more + 1)) =
      contains "__va_list_tag".toList b.name.chars :=
    (contains_tag_tagStart _).trans (contains_tag_stars _ _)
  have tight := tight_starText (n := more + 1) b.tag worn.trailing fun h => by cases h
  rw [b.text_stars]
  split
  · rename_i list
    rw [typeText, tight.trim_eq, tag, if_pos list]
  · rename_i list
    rw [← tag, Bool.not_eq_true] at list
    split
    · rename_i func
      have text : starText b.tag (b.name.chars ++ [' ']) (more + 1) =
          "func ".toList ++ List.replicate (more + 1) '*' := by
        rw [func.1, func.2]
        rfl
      have kept : dropWords qualifierWords (b.name.chars ++ [' ']) = b.name.chars ++ [' '] := by
        rw [func.2]
        decide
      have function :
          isFunctionType (starText b.tag (b.name.chars ++ [' ']) (more + 1)) = true := by
        rw [text]
        rfl
      have whole : unqualifiedText (starText b.tag (b.name.chars ++ [' ']) (more + 1)) =
          starText b.tag (b.name.chars ++ [' ']) (more + 1) := by
        rw [unqualifiedText, tight.trim_eq, if_pos function]
      rw [typeText, tight.trim_eq, if_neg (Bool.eq_false_iff.mp list),
        stripQualifiers_starText worn several, kept, opaquePointer?_starText worn]
      exact whole.trans text
    · rename_i other
      rw [typeText_starText worn several (fun none _ func => other ⟨none, func⟩) list,
        enumName?_starText (worn.dropWords (by decide)) fun _ h => by cases h]
      rfl

end Named

/-- Signs are written one by one, but one sign on `void` is in its name. -/
theorem pointing_eq_signs {more : Nat} {s t : List Char} :
    pointing (more + 1) s = List.replicate (more + 1) '&' ++ t ↔ s ≠ "void".toList ∧ s = t := by
  rw [pointing]
  split
  · rename_i void
    refine iff_of_false (fun same => ?_) fun h => h.1 void
    rw [List.replicate_succ', List.append_assoc] at same
    exact absurd (List.append_cancel_left same) (by simp)
  · rename_i other
    rw [List.append_cancel_left_eq]
    exact ⟨fun same => ⟨other, same⟩, fun h => h.2⟩

section Bases

variable {x z w : List Char}

theorem noVector_of_not_start (h : ¬ "vector<".toList <+: x) : vectorElement? x = none := by
  rw [vectorElement?, afterStart?_eq_none.mpr h]
  rfl

theorem noVector_of_idents (hx : x.all isIdentChar = true) : vectorElement? x = none :=
  noVector_of_not_start fun start =>
    not_mem_of_letters hx (d := '<') rfl (start.subset (by decide))

/-- A name is of the output, is in the table, or is capitalised. -/
theorem baseText_cases (hx : x.all isIdentChar = true) :
    (String.ofList x ∈ targetPrimitives ∧ baseText x = x) ∨
      (∃ name, (String.ofList x, name) ∈ primitiveTable ∧ baseText x = name.toList) ∨
      baseText x = capitalizeFirst (Ident.dropUnderscores x) := by
  have vector : vectorElement? x = none := noVector_of_idents hx
  have func : ¬ startsWith "func ".toList x = true := by
    rw [startsWith_iff]
    exact fun h => not_mem_of_letters hx (d := ' ') rfl (h.subset (by decide))
  rw [baseText, vector]
  split
  · rename_i listed
    exact .inl ⟨List.contains_iff_mem.mp listed, rfl⟩
  · refine .inr ?_
    cases found : primitiveTable.lookup (String.ofList x) with
    | some name => exact .inl ⟨name, mem_of_lookup found, by rw [scalarName, found]⟩
    | none => exact .inr (by rw [scalarName, found, Ident.typeNameChars, if_neg func])

/-- Only `void` is written as `void`. -/
theorem baseText_ne_void (hx : x.all isIdentChar = true) (other : x ≠ "void".toList) :
    baseText x ≠ "void".toList := by
  have rows : ∀ row ∈ primitiveTable, row.2.toList ≠ "void".toList := by decide
  rcases baseText_cases hx with ⟨_, same⟩ | ⟨name, listed, same⟩ | same
  · rw [same]
    exact other
  · rw [same]
    exact rows _ listed
  · rw [same]
    cases Ident.dropUnderscores x with
    | nil => decide
    | cons c rest =>
        intro void
        rw [capitalizeFirst] at void
        obtain ⟨d, form, whole⟩ := List.exists_cons_of_ne_nil (capitalForm_ne_nil c)
        rw [whole, List.cons_append] at void
        have first : d = 'v' := (List.cons.inj void).1
        refine not_mem_capitalForm (c := c) (d := 'v') (by decide) ?_
        rw [whole, first]
        exact List.mem_cons_self

theorem dropUnderscores_append (h : Ident.dropUnderscores z ≠ []) (w : List Char) :
    Ident.dropUnderscores (z ++ w) = Ident.dropUnderscores z ++ w := by
  rw [Ident.dropUnderscores, List.dropWhile_append, if_neg]
  · rfl
  · rw [List.isEmpty_iff]
    exact h

theorem capitalizeFirst_append (h : z ≠ []) (w : List Char) :
    capitalizeFirst (z ++ w) = capitalizeFirst z ++ w := by
  obtain ⟨c, rest, rfl⟩ := List.exists_cons_of_ne_nil h
  exact (List.append_assoc (capitalForm c) rest w).symm

/-- A name that ends in a word is written with this word, but perhaps for its first letter. -/
theorem tail_suffix_of_suffix (start : w.head? ≠ some '_') :
    w.tail <:+ capitalizeFirst (Ident.dropUnderscores (z ++ w)) := by
  by_cases h : Ident.dropUnderscores z = []
  · have none : (z.dropWhile (· == '_')).isEmpty = true := List.isEmpty_iff.mpr h
    have word : Ident.dropUnderscores (z ++ w) = w := by
      rw [Ident.dropUnderscores, List.dropWhile_append, if_pos none]
      cases w with
      | nil => rfl
      | cons c w =>
          refine List.dropWhile_cons_of_neg fun same => start ?_
          rw [beq_iff_eq.mp same]
          rfl
    rw [word]
    cases w with
    | nil => exact List.nil_suffix
    | cons c w => exact List.suffix_append (capitalForm c) w
  · rw [dropUnderscores_append h, capitalizeFirst_append h]
    exact (List.tail_suffix w).trans (List.suffix_append _ w)

/-- A name that ends in a dropped word is another type without it. -/
theorem baseText_ne_of_suffix (hw : w ∈ droppedWords) (hx : (z ++ w).all isIdentChar = true) :
    baseText z ≠ baseText (z ++ w) := by
  have words : ∀ w ∈ droppedWords, w.tail ≠ [] ∧ w.head? ≠ some '_' := by decide
  have targets : ∀ w ∈ droppedWords, ∀ p ∈ targetPrimitives, ¬ w.tail <:+ p.toList := by decide
  have keys : ∀ w ∈ droppedWords, ∀ row ∈ primitiveTable, ¬ w <:+ row.1.toList := by decide +kernel
  have values : ∀ w ∈ droppedWords, ∀ row ∈ primitiveTable, ¬ w.tail <:+ row.2.toList := by
    decide +kernel
  have behind : w <:+ z ++ w := List.suffix_append z w
  have long : baseText (z ++ w) = capitalizeFirst (Ident.dropUnderscores (z ++ w)) := by
    rcases baseText_cases hx with ⟨listed, _⟩ | ⟨name, listed, _⟩ | same
    · refine absurd ((List.tail_suffix w).trans behind) ?_
      have none := targets w hw _ listed
      rwa [String.toList_ofList] at none
    · have none := keys w hw _ listed
      rw [String.toList_ofList] at none
      exact absurd behind none
    · exact same
  have tail : w.tail <:+ baseText (z ++ w) := by
    rw [long]
    exact tail_suffix_of_suffix (words w hw).2
  have short : z.all isIdentChar = true := by
    rw [List.all_append, Bool.and_eq_true] at hx
    exact hx.1
  intro same
  rw [← same] at tail
  rcases baseText_cases short with ⟨listed, own⟩ | ⟨name, listed, own⟩ | own
  · have none := targets w hw _ listed
    rw [String.toList_ofList, ← own] at none
    exact none tail
  · rw [own] at tail
    exact values w hw _ listed tail
  · by_cases h : Ident.dropUnderscores z = []
    · rw [own, h] at tail
      exact (words w hw).1 (List.suffix_nil.mp tail)
    · rw [own, long, dropUnderscores_append h, capitalizeFirst_append h,
        List.self_eq_append_right] at same
      exact (words w hw).1 (congrArg List.tail same)

end Bases

/-- The word of an enumeration is taken for a part of its name when stars follow. -/
theorem blank_mem_baseText_enum (t : List Char) : ' ' ∈ baseText ("enum ".toList ++ t) := by
  have targets : ∀ p ∈ targetPrimitives, ¬ "enum ".toList <+: p.toList := by decide
  have keys : ∀ row ∈ primitiveTable, ¬ "enum ".toList <+: row.1.toList := by decide
  have chars : (String.ofList ("enum ".toList ++ t)).toList = "enum ".toList ++ t :=
    String.toList_ofList
  have start : "enum ".toList <+: (String.ofList ("enum ".toList ++ t)).toList := by
    rw [chars]
    exact List.prefix_append _ t
  have target : ¬ targetPrimitives.contains (String.ofList ("enum ".toList ++ t)) = true :=
    fun listed => targets _ (List.contains_iff_mem.mp listed) start
  have key : primitiveTable.lookup (String.ofList ("enum ".toList ++ t)) = none := by
    rw [Option.eq_none_iff_forall_ne_some]
    exact fun name found => keys _ (mem_of_lookup found) start
  rw [baseText, if_neg target]
  have vector : vectorElement? ("enum ".toList ++ t) = none := rfl
  rw [vector]
  simp only [scalarName, key]
  have name : Ident.typeNameChars ("enum ".toList ++ t) = capitalForm 'e' ++ ("num ".toList ++ t) :=
    rfl
  rw [name]
  exact List.mem_append_right _ (List.mem_append_left t (by decide))

theorem blank_not_mem_capitalizeFirst {x : List Char} (h : ' ' ∉ x) : ' ' ∉ capitalizeFirst x := by
  cases x with
  | nil => exact h
  | cons c x =>
      intro blank
      rcases List.mem_append.mp blank with form | rest
      · rw [eq_of_mem_capitalForm (by decide) form] at h
        exact h List.mem_cons_self
      · exact h (List.mem_cons_of_mem c rest)

/-- A name of a record or an alias keeps its stars exactly if it ends in no dropped word. -/
theorem baseText_stem_iff (id : Identifier) :
    (baseText (stem (dropWords droppedWords (id.chars ++ [' ']))) ≠ "void".toList ∧
        baseText (stem (dropWords droppedWords (id.chars ++ [' ']))) = baseText id.chars) ↔
      ∀ w ∈ droppedWords, ¬ w <:+ id.chars := by
  rcases dropWords_cases id.no_blank droppedWords with ⟨same, none⟩ | ⟨w, hw, same⟩
  · rw [same, (stem_of_letters id.letters).2]
    refine iff_of_true ⟨?_, rfl⟩ none
    exact baseText_ne_void id.letters (id.ne_keyword (by decide))
  · have letters := id.letters
    rw [same] at letters
    have front : (dropWords droppedWords (id.chars ++ [' '])).all isIdentChar = true := by
      rw [List.all_append, Bool.and_eq_true] at letters
      exact letters.1
    rw [(stem_of_letters front).1]
    refine iff_of_false (fun h => ?_) fun h => h w hw ⟨_, same.symm⟩
    have other := baseText_ne_of_suffix hw letters
    rw [← same] at other
    exact other h.2

/-- Stars behind a named base are signs before its type exactly if the base is pointable. -/
theorem stars_are_signs_iff (b : NamedBase) (more : Nat) :
    typeOf (b.starred (more + 1)) =
        String.ofList (List.replicate (more + 1) '&') ++ typeOf b.spelling ↔
      b.isPointable = true := by
  have chars : (b.starred (more + 1)).toList =
      b.text ++ [' '] ++ List.replicate (more + 1) '*' := by
    simp only [NamedBase.starred, NamedBase.spelling, String.toList_append, String.toList_ofList]
    rfl
  have texts : typeOf (b.starred (more + 1)) =
        String.ofList (List.replicate (more + 1) '&') ++ typeOf b.spelling ↔
      typeText (b.text ++ [' '] ++ List.replicate (more + 1) '*') =
        List.replicate (more + 1) '&' ++ typeText b.text := by
    rw [typeOf_eq, typeOf_eq, chars, NamedBase.spelling, String.toList_ofList,
      ← String.ofList_append, String.ofList_inj]
  rw [texts, typeText_pointer, typeText_named, b.isPointable_iff]
  by_cases list : contains "__va_list_tag".toList b.name.chars = true
  · refine iff_of_false (fun same => ?_) fun h => h.2.2.1 list
    rw [if_pos list, if_pos list] at same
    exact absurd (List.cons.inj same).1 (by decide)
  rw [if_neg list, if_neg list]
  by_cases func : b.tag = none ∧ b.name.chars = "func".toList
  · refine iff_of_false (fun same => ?_) fun h => h.2.1 func
    rw [if_pos func] at same
    exact absurd (List.cons.inj same).1 (by decide)
  rw [if_neg func, pointing_eq_signs]
  by_cases enum : b.tag = some .enum
  · refine iff_of_false (fun h => ?_) fun h => h.1 enum
    have same := h.2
    have left : b.left =
        "enum ".toList ++ stem (dropWords droppedWords (b.name.chars ++ [' '])) := by
      have start : tagStart (keptTag (some .enum)) = "enum ".toList := rfl
      rw [NamedBase.left, enum, start]
    rw [if_pos enum, left] at same
    have blank := blank_mem_baseText_enum (stem (dropWords droppedWords (b.name.chars ++ [' '])))
    rw [same] at blank
    exact blank_not_mem_capitalizeFirst b.name.no_blank blank
  · have left : b.left = stem (dropWords droppedWords (b.name.chars ++ [' '])) := by
      rw [NamedBase.left, keptTag_of_ne enum, tagStart, List.nil_append]
    rw [if_neg enum, left, baseText_stem_iff]
    exact ⟨fun none => ⟨enum, func, list, none⟩, fun h => h.2.2.2⟩

/-- The rule for enumerations is off where a star follows. -/
theorem enum_star_strays : ∃ b : NamedBase, b.starred 1 = "enum color *" ∧
    ¬ typeOf (b.starred 1) = "&" ++ typeOf b.spelling ∧
    typeOf "enum color *" = "&Enum color" ∧ typeOf "enum color" = "Color" := by
  let color : NamedBase := ⟨some .enum, ⟨"color".toList, by decide⟩⟩
  have off : ¬ color.isPointable = true := by decide
  exact ⟨color, by decide, fun same => off ((stars_are_signs_iff color 0).mp same),
    by decide +kernel, by decide +kernel⟩

end VFromC.Spelling
