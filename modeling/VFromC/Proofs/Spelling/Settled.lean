import VFromC.Proofs.Spelling.Dropped
import VFromC.Proofs.Text.Braces
/-!
Types that are left as they are.

A type of the output is read again where it is the spelling of another declaration. It is left as it
is exactly if it is settled: function types are, and so are signs and dimensions before a settled
type and names that nothing is dropped from, that are not in the table and that start with a
capital.
-/
namespace VFromC.Spelling
open VFromC.Text

section Bases

variable {s v : List Char}

/-- What is cut off with the name spaces has a colon in it. -/
theorem stripNamespace_append (s : List Char) :
    ∃ front, s = front ++ stripNamespace s ∧ (front = [] ∨ ':' ∈ front) := by
  have cut {pat before rest : List Char} (h : cutLast? pat s = some (before, rest))
      (colon : ':' ∈ pat) :
      ∃ front, s = front ++ rest ∧ (front = [] ∨ ':' ∈ front) :=
    ⟨before ++ pat, append_of_cutLast? h, .inr (List.mem_append_right before colon)⟩
  unfold stripNamespace
  split
  · exact cut ‹_› (by decide)
  · split
    · exact ⟨[], rfl, .inl rfl⟩
    · split
      · exact cut ‹_› (by decide)
      · exact ⟨[], rfl, .inl rfl⟩

theorem stripRecordWords_shortened (s : List Char) : Shortened s (stripRecordWords s) := by
  have words : Shortened s
      (replaceAll "union ".toList [] (replaceAll "struct ".toList [] s)) :=
    (replaceAll_shortened (by decide) s).trans (replaceAll_shortened (by decide) _)
  refine words.trans ?_
  simp only [stripRecordWords]
  cases found : afterStart? "signed ".toList
      (replaceAll "union ".toList [] (replaceAll "struct ".toList [] s)) with
  | none => exact .inl rfl
  | some rest =>
      have whole := length_of_afterStart? found
      have word : "signed ".toList.length = 7 := rfl
      rw [Option.getD_some]
      exact .inr (by omega)

theorem splitDimensions_of_nil (h : (splitDimensions s).2 = []) : (splitDimensions s).1 = s := by
  unfold splitDimensions at h ⊢
  split at h
  · rename_i array
    have none := List.dropWhile_eq_nil_iff.mp h '[' (List.contains_iff_mem.mp array.2.1)
    exact absurd none (by decide)
  · rename_i other
    rw [if_neg other]

theorem splitReference_of_false (h : (splitReference s).2 = false) : (splitReference s).1 = s := by
  unfold splitReference at h ⊢
  split
  · split
    · rename_i found last
      simp only [found, last, if_true] at h
      cases h
    · rfl
  · rfl

theorem splitStars_of_zero (tight : Tight s) (h : (splitStars s).2 = 0) : (splitStars s).1 = s := by
  have stop : LastIs (isStarOrSpace · = false) s := by
    intro c hc
    rw [← Bool.not_eq_true]
    intro star
    rw [isStarOrSpace, Bool.or_eq_true, beq_iff_eq, beq_iff_eq] at star
    rcases star with rfl | rfl
    · obtain ⟨front, rfl⟩ := List.getLast?_eq_some_iff.mp hc
      rw [splitStars, trimEnd_of_last tight.last] at h
      simp [isStarOrSpace] at h
    · exact absurd (tight.last ' ' hc) (by decide)
  have run := dropEndWhile_run (b := []) (fun c hc => absurd hc List.not_mem_nil) stop
  rw [List.append_nil] at run
  rw [splitStars, trimEnd_of_last tight.last, run, tight.trim_eq]

/-- What a capital form has more than the character is at the start. -/
theorem mem_capitalForm_of_front {front rest : List Char} {d : Char}
    (h : capitalizeFirst s = front ++ rest) (bound : s.length ≤ rest.length) (hd : d ∈ front) :
    ∃ c, s.head? = some c ∧ d ∈ capitalForm c := by
  cases s with
  | nil =>
      have none := List.append_eq_nil_iff.mp h.symm
      rw [none.1] at hd
      cases hd
  | cons c s =>
      refine ⟨c, rfl, ?_⟩
      have long := congrArg List.length h
      rw [capitalizeFirst, List.length_append, List.length_append] at long
      rw [List.length_cons] at bound
      have start : front <+: capitalForm c :=
        List.prefix_of_prefix_length_le ⟨rest, h.symm⟩ ⟨s, rfl⟩ (by omega)
      exact start.subset hd

theorem stars_ofText (h : (Declarator.ofText s).stars = 0) :
    (splitStars (stripRecordWords (stripNamespace (splitDimensions s).1))).2 = 0 ∧
      (splitReference
        (splitStars (stripRecordWords (stripNamespace (splitDimensions s).1))).1).2 = false := by
  simp only [Declarator.ofText] at h
  split at h
  · cases h
  · rename_i none
    exact ⟨h, Bool.eq_false_iff.mpr none⟩

/-- Nothing is dropped from a name that is capitalised to the whole text. -/
theorem base_eq_of_capital (tight : Tight v) (dims : (Declarator.ofText v).dims = [])
    (stars : (Declarator.ofText v).stars = 0)
    (h : capitalizeFirst (Ident.dropUnderscores (Declarator.ofText v).base) = v) :
    (Declarator.ofText v).base = v := by
  have whole : (splitDimensions v).1 = v := splitDimensions_of_nil dims
  obtain ⟨none, noSign⟩ := stars_ofText stars
  have base := splitReference_of_false noSign
  rw [← Declarator.base_ofText, whole] at base
  rw [whole] at none
  have rest : (Ident.dropUnderscores (Declarator.ofText v).base).length ≤
      (Declarator.ofText v).base.length := (List.dropWhile_suffix _).length_le
  have short :
      (Declarator.ofText v).base.length ≤ (stripRecordWords (stripNamespace v)).length := by
    rw [base]
    exact length_splitStars_le _
  have words := length_stripRecordWords_le (stripNamespace v)
  have grown : v.length ≤ (Declarator.ofText v).base.length + 2 := by
    have bound := length_capitalizeFirst_le (Ident.dropUnderscores (Declarator.ofText v).base)
    rw [h] at bound
    omega
  have colon : stripNamespace v = v := by
    obtain ⟨front, parts, nil | inside⟩ := stripNamespace_append v
    · rw [nil, List.nil_append] at parts
      exact parts.symm
    · -- A colon before the name would be in a capital form, which is then the colon alone.
      obtain ⟨c, first, form⟩ := mem_capitalForm_of_front (h.trans parts) (by omega) inside
      obtain ⟨tail, name⟩ := List.head?_eq_some_iff.mp first
      have own : c = ':' := eq_of_mem_capitalForm (by decide) form
      have length := congrArg List.length h
      have parted := congrArg List.length parts
      have some := List.length_pos_of_mem inside
      rw [name, own] at length rest
      rw [List.length_append] at parted
      simp only [capitalizeFirst, List.length_append, List.length_cons] at length rest
      have one : (capitalForm ':').length = 1 := by decide
      omega
  have record : stripRecordWords v = v := by
    refine (stripRecordWords_shortened v).eq ?_
    rw [colon] at short
    omega
  rw [colon, record] at base none
  rw [base, splitStars_of_zero tight none]

end Bases

/-- A name of the output, or one that is not in the table and starts with a capital. -/
def isOwnName (s : List Char) : Bool :=
  targetPrimitives.contains (String.ofList s) ||
    ((primitiveTable.lookup (String.ofList s)).isNone && (vectorElement? s).isNone &&
      s.head?.all fun c => c ≠ '_' && capitalForm c = [c])

/-- A text that is no function type and has no sign, no dimensions and not the word of an
enumeration at its start. -/
structure Unmarked (s : List Char) : Prop where
  tight : Tight s
  function : isFunctionType s = false
  sign : afterStart? "&".toList s = none
  dims : leadingDimensions? s = none
  enum : enumName? s = none

/-- The types that are left as they are. -/
inductive Settled : List Char → Prop where
  | function {s : List Char} (tight : Tight s) (h : isFunctionType s = true) : Settled s
  | sign {s : List Char} (h : Settled s) : Settled ('&' :: s)
  | dims {s dims elem : List Char} (found : leadingDimensions? s = some (dims, elem))
      (h : Settled elem) : Settled s
  /-- A bracket with a star in it and no other bracket. -/
  | signature {s : List Char} (plain : Unmarked s) (h : isSignature s = true)
      (none : Signature.ofText? s = none) : Settled s
  | name {s : List Char} (plain : Unmarked s) (h : isSignature s = false)
      (whole : Declarator.ofText s = ⟨s, 0, []⟩) (own : isOwnName s = true) : Settled s

section Names

variable {s v : List Char}

theorem capital_eq_self_iff :
    capitalizeFirst (Ident.dropUnderscores v) = v ↔
      v.head?.all (fun c => c ≠ '_' && capitalForm c = [c]) = true := by
  cases v with
  | nil => exact iff_of_true rfl rfl
  | cons c v =>
      simp only [List.head?_cons, Option.all_some, Bool.and_eq_true, decide_eq_true_eq]
      by_cases underscore : c = '_'
      · refine iff_of_false (fun same => ?_) fun h => h.1 underscore
        have stop := List.head?_dropWhile_not (· == '_') (c :: v)
        cases rest : Ident.dropUnderscores (c :: v) with
        | nil =>
            rw [rest] at same
            cases same
        | cons d rest' =>
            have first : d ≠ '_' := by
              rw [Ident.dropUnderscores] at rest
              rw [rest] at stop
              exact beq_eq_false_iff_ne.mp stop
            obtain ⟨e, form, whole⟩ := List.exists_cons_of_ne_nil (capitalForm_ne_nil d)
            rw [rest, capitalizeFirst, whole, List.cons_append, underscore] at same
            have own : e = '_' := (List.cons.inj same).1
            refine first (eq_of_mem_capitalForm (by decide) ?_)
            rw [whole, own]
            exact List.mem_cons_self
      · have kept : Ident.dropUnderscores (c :: v) = c :: v :=
          List.dropWhile_cons_of_neg (by simpa using underscore)
        rw [kept, capitalizeFirst]
        refine ⟨fun same => ⟨underscore, ?_⟩, fun h => by rw [h.2]; rfl⟩
        exact List.append_cancel_right (same.trans (List.singleton_append).symm)

theorem trim_dropQualifiers_cons {c : Char} (hc : isSign c = true) (t : List Char) :
    trim (dropQualifiers (c :: t)) = c :: dropQualifiers t := by
  have last := last_dropQualifiers (c :: t)
  rw [dropQualifiers_cons hc] at last ⊢
  have tight : Tight (c :: dropQualifiers t) := ⟨headIs_cons (isBlank_of_isSign hc) _, last⟩
  exact tight.trim_eq

theorem signatureText_start (params : List (List Char)) (result : List Char) :
    ∃ rest, signatureText params result = "func (".toList ++ rest := by
  simp only [signatureText]
  split
  · exact ⟨_, List.append_assoc ..⟩
  · exact ⟨_, by rw [List.append_assoc, List.append_assoc]⟩

/-- A list is found by the number of a sign in what stands before it. -/
theorem eq_of_count {a b x y : List Char} {c : Char} (h : a ++ c :: x = b ++ c :: y)
    (shorter : b.length ≤ a.length) (count : b.count c = a.count c) : b = a := by
  obtain ⟨more, rfl⟩ := List.prefix_of_prefix_length_le ⟨c :: y, h.symm⟩ ⟨c :: x, rfl⟩ shorter
  rw [List.append_assoc, List.append_cancel_left_eq] at h
  cases more with
  | nil => rw [List.append_nil]
  | cons d more =>
      obtain ⟨rfl, _⟩ := List.cons.inj h
      rw [List.count_append, List.count_cons_self] at count
      omega

end Names

section Fixed

variable {v : List Char}

/-- A declarator that is written as the text it is found in has no stars and no dimensions. -/
theorem bare_of_declared {x base : List Char} (read : trim (dropQualifiers v) = x)
    (plain : Unmarked x)
    (h : declaredText (Declarator.ofText x).dims (Declarator.ofText x).stars base = v) :
    (Declarator.ofText x).dims = [] ∧ (Declarator.ofText x).stars = 0 ∧ base = v := by
  rw [declaredText_eq] at h
  have front {c : Char} (hc : isSign c = true) {t : List Char} (same : v = c :: t) :
      x = c :: dropQualifiers t := by
    rw [← read, same, trim_dropQualifiers_cons hc]
  have noDims : (Declarator.ofText x).dims = [] := by
    by_contra ne
    obtain ⟨closed, other⟩ : Bracketed (Declarator.ofText x).dims ∧ x.head? ≠ some '[' :=
      bracketed_splitDimensions ne
    obtain ⟨inside, dims⟩ := closed.exists_inside
    rw [dims] at h
    rw [front rfl h.symm] at other
    exact other rfl
  have noSign (t : List Char) : v ≠ '&' :: t := by
    intro same
    have sign := plain.sign
    rw [front rfl same] at sign
    cases sign
  rw [noDims, List.nil_append] at h
  refine ⟨noDims, ?_⟩
  cases stars : (Declarator.ofText x).stars with
  | zero =>
      rw [stars] at h
      exact ⟨rfl, h⟩
  | succ more =>
      rw [stars, pointing] at h
      split at h
      · cases more with
        | zero =>
            have single :
                (Declarator.ofText (trim (dropQualifiers "voidptr".toList))).stars = 0 := by
              decide
            rw [← read, ← h] at stars
            exact absurd (single.symm.trans stars) (by decide)
        | succ more => exact absurd h.symm (noSign _)
      · exact absurd h.symm (noSign _)

theorem Unmarked.not_long {x : List Char} (plain : Unmarked x) : ¬ Long x := by
  intro long
  have closed := long.closed
  cases long with
  | function rest =>
      have function : isFunctionType ("func (".toList ++ rest) = true := rfl
      rw [plain.function] at function
      cases function
  | sign h => exact absurd plain.sign (by simp [afterStart?])
  | dims brackets h =>
      have dims := plain.dims
      rw [leadingDimensions?, if_pos] at dims
      · rw [dims] at closed
        cases closed
      · rw [List.head?_append_of_ne_nil _ brackets.ne_nil]
        exact brackets.opens

theorem not_long_of_unmarked (plain : Unmarked (trim (dropQualifiers v))) : ¬ Long v := by
  intro long
  have dropped := long.dropQualifiers
  have tight : Tight (dropQualifiers v) := by
    refine ⟨fun c hc => ?_, last_dropQualifiers v⟩
    have first := dropped.head
    rw [hc] at first
    have solid : ['f', '&', '['].all (fun c => !isBlank c) = true := by decide
    simpa using List.all_eq_true.mp solid c (List.contains_iff_mem.mp first)
  rw [tight.trim_eq] at plain
  exact plain.not_long dropped

theorem values_are_targets : ∀ row ∈ primitiveTable, row.2 ∈ targetPrimitives := by decide

theorem ofText_target : ∀ p ∈ targetPrimitives,
    Declarator.ofText p.toList = ⟨p.toList, 0, []⟩ := by
  decide +kernel

/-- A name that is written as the text it is found in is the whole text. -/
theorem own_of_declared (plain : Unmarked v) (dims : (Declarator.ofText v).dims = [])
    (stars : (Declarator.ofText v).stars = 0) (long : ¬ Long v)
    (h : baseText (Declarator.ofText v).base = v) :
    Declarator.ofText v = ⟨v, 0, []⟩ ∧ isOwnName v = true := by
  have whole (base : (Declarator.ofText v).base = v) : Declarator.ofText v = ⟨v, 0, []⟩ := by
    cases parts : Declarator.ofText v with
    | mk b n d =>
        rw [parts] at base stars dims
        cases base
        cases stars
        cases dims
        rfl
  have target (listed : String.ofList v ∈ targetPrimitives) :
      Declarator.ofText v = ⟨v, 0, []⟩ ∧ isOwnName v = true := by
    have found := ofText_target _ listed
    rw [String.toList_ofList] at found
    refine ⟨found, ?_⟩
    rw [isOwnName, List.contains_iff_mem.mpr listed, Bool.true_or]
  rw [baseText] at h
  split at h
  · rename_i listed
    rw [h, List.contains_iff_mem] at listed
    exact target listed
  · rename_i unlisted
    split at h
    · rename_i elem found
      -- The elements of a vector are shorter than what is left of the text.
      exfalso
      have shorter := length_of_vectorElement? found
      have bound := Declarator.length_base_le v
      have closed : Bracketed "[]".toList := ⟨rfl, rfl⟩
      rcases (typeText_grown elem).long with short | function
      · have length := congrArg List.length h
        rw [List.length_cons, List.length_cons] at length
        omega
      · exact long (h ▸ Long.dims closed function)
    · rename_i noVector
      cases found : primitiveTable.lookup (String.ofList (Declarator.ofText v).base) with
      | some name =>
          simp only [scalarName, found] at h
          refine target ?_
          rw [← h, String.ofList_toList]
          exact values_are_targets _ (mem_of_lookup found)
      | none =>
          simp only [scalarName, found, Ident.typeNameChars] at h
          split at h
          · rename_i func
            have function := plain.function
            rw [h] at func
            rw [isFunctionType, func, Bool.true_or] at function
            cases function
          · have base := base_eq_of_capital plain.tight dims stars h
            refine ⟨whole base, ?_⟩
            rw [base] at h found noVector
            rw [isOwnName, found, noVector, capital_eq_self_iff.mp h]
            exact Bool.or_true _

/-- Nothing was dropped from a text that is written again as the name found in it. -/
theorem settled_of_declared (tight : Tight v) (fall : Shortened v (dropQualifiers v))
    (plain : Unmarked (trim (dropQualifiers v)))
    (other : isSignature (trim (dropQualifiers v)) = false)
    (h : declaredText (Declarator.ofText (trim (dropQualifiers v))).dims
      (Declarator.ofText (trim (dropQualifiers v))).stars
      (baseText (Declarator.ofText (trim (dropQualifiers v))).base) = v) :
    dropQualifiers v = v ∧ Settled v := by
  obtain ⟨dims, stars, base⟩ := bare_of_declared rfl plain h
  have long := not_long_of_unmarked plain
  have same : dropQualifiers v = v := by
    have short := Nat.le_trans (Declarator.length_base_le (trim (dropQualifiers v)))
      (length_trim_le _)
    have grown := baseText_grown _ (last_ofText (trim (dropQualifiers v)))
    rw [base] at grown
    have bound := grown.long.resolve_right long
    exact fall.eq (by omega)
  rw [same, tight.trim_eq] at plain other dims stars base
  obtain ⟨whole, own⟩ := own_of_declared plain dims stars long base
  exact ⟨same, .name plain other whole own⟩

theorem unqualifiedText_of_trim {a b : List Char} (h : trim a = trim b) :
    unqualifiedText a = unqualifiedText b := by
  rw [unqualifiedText, unqualifiedText, h]

/-- A type that is not shorter than its spelling has no blanks around it. -/
theorem tight_of_fixed {s : List Char} (h : unqualifiedText s = v)
    (bound : Shortened v s) : Tight v := by
  have grown := unqualifiedText_grown (trim s)
  rw [unqualifiedText_of_trim (trim_trim s), h] at grown
  rcases grown.first with first | short
  · exact ⟨first, grown.last⟩
  · have trimmed := length_trim_le s
    have same : s = v := bound.eq (by omega)
    rw [same] at short
    have whole := (trim_sublist v).eq_of_length_le short
    rw [← whole]
    exact tight_trim v

theorem length_enumName? {s name : List Char} (h : enumName? s = some name) :
    name.length + 3 ≤ s.length := by
  obtain ⟨rest, found, same⟩ := Option.bind_eq_some_iff.mp h
  split at same
  · cases same
  · cases same
    have whole := length_of_afterStart? found
    have word : "enum ".toList.length = 5 := rfl
    have trimmed := length_trim_le rest
    have bound := length_capitalizeFirst_le (trim rest)
    omega

theorem settled_of_signature (fall : Shortened v (dropQualifiers v))
    (plain : Unmarked (trim (dropQualifiers v)))
    (signature : isSignature (trim (dropQualifiers v)) = true)
    (h : functionText (trim (dropQualifiers v)) = v) : dropQualifiers v = v ∧ Settled v := by
  rw [functionText_eq] at h
  split at h
  · rename_i none
    have trimmed := length_trim_le (dropQualifiers v)
    rw [h] at trimmed plain signature none
    exact ⟨fall.eq (by omega), .signature plain signature none⟩
  · obtain ⟨rest, start⟩ := signatureText_start _ _
    exact absurd (h ▸ start ▸ .function rest) (not_long_of_unmarked plain)

/-- The dimensions that are written are the ones that are read. -/
theorem dims_of_fixed {dims elem w : List Char}
    (found : leadingDimensions? (trim (dropQualifiers (dims ++ w))) = some (dims, elem)) :
    trim (dropQualifiers (dims ++ w)) = dims ++ dropQualifiers w ∧
      dropQualifiers (dims ++ w) = dims ++ dropQualifiers w ∧ elem = dropQualifiers w := by
  obtain ⟨closed, whole⟩ := bracketed_of_leadingDimensions? found
  obtain ⟨inside, rfl⟩ := closed.exists_inside
  have parts (t : List Char) : '[' :: (inside ++ [']']) ++ t = '[' :: (inside ++ ']' :: t) := by
    simp
  rw [parts, parts, trim_dropQualifiers_cons rfl, dropQualifiers_append_cons rfl] at whole
  obtain ⟨_, behind⟩ := List.cons.inj whole
  have same : dropAll droppedTexts inside = inside :=
    eq_of_count behind (dropAll_shortened (fun _ h => h) inside).length_le
      (count_dropAll (fun _ h => h) rfl inside)
  rw [same] at behind
  have rest : elem = dropQualifiers w := (List.cons.inj (List.append_cancel_left behind)).2
  rw [parts, parts, trim_dropQualifiers_cons rfl, dropQualifiers_cons rfl,
    dropQualifiers_append_cons rfl, same]
  exact ⟨rfl, rfl, rest⟩

/-- If a type is what is read from the text without its qualifiers, it has none and is settled. -/
theorem settled_of_fixed (h : unqualifiedText (dropQualifiers v) = v) :
    dropQualifiers v = v ∧ Settled v := by
  induction length : v.length using Nat.strongRecOn generalizing v with
  | _ n ih =>
      have last : LastIs (isBlank · = false) v := by
        have grown := (unqualifiedText_grown (dropQualifiers v)).last
        rwa [h] at grown
      have fall := dropQualifiers_shortened last
      have tight := tight_of_fixed h fall
      have trimmed := length_trim_le (dropQualifiers v)
      rw [unqualifiedText] at h
      split at h
      · rename_i function
        have same : dropQualifiers v = v := by
          rw [h] at trimmed
          exact fall.eq (by omega)
        rw [h] at function
        exact ⟨same, .function tight function⟩
      · rename_i noFunction
        split at h
        · rename_i rest found
          cases v with
          | nil => cases h
          | cons c w =>
              obtain ⟨rfl, written⟩ := List.cons.inj h
              rw [trim_dropQualifiers_cons rfl] at found
              have read : dropQualifiers w = rest := Option.some.inj found
              rw [← read] at written
              obtain ⟨same, settled⟩ := ih w.length (length ▸ Nat.lt_succ_self _) written rfl
              exact ⟨by rw [dropQualifiers_cons rfl, same], .sign settled⟩
        · rename_i noSign
          split at h
          · rename_i dims elem found
            obtain ⟨w, read⟩ : ∃ w, unqualifiedText elem = w := ⟨_, rfl⟩
            rw [read] at h
            obtain rfl := h.symm
            obtain ⟨whole, dropped, rfl⟩ := dims_of_fixed found
            have opens := (bracketed_of_leadingDimensions? found).1.ne_nil
            have shorter : w.length < n := by
              have := List.length_pos_iff.mpr opens
              rw [← length, List.length_append]
              omega
            obtain ⟨same, settled⟩ := ih w.length shorter read rfl
            rw [whole, same] at found
            exact ⟨by rw [dropped, same], .dims found settled⟩
          · rename_i noDims
            split at h
            · rename_i name found
              have enum := length_enumName? found
              have bound := fall.length_le
              rw [h] at enum
              omega
            · rename_i noEnum
              have plain : Unmarked (trim (dropQualifiers v)) :=
                ⟨tight_trim _, Bool.eq_false_iff.mpr noFunction, noSign, noDims, noEnum⟩
              split at h
              · rename_i signature
                exact settled_of_signature fall plain signature h
              · rename_i other
                exact settled_of_declared tight fall plain (Bool.eq_false_iff.mpr other) h

end Fixed

section Kept

variable {s v : List Char}

theorem Settled.tight (h : Settled s) : Tight s := by
  induction h with
  | function tight h => exact tight
  | @sign s h ih =>
      exact ⟨headIs_cons (by decide) s, (lastIs_concat (a := []) (by decide)).append ih.last⟩
  | dims found h ih =>
      obtain ⟨closed, whole⟩ := bracketed_of_leadingDimensions? found
      rw [← whole]
      exact ⟨closed.first.append_left closed.ne_nil _, closed.last.append ih.last⟩
  | signature plain h none => exact plain.tight
  | name plain h whole own => exact plain.tight

theorem isFunctionType_of_head {c : Char} (hc : c ≠ 'f') (t : List Char) :
    isFunctionType (c :: t) = false := by
  have start (rest : List Char) : startsWith ('f' :: rest) (c :: t) = false := by
    rw [← Bool.not_eq_true, startsWith_iff]
    exact fun h => hc (List.cons_prefix_cons.mp h).1.symm
  exact (congrArg₂ or (start "unc ".toList) (start "unc(".toList)).trans rfl

theorem unqualifiedText_sign (tight : Tight ('&' :: s)) :
    unqualifiedText ('&' :: s) = '&' :: unqualifiedText s := by
  have found : afterStart? "&".toList ('&' :: s) = some s := afterStart?_eq_some.mpr rfl
  rw [unqualifiedText, tight.trim_eq, if_neg (by rw [isFunctionType_of_head (by decide)]; decide)]
  split
  · rename_i rest other
    rw [found] at other
    cases other
    rfl
  · rename_i none
    rw [found] at none
    cases none

theorem unqualifiedText_dims {dims elem : List Char} (tight : Tight s)
    (found : leadingDimensions? s = some (dims, elem)) :
    unqualifiedText s = dims ++ unqualifiedText elem := by
  obtain ⟨closed, whole⟩ := bracketed_of_leadingDimensions? found
  obtain ⟨inside, same⟩ := closed.exists_inside
  have start : s = '[' :: (inside ++ [']'] ++ elem) := by rw [← whole, same, List.cons_append]
  have noFunction : isFunctionType s = false := start ▸ isFunctionType_of_head (by decide) _
  have noSign : afterStart? "&".toList s = none := by
    rw [start]
    exact afterStart?_eq_none.mpr fun h => absurd (List.cons_prefix_cons.mp h).1 (by decide)
  rw [unqualifiedText, tight.trim_eq, if_neg (Bool.eq_false_iff.mp noFunction)]
  split
  · rename_i other
    rw [noSign] at other
    cases other
  · split
    · rename_i other
      rw [found] at other
      cases other
      rfl
    · rename_i none
      rw [found] at none
      cases none

theorem baseText_of_isOwnName (noFunction : isFunctionType s = false) (own : isOwnName s = true) :
    baseText s = s := by
  rw [isOwnName, Bool.or_eq_true] at own
  rw [baseText]
  rcases own with listed | other
  · rw [if_pos listed]
  · rw [Bool.and_eq_true, Bool.and_eq_true, Option.isNone_iff_eq_none, Option.isNone_iff_eq_none]
      at other
    obtain ⟨⟨noKey, noVector⟩, capital⟩ := other
    have func : ¬ startsWith "func ".toList s = true := by
      intro start
      rw [isFunctionType, start, Bool.true_or] at noFunction
      cases noFunction
    have name : scalarName s = s := by
      rw [scalarName, noKey, Ident.typeNameChars, if_neg func]
      exact capital_eq_self_iff.mpr capital
    rw [noVector]
    split
    · rfl
    · exact name

/-- A settled type is left as it is. -/
theorem Settled.fixed (h : Settled s) : unqualifiedText s = s := by
  induction h with
  | function tight h => rw [unqualifiedText, tight.trim_eq, if_pos h]
  | sign h ih => rw [unqualifiedText_sign (Settled.sign h).tight, ih]
  | dims found h ih =>
      rw [unqualifiedText_dims (Settled.dims found h).tight found, ih]
      exact (bracketed_of_leadingDimensions? found).2
  | @signature s plain h none =>
      have read := functionText_eq s
      rw [none] at read
      rw [unqualifiedText_of_name plain.tight plain.function plain.sign plain.dims, plain.enum]
      exact (if_pos h).trans read
  | name plain h whole own =>
      have base := baseText_of_isOwnName plain.function own
      rw [unqualifiedText_of_name plain.tight plain.function plain.sign plain.dims, plain.enum,
        whole]
      refine (if_neg (Bool.eq_false_iff.mp h)).trans ?_
      rw [declaredText_eq]
      exact base

/-- Nothing of the text is taken for a qualifier, an argument list or a pointer with a fixed
spelling. -/
structure Clean (v : List Char) : Prop where
  list : contains "__va_list_tag".toList v = false
  words : dropQualifiers v = v
  pointer : opaquePointer? v = none

theorem trim_of_last (last : LastIs (isBlank · = false) s) : trim s = trimStart s := by
  rw [trim, trimEnd_of_last last]

theorem stripQualifiers_of_sign {c : Char} (hc : isSign c = true) (t : List Char) :
    (stripQualifiers (c :: t)).text = c :: dropQualifiers t := by
  rw [stripQualifiers_eq, ← trim_of_last (last_dropQualifiers _), trim_dropQualifiers_cons hc]

/-- A pointer with a fixed spelling is not spelled as the type that stands for it. -/
theorem opaquePointer?_ne_self : opaquePointer? (stripQualifiers (trim v)).text ≠ some v := by
  intro h
  unfold opaquePointer? at h
  split at h
  · rename_i same
    cases h
    exact absurd same (by decide)
  · split at h
    · rename_i same
      cases h
      exact absurd same (by decide)
    · split at h
      · rename_i same
        cases h
        exact absurd same (by decide)
      · obtain ⟨size, found, rfl⟩ := Option.map_eq_some_iff.mp h
        obtain ⟨rest, start, _⟩ := Option.bind_eq_some_iff.mp found
        have tight : Tight ('[' :: size ++ "]voidptr".toList) :=
          ⟨headIs_cons (by decide) _,
            LastIs.append_right (fun c hc => (by cases hc; rfl)) (List.cons_ne_nil ']' _) _⟩
        rw [tight.trim_eq, List.cons_append, stripQualifiers_of_sign rfl] at start
        exact absurd (List.cons.inj (afterStart?_eq_some.mp start)).1 (by decide)

/-- A type that is left as it is has no blanks around it. -/
theorem trim_of_fixed (h : unqualifiedText (dropQualifiers (trim v)) = v) : trim v = v := by
  have grown := unqualifiedText_grown (dropQualifiers (trim v))
  rw [h] at grown
  rcases grown.first with first | short
  · exact (Tight.mk first grown.last).trim_eq
  · have bound := (dropQualifiers_shortened (tight_trim v).last).length_le
    exact (trim_sublist v).eq_of_length_le (Nat.le_trans short bound)

/-- A type is left as it is exactly if it is clean and settled. -/
theorem typeText_eq_self_iff : typeText v = v ↔ Clean v ∧ Settled v := by
  have strip (trimmed : trim v = v) (words : dropQualifiers v = v) :
      (stripQualifiers v).text = v := by
    have last := (tight_trim v).last
    rw [trimmed] at last
    rw [stripQualifiers_eq, words, ← trim_of_last last, trimmed]
  constructor
  · intro h
    rw [typeText] at h
    split at h
    · rename_i tag
      rw [← h] at tag
      exact absurd tag (by decide)
    · rename_i tag
      split at h
      · rename_i name found
        rw [h] at found
        exact absurd found opaquePointer?_ne_self
      · rename_i pointer
        have read : unqualifiedText (dropQualifiers (trim v)) = v := by
          refine (unqualifiedText_of_trim ?_).trans h
          rw [stripQualifiers_eq, ← trim_of_last (last_dropQualifiers _), trim_trim]
        have trimmed := trim_of_fixed read
        rw [trimmed] at read tag pointer
        obtain ⟨words, settled⟩ := settled_of_fixed read
        rw [strip trimmed words] at pointer
        exact ⟨⟨Bool.eq_false_iff.mpr tag, words, pointer⟩, settled⟩
  · rintro ⟨clean, settled⟩
    have trimmed := settled.tight.trim_eq
    rw [typeText, trimmed, if_neg (Bool.eq_false_iff.mp clean.list), strip trimmed clean.words,
      clean.pointer]
    exact settled.fixed

end Kept

end VFromC.Spelling
