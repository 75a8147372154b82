import VFromC.Proofs.Spelling.Params
/-!
Printed types mean what their parts mean: every spelling that a front end prints for a type is
converted to the type of the output that stands for it.
-/
namespace VFromC.Spelling
open VFromC.Text

/-- A type is read from what is left when its qualifiers are gone. -/
theorem typeText_print (keep : Qualifier → Bool) (t : CType) :
    typeText (t.print keep) =
      match opaquePointer? t.bare with
      | some name => name
      | none => unqualifiedText t.bare := by
  rw [typeText, (tight_print keep t).trim_eq, contains_tag_print, stripQualifiers_print]
  rfl

theorem typeText_simple (keep : Qualifier → Bool) (quals : List Qualifier) (shape : Shape) :
    typeText ((CType.simple quals shape).print keep) = shape.meaning := by
  rw [typeText_print, CType.bare]
  cases shape with
  | object base e =>
      rcases opaquePointer?_core base e with fixed | ⟨none, single⟩
      · rw [Shape.core, fixed]
      · rw [Shape.core, none, Shape.meaning, single]
        exact unqualifiedText_core (.object base e)
  | enumeration x =>
      obtain ⟨c, last, letter⟩ := (Option.any_eq_true _ _).mp (isBaseName_typeName x).last
      have core : (Shape.enumeration x).core.getLast? = some c := by
        rw [Shape.core, List.getLast?_append_of_ne_nil _ x.ne_nil, last]
      rw [opaquePointer?_of_last core (ne_of_isNameChar letter rfl) (ne_of_isNameChar letter rfl)]
      exact unqualifiedText_core (.enumeration x)

theorem capitalForm_ne_nil (c : Char) : capitalForm c ≠ [] := by
  have rows : ∀ row ∈ wideCapitals, row.2 ≠ [] := by decide
  unfold capitalForm
  split
  · exact List.cons_ne_nil _ _
  · split
    · rename_i codes found
      obtain ⟨before, behind, same, _⟩ := List.lookup_eq_some_iff.mp found
      have row := rows (c.toNat, codes) (same ▸ by simp)
      simpa using row
    · exact List.cons_ne_nil _ _

theorem capitalizeFirst_ne_nil {s : List Char} (h : s ≠ []) : capitalizeFirst s ≠ [] := by
  cases s with
  | nil => exact absurd rfl h
  | cons c s => exact List.append_ne_nil_of_left_ne_nil (capitalForm_ne_nil c) s

theorem baseText_ne_nil (base : Base) : baseText base.name ≠ [] := by
  have name := base.isBaseName_name
  have rows : ∀ row ∈ primitiveTable, row.2.toList ≠ [] := by decide
  rw [baseText]
  split
  · exact name.ne_nil
  · split
    · exact List.cons_ne_nil _ _
    · unfold scalarName
      split
      · rename_i found
        obtain ⟨before, behind, same, _⟩ := List.lookup_eq_some_iff.mp found
        exact rows (_, _) (same ▸ List.mem_append_right _ List.mem_cons_self)
      · unfold Ident.typeNameChars
        split
        · exact name.ne_nil
        · refine capitalizeFirst_ne_nil fun none => ?_
          obtain ⟨c, hc, solid⟩ := List.any_eq_true.mp name.solid
          have underscore := List.dropWhile_eq_nil_iff.mp none c hc
          exact of_decide_eq_true solid (beq_iff_eq.mp underscore)

theorem pointing_ne_nil {s : List Char} (h : s ≠ []) (stars : Nat) : pointing stars s ≠ [] := by
  cases stars with
  | zero => exact h
  | succ more =>
      rw [pointing]
      split
      · exact List.append_ne_nil_of_right_ne_nil _ (by decide)
      · exact List.append_ne_nil_of_right_ne_nil _ h

/-- No result is empty, so that only `void` is not written. -/
theorem Shape.meaning_ne_nil (shape : Shape) : shape.meaning ≠ [] := by
  cases shape with
  | object base e =>
      rw [Shape.meaning]
      split
      · decide
      · exact List.append_ne_nil_of_right_ne_nil _
          (pointing_ne_nil (baseText_ne_nil base) e.count)
  | enumeration x => exact capitalizeFirst_ne_nil x.ne_nil

/-- The shape that is printed without a final `const`. -/
def Shape.plain : Shape → Shape
  | .object base (.constStars more) => .object base (.stars (more + 1))
  | shape => shape

theorem Shape.text_plain (shape : Shape) : shape.plain.text = shape.core := by
  rcases shape with ⟨base, _ | _ | _⟩ | x
  · exact List.append_nil _
  · exact List.append_nil _
  · exact List.append_nil _
  · rfl

theorem Shape.meaning_plain (shape : Shape) : shape.plain.meaning = shape.meaning := by
  rcases shape with ⟨base, _ | _ | _⟩ | x <;> rfl

theorem typeText_of_trim {a b : List Char} (h : trim a = trim b) : typeText a = typeText b := by
  rw [typeText, typeText, h]

/-- The result of a function type is read with the blank behind it. -/
theorem typeText_result (spaced : Bool) (shape : Shape) :
    typeText (shape.core ++ gapText (fun _ => false) spaced shape) = shape.meaning := by
  have blank : ∀ c ∈ gapText (fun _ => false) spaced shape, isBlank c = true := by
    intro c hc
    rw [gap_none spaced shape c hc]
    rfl
  have trimmed := trim_between (a := []) (fun c hc => (by cases hc)) shape.tight_core blank
    shape.ne_nil_core
  have print : (CType.simple [] shape.plain).print (fun _ => false) = shape.core := by
    rw [CType.print, quals_none, List.nil_append, shape.text_plain]
  calc typeText (shape.core ++ gapText (fun _ => false) spaced shape)
      = typeText shape.core := typeText_of_trim (trimmed.trans shape.tight_core.trim_eq.symm)
    _ = shape.plain.meaning := by rw [← print, typeText_simple]
    _ = shape.meaning := shape.meaning_plain

theorem enumName?_of_star {s : List Char} (h : '*' ∈ s) : enumName? s = none := by
  rw [enumName?, Option.bind_eq_none_iff]
  intro name found
  rw [afterStart?_eq_some.mp found, List.mem_append] at h
  have star : name.contains '*' = true :=
    List.contains_iff_mem.mpr (h.resolve_left (by decide))
  rw [star, Bool.true_or, if_pos rfl]

/-- The type of a parameter; the dots are kept. -/
def paramType (p : List Char) : List Char := if p = "...".toList then p else typeText p

section Function

variable (quals : List Qualifier) (shape : Shape) (noArray : shape.isArray = false) (spaced : Bool)
  (params : List CType) (variadic : Bool)

/-- A function type up to its first bracket. -/
def resultText : List Char := shape.core ++ gapText (fun _ => false) spaced shape

theorem bare_function :
    (CType.function quals shape noArray spaced params variadic).bare =
      resultText shape spaced ++ ("(*)".toList ++ ("(".toList ++
        (joined ", ".toList (paramsOf params variadic) ++ ")".toList))) := by
  rw [CType.bare, CType.print, quals_none, List.nil_append, resultText, List.append_assoc]
  rfl

/-- A function type is cut at its own brackets. -/
theorem ofText?_function :
    Signature.ofText? (CType.function quals shape noArray spaced params variadic).bare =
      some {
        result := resultText shape spaced
        params := if isNoParameter params variadic then [] else paramsOf params variadic } := by
  have bracket : '(' ∉ resultText shape spaced := by
    intro h
    rcases List.mem_append.mp h with inside | gap
    · exact not_mem_core (by decide) (by decide) shape inside
    · exact absurd (gap_none spaced shape _ gap) (by decide)
  have star (rest : List Char) :
      removeFirst "(*)".toList (resultText shape spaced ++ ("(*)".toList ++ rest)) =
        resultText shape spaced ++ rest := removeFirst_of_not_mem bracket
  have opened (rest : List Char) :
      cut? "(".toList (resultText shape spaced ++ ("(".toList ++ rest)) =
        some (resultText shape spaced, rest) := cut?_of_not_mem bracket
  have closed (before args : List Char) : bracketed before (args ++ ")".toList) = args := by
    have last : cutLast? ")".toList (args ++ ")".toList) = some (args, []) := cutLast?_end
    rw [bracketed, last]
  rw [bare_function, Signature.ofText?, star, opened, Option.map_some, closed, paramTexts_joined]

theorem unqualifiedText_function :
    unqualifiedText (CType.function quals shape noArray spaced params variadic).bare =
      functionText (CType.function quals shape noArray spaced params variadic).bare := by
  have word : firstWord (CType.function quals shape noArray spaced params variadic).bare ≠
      "func".toList := by
    have behind : HeadIs Outside (gapText (fun _ => false) spaced shape ++ ("(*)".toList ++
        ("(".toList ++ (joined ", ".toList (paramsOf params variadic) ++ ")".toList)))) := by
      refine HeadIs.append (fun c hc => ?_) (outside_cons (c := '(') rfl _)
      rw [gap_none spaced shape c (List.mem_of_mem_head? hc)]
      rfl
    rw [bare_function, resultText, List.append_assoc, firstWord_append behind]
    exact shape.firstWord_core
  have within : "(*)".toList <:+:
      (CType.function quals shape noArray spaced params variadic).bare := by
    rw [bare_function]
    exact ⟨_, _, List.append_assoc ..⟩
  have signature : isSignature (CType.function quals shape noArray spaced params variadic).bare =
      true := by
    rw [isSignature, contains_iff_within.mpr within, Bool.true_or]
  have tight : Tight (CType.function quals shape noArray spaced params variadic).bare :=
    tight_print _ _
  have letter : HeadIs (isNameChar · = true)
      (CType.function quals shape noArray spaced params variadic).bare := head_print _
  rw [unqualifiedText_of_letter tight letter word,
    enumName?_of_star (within.subset (by decide)), if_pos signature]

theorem typeText_function (keep : Qualifier → Bool) :
    typeText ((CType.function quals shape noArray spaced params variadic).print keep) =
      signatureText ((if isNoParameter params variadic then [] else paramsOf params variadic).map
        paramType) shape.meaning := by
  have last : (CType.function quals shape noArray spaced params variadic).bare.getLast? =
      some ')' := by
    obtain ⟨front, same⟩ :=
      print_function (fun _ => false) quals shape noArray spaced params variadic
    rw [CType.bare, same, List.getLast?_concat]
  rw [typeText_print, opaquePointer?_of_last last (by decide) (by decide)]
  simp only [unqualifiedText_function, functionText_eq, ofText?_function]
  rw [resultText, typeText_result]
  rfl

end Function

theorem map_paramType {params : List CType}
    (h : (printAll (fun _ => false) params).map paramType = meaningAll params) (variadic : Bool) :
    (if isNoParameter params variadic then [] else paramsOf params variadic).map paramType =
      if isNoParameter params variadic then [] else meaningAll params ++ dots variadic := by
  split
  · rfl
  · rw [paramsOf, List.map_append, h]
    cases variadic with
    | false => rfl
    | true => rw [dots, if_pos rfl, List.map_singleton, paramType, if_pos rfl]

theorem signatureText_eq (params : List (List Char)) {result : List Char} (h : result ≠ []) :
    signatureText params result = functionAs params result := by
  unfold signatureText functionAs
  by_cases none : result = "void".toList
  · rw [if_pos none, List.append_nil]
    exact if_pos (.inl none)
  · rw [if_neg none]
    exact if_neg fun either => either.elim none h

-- A parameter is read when the qualifiers of the whole are gone, so `keep` is not fixed.
mutual

theorem typeText_eq_meaning : ∀ t : CType, ∀ keep, typeText (t.print keep) = t.meaning
  | .simple quals shape, keep => typeText_simple keep quals shape
  | .function quals shape noArray spaced params variadic, keep => by
      rw [typeText_function, map_paramType (map_printAll params), CType.meaning,
        signatureText_eq _ shape.meaning_ne_nil]

theorem map_printAll : ∀ ts : List CType,
    (printAll (fun _ => false) ts).map paramType = meaningAll ts
  | [] => rfl
  | t :: ts => by
      rw [printAll, meaningAll, List.map_cons, paramType, if_neg (print_ne_dots t),
        typeText_eq_meaning t, map_printAll ts]

end

/-- Blanks around a spelling do not matter. -/
theorem typeOf_eq (c : String) : typeOf c = String.ofList (typeText c.toList) := by
  have trimmed : typeText (trim c.toList) = typeText c.toList := typeText_of_trim (trim_trim _)
  by_cases tag : contains "__va_list_tag".toList (trim c.toList) = true
  · simp only [typeOf, convert, if_pos tag]
    rw [typeText, if_pos tag]
    rfl
  · simp only [typeOf, convert, if_neg tag, trimmed]

/-- A printed type is converted to its meaning. -/
theorem typeOf_spelling (t : CType) : typeOf t.spelling = String.ofList t.meaning := by
  have text : trim t.spelling.toList = t.print fun _ => true := by
    rw [CType.spelling, String.toList_ofList, (tight_print _ t).trim_eq]
  simp only [typeOf, convert, text, contains_tag_print, Bool.false_eq_true, if_false,
    typeText_eq_meaning]

example :
    typeOf "const char *(*)(void (*)(int, ...), struct foo [3])" =
      "func (func (int, ...), [3]Foo) &i8" := by
  decide +kernel

/-- Two stars on `char` are not read as two stars on any other base are. -/
theorem declaredAs_fails_on_text_array :
    ∃ base ending, (CType.simple [] (.object base ending)).spelling = "char **" ∧
      typeOf "char **" = "&&u8" ∧ String.ofList (declaredAs base ending) = "&&i8" :=
  ⟨.primitive "char" (by decide), .stars 2, by decide, by decide +kernel, by decide +kernel⟩

end VFromC.Spelling
