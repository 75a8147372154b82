import VFromC.Proofs.Spelling.Parts
import VFromC.Proofs.Text.Cut
/-!
What is left of a printed type when its qualifiers are dropped.
-/
namespace VFromC.Spelling
open VFromC.Text

variable {keep : Qualifier → Bool} {w : List Char}

theorem replaceAll_qualifier (hw : w ∈ qualifierWords) (q : Qualifier) :
    replaceAll (w ++ [' ']) [] (q.word ++ [' ']) = if q.word = w then [] else q.word ++ [' '] := by
  revert w
  cases q <;> decide

/-- Dropping the word of one qualifier drops that qualifier everywhere. -/
theorem woven_drop (hw : w ∈ qualifierWords) :
    Woven keep (fun q => keep q && q.word != w) fun a b => replaceAll (w ++ [' ']) [] a = b where
  append joint ha hb := by
    rw [replaceAll_append (joint.not_straddles_word (List.mem_append_left _ hw)), ha, hb]
  qual q := by
    cases h : keep q with
    | false => simp [qualText, h, replaceAll_nil]
    | true => simp [qualText, h, replaceAll_qualifier hw]
  base base := replaceAll_of_absent (base.not_within_text hw)
  name x := replaceAll_of_absent ((isBaseName_typeName x).not_within (List.mem_append_left _ hw))
  marks := by
    intro s hs
    have letter : ∀ w ∈ qualifierWords, w.any (fun c => !isMark c) = true := by decide
    obtain ⟨c, hc, other⟩ := List.any_eq_true.mp (letter w hw)
    refine replaceAll_of_absent fun within => ?_
    rw [List.all_eq_true.mp hs c (within.subset (List.mem_append_left _ hc))] at other
    cases other
  enumWord := by
    revert w
    decide
  constWord := by
    revert w
    decide

/-- The tag of argument lists is in no printed type. -/
theorem woven_no_tag : Woven keep keep fun a _ => ¬ "__va_list_tag".toList <:+: a where
  append joint ha hb h :=
    (infix_append_cases (joint.not_straddles_names (by decide)) h).elim ha hb
  qual q h := by
    have underscore : '_' ∈ qualText keep q := h.subset (by decide)
    unfold qualText at underscore
    revert underscore
    cases keep q <;> cases q <;> decide
  base := Base.no_tag_text
  name x := by
    rw [← contains_iff_within, (isBaseName_typeName x).tag]
    decide
  marks hs h := absurd (List.all_eq_true.mp hs '_' (h.subset (by decide))) (by decide)
  enumWord := by decide
  constWord := by decide

theorem contains_tag_print (keep : Qualifier → Bool) (t : CType) :
    contains "__va_list_tag".toList (t.print keep) = false := by
  rw [← Bool.not_eq_true, contains_iff_within]
  exact woven_no_tag.print t

def isTypeChar (c : Char) : Bool := isNameChar c || isMark c

theorem woven_chars : Woven keep keep fun a _ => a.all isTypeChar = true where
  append _ ha hb := by rw [List.all_append, ha, hb, Bool.true_and]
  qual q := by
    unfold qualText
    cases keep q <;> cases q <;> decide
  base base := by
    refine List.all_eq_true.mpr fun c hc => ?_
    have h := base.chars_text c hc
    simp only [isBaseChar, Bool.or_eq_true, beq_iff_eq] at h
    rcases h with (h | rfl) | rfl
    · rw [isTypeChar, h, Bool.true_or]
    · rfl
    · rfl
  name x := List.all_eq_true.mpr fun c hc => by rw [isTypeChar, x.names c hc, Bool.true_or]
  marks hs := List.all_eq_true.mpr fun c hc => by
    rw [isTypeChar, List.all_eq_true.mp hs c hc, Bool.or_true]
  enumWord := by decide
  constWord := by decide

theorem Ending.last_text (e : Ending) : LastIs (isBlank · = false) e.text := by
  rcases e.text_cases with ⟨none, _⟩ | ⟨front, c, same, mark⟩
  · rw [none]
    exact lastIs_nil
  · rw [same, ← List.cons_append]
    exact lastIs_concat (by rcases mark with rfl | rfl <;> rfl) _

theorem Ending.last_final (e : Ending) : LastIs (isBlank · = false) e.final := by
  cases e with
  | constStars => exact fun c hc => (by cases hc; rfl)
  | stars | array => exact lastIs_nil

namespace Shape

theorem ne_nil_core (shape : Shape) : shape.core ≠ [] := by
  cases shape with
  | object base e => exact List.append_ne_nil_of_left_ne_nil base.ne_nil_text _
  | enumeration x => exact List.cons_ne_nil 'e' _

theorem head_core (shape : Shape) : HeadIs (isBlank · = false) shape.core := by
  cases shape with
  | object base e => exact base.tight_text.first.append_left base.ne_nil_text e.text
  | enumeration x => exact fun c hc => (by cases hc; rfl)

theorem tight_core (shape : Shape) : Tight shape.core := by
  refine ⟨shape.head_core, ?_⟩
  cases shape with
  | object base e => exact base.tight_text.last.append e.last_text
  | enumeration x =>
      exact (isBaseName_typeName x).tight.last.append_right x.ne_nil _

theorem tight_text (shape : Shape) : Tight shape.text := by
  cases shape with
  | object base e =>
      have core := tight_core (.object base e)
      exact ⟨core.first.append_left (ne_nil_core (.object base e)) _, core.last.append e.last_final⟩
  | enumeration x => exact tight_core (.enumeration x)

theorem ne_nil_text (shape : Shape) : shape.text ≠ [] := by
  cases shape with
  | object base e => exact List.append_ne_nil_of_left_ne_nil (ne_nil_core (.object base e)) _
  | enumeration x => exact ne_nil_core (.enumeration x)

end Shape

theorem head_quals (keep : Qualifier → Bool) (quals : List Qualifier) :
    HeadIs (isBlank · = false) (quals.flatMap (qualText keep)) := by
  induction quals with
  | nil => exact headIs_nil
  | cons q quals ih =>
      refine HeadIs.append ?_ ih
      unfold qualText
      split
      · cases q <;> exact fun c hc => (by cases hc; rfl)
      · exact headIs_nil

theorem quals_none (quals : List Qualifier) : quals.flatMap (qualText fun _ => false) = [] := by
  simp [qualText]

theorem print_function (keep : Qualifier → Bool) (quals : List Qualifier) (shape : Shape)
    (noArray : shape.isArray = false) (spaced : Bool) (params : List CType) (variadic : Bool) :
    ∃ front, (CType.function quals shape noArray spaced params variadic).print keep =
      front ++ [')'] := by
  rw [CType.print]
  simp only [← List.append_assoc]
  exact ⟨_, rfl⟩

theorem tight_print (keep : Qualifier → Bool) (t : CType) : Tight (t.print keep) := by
  cases t with
  | simple quals shape =>
      rw [CType.print]
      have text := shape.tight_text
      exact ⟨(head_quals keep quals).append text.first, text.last.append_right shape.ne_nil_text _⟩
  | function quals shape noArray spaced params variadic =>
      constructor
      · rw [CType.print]
        exact (head_quals keep quals).append (shape.head_core.append_left shape.ne_nil_core _)
      · obtain ⟨front, same⟩ := print_function keep quals shape noArray spaced params variadic
        rw [same]
        exact lastIs_concat (by decide) front

/-- The qualifiers are dropped one after the other. -/
theorem replaceAll_qualifiers (keep : Qualifier → Bool) (t : CType) :
    replaceAll "static ".toList [] (replaceAll "volatile ".toList []
      (replaceAll "const ".toList [] (t.print keep))) = t.print fun _ => false := by
  have drop (w : List Char) (hw : w ∈ qualifierWords) (keep : Qualifier → Bool) :
      replaceAll (w ++ [' ']) [] (t.print keep) = t.print fun q => keep q && q.word != w :=
    (woven_drop hw).print t
  have const := drop "const".toList (by decide) keep
  have volatile := drop "volatile".toList (by decide) fun q => keep q && q.word != "const".toList
  have static := drop "static".toList (by decide) fun q =>
    (keep q && q.word != "const".toList) && q.word != "volatile".toList
  have none : (fun q : Qualifier => ((keep q && q.word != "const".toList) &&
      q.word != "volatile".toList) && q.word != "static".toList) = fun _ => false := by
    funext q
    cases q <;> cases keep _ <;> rfl
  rw [none] at static
  exact (congrArg (replaceAll "static ".toList []) ((congrArg _ const).trans volatile)).trans static

theorem replaceAll_namespace (keep : Qualifier → Bool) (t : CType) :
    replaceAll "std::".toList [] (t.print keep) = t.print keep := by
  refine replaceAll_of_absent fun h => ?_
  have colon : isTypeChar ':' = true :=
    List.all_eq_true.mp (woven_chars.print t) ':' (h.subset (by decide))
  exact absurd colon (by decide)

theorem dropFinalConst_of_not_suffix {s : List Char} (h : ¬ "const".toList <:+ s) :
    dropFinalConst s = s := by
  rw [dropFinalConst, beforeEnd?_eq_none.mpr h]

theorem dropFinalConst_core (shape : Shape) : dropFinalConst shape.core = shape.core := by
  refine dropFinalConst_of_not_suffix ?_
  cases shape with
  | object base e =>
      by_cases he : e.text = []
      · rw [Shape.core, he, List.append_nil]
        exact base.not_suffix_text (by decide)
      · exact not_suffix_of_outside (outside_ending base he) (by decide) (by decide)
  | enumeration x => exact not_suffix_enumeration x (by decide)

theorem getLast?_constStars (base : Base) (more : Nat) :
    (Shape.object base (.constStars more)).core.getLast? = some '*' := by
  have core : (Shape.object base (.constStars more)).core =
      (base.text ++ ' ' :: List.replicate more '*') ++ ['*'] := by
    rw [List.append_assoc, List.cons_append, ← List.replicate_succ']
    exact congrArg (fun stars => base.text ++ ' ' :: stars) (List.append_nil _)
  rw [core, List.getLast?_concat]

theorem dropFinalConst_text (shape : Shape) : dropFinalConst shape.text = shape.core := by
  cases shape with
  | object base e =>
      cases e with
      | constStars more =>
          have final : beforeEnd? "const".toList (Shape.object base (.constStars more)).text =
              some (Shape.object base (.constStars more)).core := beforeEnd?_eq_some.mpr rfl
          rw [dropFinalConst, final]
          exact if_pos (.inr (getLast?_constStars base more))
      | stars | array =>
          exact (congrArg dropFinalConst (List.append_nil _)).trans
            (dropFinalConst_core (.object base _))
  | enumeration x => exact dropFinalConst_core (.enumeration x)

/-- A type whose qualifiers are gone. -/
def CType.bare : CType → List Char
  | .simple _ shape => shape.core
  | .function quals shape noArray spaced params variadic =>
      (CType.function quals shape noArray spaced params variadic).print fun _ => false

/-- Of the qualifiers and a final `const` nothing is left. -/
theorem stripQualifiers_print (keep : Qualifier → Bool) (t : CType) :
    (stripQualifiers (t.print keep)).text = t.bare := by
  simp only [stripQualifiers, replaceAll_qualifiers, replaceAll_namespace]
  cases t with
  | simple quals shape =>
      rw [CType.print, quals_none, List.nil_append, dropFinalConst_text]
      exact shape.tight_core.trim_eq
  | function quals shape noArray spaced params variadic =>
      obtain ⟨front, same⟩ :=
        print_function (fun _ => false) quals shape noArray spaced params variadic
      rw [dropFinalConst_of_not_suffix]
      · exact (tight_print _ _).trim_eq
      · rw [same]
        exact not_suffix_of_outside (outside_concat rfl front) (by decide) (by decide)

end VFromC.Spelling
