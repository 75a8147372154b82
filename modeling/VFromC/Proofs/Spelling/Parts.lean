import Mathlib.Data.List.Forall2
import VFromC.Proofs.Spelling.Bases
/-!
A printed type is put together from parts at joints. What holds of the parts and goes over the
joints holds of the whole, for a type with all of its qualifiers and with only some of them.
-/
namespace VFromC.Spelling
open VFromC.Text

/-- The signs of stars and dimensions. -/
def isEndingChar (c : Char) : Bool := c.isDigit || " *[]".toList.contains c

/-- The signs around bases. -/
def isMark (c : Char) : Bool := isEndingChar c || "(),.".toList.contains c

/-- A relation between the parts of a type, first with the qualifiers that `keep` has and then with
those of `keep'`, that goes over the joints. -/
structure Woven (keep keep' : Qualifier → Bool) (Q : List Char → List Char → Prop) : Prop where
  append {a a' b b' : List Char} : Joint a b → Q a a' → Q b b' → Q (a ++ b) (a' ++ b')
  qual (q : Qualifier) : Q (qualText keep q) (qualText keep' q)
  base (base : Base) : Q base.text base.text
  name (x : TypeName) : Q x.chars x.chars
  marks {s : List Char} : s.all isMark = true → Q s s
  enumWord : Q "enum ".toList "enum ".toList
  constWord : Q "const".toList "const".toList

theorem outside_qual (keep : Qualifier → Bool) (q : Qualifier) :
    LastIs Outside (qualText keep q) := by
  unfold qualText
  split
  · exact outside_concat rfl q.word
  · exact lastIs_nil

theorem outside_quals (keep : Qualifier → Bool) (quals : List Qualifier) :
    LastIs Outside (quals.flatMap (qualText keep)) := by
  induction quals with
  | nil => exact lastIs_nil
  | cons q quals ih => exact (outside_qual keep q).append ih

namespace Ending

variable (e : Ending)

theorem chars_dims : ∀ c ∈ e.dims, isEndingChar c = true := by
  cases e with
  | array count first rest =>
      intro c hc
      obtain ⟨d, _, hc⟩ := List.mem_flatMap.mp hc
      simp only [Dimension.text, List.cons_append, List.mem_cons, List.mem_append,
        List.not_mem_nil, or_false] at hc
      rcases hc with rfl | digit | rfl
      · rfl
      · rw [isEndingChar, List.all_eq_true.mp d.isNumber c digit, Bool.true_or]
      · rfl
  | stars | constStars => exact fun c hc => (by cases hc)

theorem chars_text : ∀ c ∈ e.text, isEndingChar c = true := by
  intro c hc
  unfold text at hc
  split at hc
  · cases hc
  · rw [List.mem_cons, List.mem_append] at hc
    rcases hc with rfl | star | dim
    · rfl
    · rw [List.eq_of_mem_replicate star]
      rfl
    · exact e.chars_dims c dim

theorem marks_text : e.text.all isMark = true := by
  refine List.all_eq_true.mpr fun c hc => ?_
  rw [isMark, e.chars_text c hc, Bool.true_or]

theorem dims_array (count : Nat) (first : Dimension) (rest : List Dimension) :
    ∃ inside, (array count first rest).dims = '[' :: (inside ++ [']']) := by
  change ∃ inside, (first :: rest).flatMap Dimension.text = '[' :: (inside ++ [']'])
  induction rest generalizing first with
  | nil => exact ⟨first.digits, by simp [Dimension.text]⟩
  | cons d rest ih =>
      obtain ⟨inside, same⟩ := ih d
      refine ⟨first.digits ++ [']'] ++ ('[' :: inside), ?_⟩
      rw [List.flatMap_cons, same]
      simp [Dimension.text]

/-- Stars with the blank before them. -/
def starred : Nat → List Char
  | 0 => []
  | more + 1 => ' ' :: List.replicate (more + 1) '*'

theorem text_of_not_array (h : e.isArray = false) : e.text = starred e.count := by
  rcases e with (_ | more) | more | _
  · rfl
  · exact congrArg _ (List.append_nil _)
  · exact congrArg _ (List.append_nil _)
  · cases h

theorem text_array (count : Nat) (first : Dimension) (rest : List Dimension) :
    (array count first rest).text =
      ' ' :: (List.replicate count '*' ++ (array count first rest).dims) :=
  if_neg fun h => (by cases h.2)

/-- An ending is empty, or it starts with a blank and ends in a star or a bracket. -/
theorem text_cases : e.text = [] ∧ e.final = [] ∨
    ∃ front c, e.text = ' ' :: (front ++ [c]) ∧ (c = '*' ∨ c = ']') := by
  by_cases h : e.isArray = true
  · cases e with
    | array count first rest =>
        obtain ⟨inside, same⟩ := dims_array count first rest
        refine .inr ⟨List.replicate count '*' ++ '[' :: inside, ']', ?_, .inr rfl⟩
        rw [text_array, same, List.append_assoc]
        rfl
    | stars | constStars => cases h
  · rw [Bool.not_eq_true] at h
    rw [e.text_of_not_array h]
    rcases e with (_ | more) | more | _
    · exact .inl ⟨rfl, rfl⟩
    · exact .inr ⟨List.replicate more '*', '*', by rw [← List.replicate_succ']; rfl, .inl rfl⟩
    · exact .inr ⟨List.replicate more '*', '*', by rw [← List.replicate_succ']; rfl, .inl rfl⟩
    · cases h

end Ending

theorem outside_enum : LastIs Outside "enum ".toList := outside_concat rfl "enum".toList

theorem joint_ending (base : Base) (e : Ending) : Joint base.text e.text := by
  rcases e.text_cases with ⟨none, _⟩ | ⟨front, c, same, _⟩
  · rw [none]
    exact joint_end base.text
  · rw [same]
    exact joint_blank (fun w hw => base.not_suffix_text hw) _

theorem outside_ending (base : Base) {e : Ending} (h : e.text ≠ []) :
    LastIs Outside (base.text ++ e.text) := by
  rcases e.text_cases with ⟨none, _⟩ | ⟨front, c, same, mark⟩
  · exact absurd none h
  · have outside : isNameChar c = false := by rcases mark with rfl | rfl <;> rfl
    rw [same, ← List.cons_append, ← List.append_assoc]
    exact outside_concat outside _

theorem joint_final (base : Base) (e : Ending) : Joint (base.text ++ e.text) e.final := by
  rcases e.text_cases with ⟨_, none⟩ | ⟨front, c, same, mark⟩
  · rw [none]
    exact joint_end _
  · exact .inl (outside_ending base (same ▸ List.cons_ne_nil _ _))

theorem not_suffix_enumeration (x : TypeName) {w : List Char} (hw : w ∈ droppedWords) :
    ¬ w <:+ "enum ".toList ++ x.chars := by
  intro h
  exact (isBaseName_typeName x).not_suffix hw
    (suffix_of_outside_append outside_enum (droppedWords_names w hw).2 h)

/-- The result of a function pointer is set off from what follows it. -/
theorem joint_gap (keep : Qualifier → Bool) (spaced : Bool) {shape : Shape}
    (noArray : shape.isArray = false) (rest : List Char) :
    Joint shape.core (gapText keep spaced shape ++ '(' :: rest) := by
  rcases shape with ⟨base, (_ | more) | more | _⟩ | x
  · have core : (Shape.object base (.stars 0)).core = base.text := List.append_nil _
    rw [core]
    exact joint_blank (fun w hw => base.not_suffix_text hw) _
  · exact .inl (outside_ending base (List.cons_ne_nil _ _))
  · exact .inl (outside_ending base (List.cons_ne_nil _ _))
  · cases noArray
  · exact joint_blank (fun w hw => not_suffix_enumeration x hw) _

theorem joined_cons_cons (sep p q : List Char) (ps : List (List Char)) :
    joined sep (p :: q :: ps) = p ++ (sep ++ joined sep (q :: ps)) :=
  List.append_assoc p sep _

namespace Woven

variable {keep keep' : Qualifier → Bool} {Q : List Char → List Char → Prop}

theorem quals (W : Woven keep keep' Q) (quals : List Qualifier) :
    Q (quals.flatMap (qualText keep)) (quals.flatMap (qualText keep')) := by
  induction quals with
  | nil => exact W.marks rfl
  | cons q quals ih => exact W.append (.inl (outside_qual keep q)) (W.qual q) ih

theorem core (W : Woven keep keep' Q) (shape : Shape) : Q shape.core shape.core := by
  cases shape with
  | object base e => exact W.append (joint_ending base e) (W.base base) (W.marks e.marks_text)
  | enumeration x => exact W.append (.inl outside_enum) W.enumWord (W.name x)

theorem text (W : Woven keep keep' Q) (shape : Shape) : Q shape.text shape.text := by
  cases shape with
  | object base e =>
      refine W.append (joint_final base e) (W.core (.object base e)) ?_
      cases e with
      | constStars => exact W.constWord
      | stars | array => exact W.marks rfl
  | enumeration x => exact W.core (.enumeration x)

theorem gap (W : Woven keep keep' Q) (spaced : Bool) (shape : Shape) :
    Q (gapText keep spaced shape) (gapText keep' spaced shape) := by
  have blank : Q [' '] [' '] := W.marks (by decide)
  rcases shape with ⟨base, (_ | more) | more | _⟩ | x
  · exact blank
  · cases spaced with
    | false => exact W.marks rfl
    | true => exact blank
  · exact W.qual .const
  · exact blank
  · exact blank

theorem joined (W : Woven keep keep' Q) {ps ps' : List (List Char)} (h : List.Forall₂ Q ps ps') :
    Q (joined ", ".toList ps) (joined ", ".toList ps') := by
  induction h with
  | nil => exact W.marks rfl
  | @cons p p' ps ps' head tail ih =>
      cases tail with
      | nil => exact head
      | @cons q q' ps ps' =>
          have comma : Q ", ".toList ", ".toList := W.marks (by decide)
          have behind : LastIs Outside ", ".toList := outside_concat rfl [',']
          rw [joined_cons_cons, joined_cons_cons]
          exact W.append (joint_before rfl (by decide) p (' ' :: Spelling.joined _ (q :: ps))) head
            (W.append (.inl behind) comma ih)

theorem dots (W : Woven keep keep' Q) (variadic : Bool) :
    List.Forall₂ Q (dots variadic) (dots variadic) := by
  cases variadic with
  | false => exact .nil
  | true => exact .cons (W.marks (by decide)) .nil

mutual

/-- What holds of the parts holds of printed types, by induction over their parameters. -/
theorem print (W : Woven keep keep' Q) : ∀ t : CType, Q (t.print keep) (t.print keep')
  | .simple quals shape => by
      rw [CType.print, CType.print]
      exact W.append (.inl (outside_quals keep quals)) (W.quals quals) (W.text shape)
  | .function quals shape noArray spaced params variadic => by
      have args := W.joined (List.rel_append (W.printAll params) (W.dots variadic))
      have opening : Q "(*)(".toList "(*)(".toList := W.marks (by decide)
      have closing : Q ")".toList ")".toList := W.marks (by decide)
      rw [CType.print, CType.print]
      -- Each part is set off from all that follows it.
      refine W.append (.inl (outside_quals keep quals)) (W.quals quals) ?_
      refine W.append (joint_gap keep spaced noArray _) (W.core shape) ?_
      refine W.append (joint_before rfl (by decide) _ _) (W.gap spaced shape) ?_
      refine W.append (.inl (outside_concat rfl "(*)".toList)) opening ?_
      exact W.append (joint_before rfl (by decide) _ _) args closing

theorem printAll (W : Woven keep keep' Q) :
    ∀ ts : List CType, List.Forall₂ Q (printAll keep ts) (printAll keep' ts)
  | [] => .nil
  | t :: ts => .cons (W.print t) (W.printAll ts)

end

end Woven

end VFromC.Spelling
