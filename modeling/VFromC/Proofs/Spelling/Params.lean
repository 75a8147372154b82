import VFromC.Proofs.Spelling.Declared
/-!
The parameters of a printed function type. They are split at the commas that belong to it, however
deep other function types are nested in them.
-/
namespace VFromC.Spelling
open VFromC.Text

/-- The signs that are looked at when parameters are split. -/
def splitSigns : List Char := ['(', ')', '<', '>', ',']

def isSplitSign (c : Char) : Bool := splitSigns.contains c

theorem splitParams_cons {depth : Nat} {c : Char} (h : ¬ (c = ',' ∧ depth = 0))
    (piece rest : List Char) :
    splitParams depth piece (c :: rest) = splitParams (nesting depth c) (c :: piece) rest := by
  rw [splitParams, if_neg h]

/-- Reading goes on behind the text at the same depth and without a cut. -/
def Passes (depth : Nat) (s : List Char) : Prop :=
  ∀ piece rest, splitParams depth piece (s ++ rest) = splitParams depth (s.reverse ++ piece) rest

namespace Passes

variable {depth : Nat} {a b s : List Char}

theorem nil : Passes depth [] := fun _ _ => rfl

theorem append (ha : Passes depth a) (hb : Passes depth b) : Passes depth (a ++ b) := by
  intro piece rest
  rw [List.append_assoc, ha, hb, List.reverse_append, List.append_assoc]

theorem sign {c : Char} (cut : ¬ (c = ',' ∧ depth = 0)) (level : nesting depth c = depth) :
    Passes depth [c] := by
  intro piece rest
  rw [List.singleton_append, splitParams_cons cut, level]
  rfl

theorem of_plain (h : s.any isSplitSign = false) : Passes depth s := by
  induction s with
  | nil => exact nil
  | cons c s ih =>
      obtain ⟨plain, rest⟩ := Bool.or_eq_false_iff.mp (List.any_cons ▸ h)
      simp only [isSplitSign, splitSigns, List.contains_cons, List.contains_nil, Bool.or_false,
        Bool.or_eq_false_iff, beq_eq_false_iff_ne] at plain
      obtain ⟨opened, closed, less, more, comma⟩ := plain
      have level : nesting depth c = depth := by simp [nesting, opened, closed, less, more]
      exact append (sign (fun cut => comma cut.1) level) (ih rest)

/-- A bracket is passed when its inside is passed one deeper. -/
theorem bracketed (h : Passes (depth + 1) s) : Passes depth ('(' :: (s ++ [')'])) := by
  intro piece rest
  have opened : nesting depth '(' = depth + 1 := rfl
  have closed : nesting (depth + 1) ')' = depth := rfl
  rw [List.cons_append, splitParams_cons (fun cut => (by cases cut.1)), opened,
    List.append_assoc, h, List.singleton_append, splitParams_cons (fun cut => (by cases cut.1)),
    closed]
  simp

theorem joined {ps : List (List Char)} (h : ∀ p ∈ ps, Passes (depth + 1) p) :
    Passes (depth + 1) (joined ", ".toList ps) := by
  have comma : Passes (depth + 1) ", ".toList :=
    append (a := [',']) (sign (fun cut => (by cases cut.2)) rfl) (of_plain (by decide))
  induction ps with
  | nil => exact nil
  | cons p ps ih =>
      have head := h p List.mem_cons_self
      cases ps with
      | nil => exact head
      | cons q ps =>
          rw [joined_cons_cons]
          exact head.append (comma.append (ih fun p hp => h p (List.mem_cons_of_mem _ hp)))

end Passes

theorem plain_core (shape : Shape) : shape.core.any isSplitSign = false := by
  have signs : splitSigns.all (fun c => !isBaseChar c && !isEndingChar c) = true := rfl
  refine List.any_eq_false.mpr fun c hc sign => ?_
  have other := List.all_eq_true.mp signs c (List.contains_iff_mem.mp sign)
  rw [Bool.and_eq_true, Bool.not_eq_true', Bool.not_eq_true'] at other
  exact not_mem_core other.1 other.2 shape hc

theorem plain_final (e : Ending) : e.final.any isSplitSign = false := by
  cases e <;> rfl

/-- Without qualifiers, a result is followed by a blank or by nothing. -/
theorem gap_none (spaced : Bool) (shape : Shape) :
    ∀ c ∈ gapText (fun _ => false) spaced shape, c = ' ' := by
  have blank : ∀ c ∈ [' '], c = ' ' := fun c hc => List.mem_singleton.mp hc
  rcases shape with ⟨base, (_ | more) | more | _⟩ | x
  · exact blank
  · cases spaced with
    | false => exact fun c hc => (by cases hc)
    | true => exact blank
  · exact fun c hc => (by cases hc)
  · exact blank
  · exact blank

mutual

/-- The commas and brackets of a type are its own. -/
theorem passes_print (depth : Nat) : ∀ t : CType, Passes depth (t.print fun _ => false)
  | .simple quals shape => by
      rw [CType.print, quals_none, List.nil_append]
      cases shape with
      | object base e =>
          exact (Passes.of_plain (plain_core (.object base e))).append (.of_plain (plain_final e))
      | enumeration x => exact .of_plain (plain_core (.enumeration x))
  | .function quals shape _ spaced params variadic => by
      have args : ∀ p ∈ printAll (fun _ => false) params ++ dots variadic,
          Passes (depth + 1) p := by
        intro p hp
        rcases List.mem_append.mp hp with param | dot
        · exact passes_printAll (depth + 1) params p param
        · cases variadic with
          | false => cases dot
          | true =>
              rw [List.mem_singleton.mp dot]
              exact .of_plain (by decide)
      have gap : Passes depth (gapText (fun _ => false) spaced shape) := by
        refine .of_plain (List.any_eq_false.mpr fun c hc => ?_)
        rw [gap_none spaced shape c hc]
        decide
      -- The parameters stand one deeper, where their commas do not cut.
      have star : Passes depth "(*)".toList := .bracketed (s := ['*']) (.of_plain (by decide))
      rw [CType.print, quals_none, List.nil_append]
      refine (Passes.of_plain (plain_core shape)).append (gap.append ?_)
      exact star.append (.bracketed (.joined args))

theorem passes_printAll (depth : Nat) :
    ∀ ts : List CType, ∀ p ∈ printAll (fun _ => false) ts, Passes depth p
  | [], p, hp => by cases hp
  | t :: ts, p, hp => by
      rw [printAll] at hp
      rcases List.mem_cons.mp hp with rfl | hp
      · exact passes_print depth t
      · exact passes_printAll depth ts p hp

end

/-- Parameters that are joined are split again. Behind a comma, a blank is read first. -/
theorem splitParams_joined {ps : List (List Char)} (ne : ps ≠ [])
    (h : ∀ p ∈ ps, Passes 0 p ∧ Tight p ∧ p ≠ []) (blanks : List Char)
    (hb : blanks.all isBlank = true) :
    splitParams 0 blanks (joined ", ".toList ps) = ps := by
  induction ps generalizing blanks with
  | nil => exact absurd rfl ne
  | cons p ps ih =>
      obtain ⟨passes, tight, some⟩ := h p List.mem_cons_self
      have piece : trim (p.reverse ++ blanks).reverse = p := by
        rw [List.reverse_append, List.reverse_reverse]
        have run := trim_between (b := [])
          (fun c hc => List.all_eq_true.mp hb c (List.mem_reverse.mp hc)) tight
          (fun c hc => (by cases hc)) some
        rwa [List.append_nil] at run
      cases ps with
      | nil =>
          have last := passes blanks []
          rw [List.append_nil, splitParams, piece] at last
          exact last
      | cons q ps =>
          have rest := ih (List.cons_ne_nil q ps) (fun p hp => h p (List.mem_cons_of_mem _ hp))
            [' '] rfl
          rw [joined_cons_cons, passes]
          change splitParams 0 _ (',' :: ' ' :: joined ", ".toList (q :: ps)) = _
          rw [splitParams, if_pos ⟨rfl, rfl⟩, piece, splitParams_cons (fun cut => (by cases cut.1))]
          exact congrArg (p :: ·) rest

theorem joined_ne_nil {p : List Char} (hp : p ≠ []) (sep : List Char) (ps : List (List Char)) :
    joined sep (p :: ps) ≠ [] := by
  cases ps with
  | nil => exact hp
  | cons q ps =>
      rw [joined_cons_cons]
      exact List.append_ne_nil_of_left_ne_nil hp _

theorem tight_joined {ps : List (List Char)} (h : ∀ p ∈ ps, Tight p ∧ p ≠ []) :
    Tight (joined ", ".toList ps) := by
  induction ps with
  | nil => exact ⟨headIs_nil, lastIs_nil⟩
  | cons p ps ih =>
      obtain ⟨tight, some⟩ := h p List.mem_cons_self
      have rest := ih fun p hp => h p (List.mem_cons_of_mem _ hp)
      cases ps with
      | nil => exact tight
      | cons q ps =>
          have more := joined_ne_nil (h q (by simp)).2 ", ".toList ps
          rw [joined_cons_cons]
          refine ⟨tight.first.append_left some _, ?_⟩
          exact (rest.last.append_right more _).append_right (List.cons_ne_nil _ _) p

theorem head_print (t : CType) : HeadIs (isNameChar · = true) (t.print fun _ => false) := by
  cases t with
  | simple quals shape =>
      rw [CType.print, quals_none, List.nil_append]
      cases shape with
      | object base e =>
          exact (Shape.head_letter (.object base e)).append_left (Shape.ne_nil_core _) e.final
      | enumeration x => exact Shape.head_letter (.enumeration x)
  | function quals shape noArray spaced params variadic =>
      rw [CType.print, quals_none, List.nil_append]
      exact shape.head_letter.append_left shape.ne_nil_core _

theorem print_ne_nil (t : CType) : t.print (fun _ => false) ≠ [] := by
  cases t with
  | simple quals shape =>
      rw [CType.print]
      exact List.append_ne_nil_of_right_ne_nil _ shape.ne_nil_text
  | function quals shape noArray spaced params variadic =>
      rw [CType.print, quals_none, List.nil_append]
      exact List.append_ne_nil_of_left_ne_nil shape.ne_nil_core _

theorem print_ne_dots (t : CType) : t.print (fun _ => false) ≠ "...".toList := by
  intro h
  have letter := head_print t '.'
  rw [h] at letter
  exact absurd (letter rfl) (by decide)

/-- The parameters of a function type, as they are printed. -/
def paramsOf (params : List CType) (variadic : Bool) : List (List Char) :=
  printAll (fun _ => false) params ++ dots variadic

theorem mem_printAll {p : List Char} : ∀ {ts : List CType}, p ∈ printAll (fun _ => false) ts →
    ∃ t ∈ ts, p = t.print fun _ => false
  | [], h => by cases h
  | t :: ts, h => by
      rw [printAll] at h
      rcases List.mem_cons.mp h with rfl | h
      · exact ⟨t, List.mem_cons_self, rfl⟩
      · obtain ⟨u, hu, same⟩ := mem_printAll h
        exact ⟨u, List.mem_cons_of_mem t hu, same⟩

theorem sound_paramsOf (params : List CType) (variadic : Bool) :
    ∀ p ∈ paramsOf params variadic, Passes 0 p ∧ Tight p ∧ p ≠ [] := by
  intro p hp
  rcases List.mem_append.mp hp with param | dot
  · obtain ⟨t, _, rfl⟩ := mem_printAll param
    exact ⟨passes_print 0 t, tight_print _ t, print_ne_nil t⟩
  · cases variadic with
    | false => cases dot
    | true =>
        rw [List.mem_singleton.mp dot]
        refine ⟨.of_plain (by decide), ⟨?_, ?_⟩, by decide⟩
        · exact fun c hc => (by cases hc; rfl)
        · exact fun c hc => (by cases hc; rfl)

theorem ne_void_of_mem {c : Char} {s : List Char} (hs : c ∈ s) (hc : c ∉ "void".toList) :
    s ≠ "void".toList := by
  rintro rfl
  exact hc hs

theorem print_eq_void_iff (t : CType) :
    (t.print fun _ => false) = "void".toList ↔ t.isVoid = true := by
  cases t with
  | simple quals shape =>
      rw [CType.print, quals_none, List.nil_append]
      have starred {base : Base} {e : Ending} (blank : ' ' ∈ e.text) :
          (Shape.object base e).text ≠ "void".toList :=
        ne_void_of_mem (List.mem_append_left _ (List.mem_append_right _ blank)) (by decide)
      rcases shape with ⟨base, (_ | more) | more | ⟨count, first, rest⟩⟩ | x
      · have text : (Shape.object base (.stars 0)).text = base.text := by
          rw [Shape.text]
          exact (List.append_nil _).trans (List.append_nil _)
        rw [text, CType.isVoid, decide_eq_true_eq]
      · exact iff_of_false (starred List.mem_cons_self) Bool.false_ne_true
      · exact iff_of_false (starred List.mem_cons_self) Bool.false_ne_true
      · exact iff_of_false (starred (by simp [Ending.text_array])) Bool.false_ne_true
      · have blank : ' ' ∈ (Shape.enumeration x).text := List.mem_append_left _ (by decide)
        exact iff_of_false (ne_void_of_mem blank (by decide)) Bool.false_ne_true
  | function quals shape noArray spaced params variadic =>
      obtain ⟨front, same⟩ :=
        print_function (fun _ => false) quals shape noArray spaced params variadic
      rw [same]
      exact iff_of_false (ne_void_of_mem (c := ')') (by simp) (by decide)) Bool.false_ne_true

/-- Only the parameter `void` alone is printed so. -/
theorem joined_eq_void_iff (params : List CType) (variadic : Bool) :
    joined ", ".toList (paramsOf params variadic) = "void".toList ↔
      isNoParameter params variadic = true := by
  have several (p q : List Char) (ps : List (List Char)) :
      joined ", ".toList (p :: q :: ps) ≠ "void".toList := by
    rw [joined_cons_cons]
    exact ne_void_of_mem (c := ',') (List.mem_append_right p (List.mem_append_left _ (by decide)))
      (by decide)
  rcases params with _ | ⟨t, _ | ⟨u, rest⟩⟩
  · cases variadic with
    | false => decide
    | true => decide
  · cases variadic with
    | false => exact print_eq_void_iff t
    | true => exact iff_of_false (several _ _ _) Bool.false_ne_true
  · exact iff_of_false (several _ _ _) Bool.false_ne_true

theorem paramTexts_joined (params : List CType) (variadic : Bool) :
    paramTexts (joined ", ".toList (paramsOf params variadic)) =
      if isNoParameter params variadic then [] else paramsOf params variadic := by
  have sound := sound_paramsOf params variadic
  have tight := tight_joined fun p hp => (sound p hp).2
  have void := joined_eq_void_iff params variadic
  rw [paramTexts, tight.trim_eq]
  cases hn : isNoParameter params variadic with
  | true => exact if_pos (.inl (void.mpr hn))
  | false =>
      cases hp : paramsOf params variadic with
      | nil => rfl
      | cons p ps =>
          rw [hp] at sound void
          rw [if_neg, splitParams_joined (List.cons_ne_nil p ps) sound [] rfl]
          · rfl
          · rintro (none | none)
            · rw [void.mp none] at hn
              cases hn
            · exact joined_ne_nil (sound p List.mem_cons_self).2.2 _ ps none

end VFromC.Spelling
