import VFromC.Proofs.Emit.Lines
import VFromC.Proofs.Emit.Returned
import VFromC.Proofs.Text.Cut
/-!
Initializer lists, element by element.

The filler of an array stands for all elements that its list leaves out. How many these are follows
from the size in the type. Main statement: what is written for a list are all its elements, each in
its place, and the lists among them are written by the same rule.
-/
namespace VFromC.Text

section Digits

variable {c : Char} {s : List Char} {n : Nat}

theorem toNat_of_isDecimalDigit (h : isDecimalDigit c = true) : 48 ≤ c.toNat ∧ c.toNat ≤ 57 := by
  simp only [isDecimalDigit, Bool.and_eq_true, decide_eq_true_eq] at h
  exact h

theorem isBlank_of_isDecimalDigit (h : isDecimalDigit c = true) : isBlank c = false := by
  have bounds := toNat_of_isDecimalDigit h
  simp only [isBlank, Bool.or_eq_false_iff, Bool.and_eq_false_iff, decide_eq_false_iff_not,
    beq_eq_false_iff_ne, ne_eq]
  omega

theorem trim_of_digits (h : ∀ c ∈ s, isDecimalDigit c = true) : trim s = s := by
  refine Tight.trim_eq ⟨fun c hc => ?_, fun c hc => ?_⟩
  · exact isBlank_of_isDecimalDigit (h c (List.mem_of_mem_head? hc))
  · exact isBlank_of_isDecimalDigit (h c (List.mem_of_getLast? hc))

theorem isDecimalDigit_of_mem_numeral {zeros : Nat}
    (h : c ∈ List.replicate zeros '0' ++ Nat.toDigits 10 n) : isDecimalDigit c = true := by
  rcases List.mem_append.mp h with zero | digit
  · rw [List.eq_of_mem_replicate zero]
    rfl
  · exact Nat.isDigit_of_mem_toDigits (by decide) (by decide) digit

/-- The digits of a number stand for the number, also with zeros before them. -/
theorem digitsValue?_numeral (zeros n : Nat) :
    digitsValue? (List.replicate zeros '0' ++ Nat.toDigits 10 n) = some n := by
  have value : Nat.ofDigitChars 10 (List.replicate zeros '0' ++ Nat.toDigits 10 n) 0 = n := by
    induction zeros with
    | zero => exact Nat.ofDigitChars_toDigits (by decide) (by decide)
    | succ zeros ih =>
        rw [List.replicate_succ, List.cons_append, Nat.ofDigitChars_cons]
        exact ih
  have ne : List.replicate zeros '0' ++ Nat.toDigits 10 n ≠ [] :=
    List.append_ne_nil_of_right_ne_nil _ Nat.toDigits_ne_nil
  have digits : (List.replicate zeros '0' ++ Nat.toDigits 10 n).all isDecimalDigit = true :=
    List.all_eq_true.mpr fun _ => isDecimalDigit_of_mem_numeral
  have step : (fun (n : Nat) (c : Char) => n * 10 + (c.toNat - 48)) =
      fun n c => 10 * n + (c.toNat - '0'.toNat) := by
    funext n c
    rw [Nat.mul_comm]
    rfl
  rw [digitsValue?, if_pos ⟨ne, digits⟩, step]
  exact congrArg some value

theorem readNatural?_of_digitsValue? (h : digitsValue? s = some n) (small : n ≤ 0xFFFFFFFFFFFFFFFF) :
    readNatural? s = some n := by
  have plain : ∀ r, s ≠ '+' :: r := by
    rintro r rfl
    cases h
  unfold readNatural?
  split
  · rename_i r
    exact absurd rfl (plain r)
  · dsimp only
    rw [h, Option.filter_some, if_pos (decide_eq_true small)]

end Digits

end VFromC.Text

namespace VFromC.Emit
open VFromC.Syntax VFromC.Output VFromC.Text

/-- The type is that of an array with a size of at most 64 bits: a text, the size in brackets, and
perhaps more. -/
def SizedAs (spelling : String) (size : Nat) : Prop :=
  size ≤ 0xFFFFFFFFFFFFFFFF ∧ ∃ front zeros rest, '[' ∉ front ∧
    spelling.toList =
      front ++ '[' :: (List.replicate zeros '0' ++ Nat.toDigits 10 size ++ ']' :: rest)

theorem arrayLength?_of_sizedAs {spelling : String} {size : Nat} (h : SizedAs spelling size) :
    arrayLength? spelling = some size := by
  obtain ⟨small, front, zeros, rest, absent, text⟩ := h
  generalize hd : List.replicate zeros '0' ++ Nat.toDigits 10 size = digits at text
  have all : ∀ c ∈ digits, isDecimalDigit c = true := by
    rw [← hd]
    exact fun _ => isDecimalDigit_of_mem_numeral
  -- The first closing bracket is the one behind the digits, whatever dimensions follow.
  have inside : ']' ∉ digits := fun hc => by cases all _ hc
  have first : cut? "[".toList spelling.toList = some (front, digits ++ ']' :: rest) := by
    rw [text]
    exact cut?_of_not_mem absent
  have second : cut? "]".toList (digits ++ ']' :: rest) = some (digits, rest) :=
    cut?_of_not_mem inside
  have value : readNatural? (trim digits) = some size := by
    rw [trim_of_digits all]
    exact readNatural?_of_digitsValue? (hd ▸ digitsValue?_numeral zeros size) small
  simp only [arrayLength?, first, second, value, bind, Option.bind]

/-- The elements that a list stands for. -/
structure HasElements (n : Node) (items : List Node) : Prop where
  /-- Without a filler these are its children. -/
  unfilled : n.filler = [] → items = n.inner
  /-- With a filler, what is written comes first, and copies of the filler come up to the size. -/
  filled : ∀ filler written size, n.filler = filler :: written → SizedAs n.spelling size →
    items = written ++ List.replicate (size - written.length) filler

theorem hasElements (n : Node) : HasElements n (elements n) := by
  constructor
  · intro none
    rw [elements, none]
  · intro filler written size some sized
    rw [elements, some]
    dsimp only
    rw [arrayLength?_of_sizedAs sized, Option.getD_some]

/-- The text of an element of a list. -/
def elementText (desk : Desk) (m : Node) : List Command :=
  if m.kind = .implicitValueInitExpr then [.write "0"] else (emitExpr m desk).commands

/-- The texts of elements as a literal of the type. -/
def literalText (spelling : String) (texts : List (List Command)) : List Command :=
  let isArray := '[' ∈ spelling.toList
  .write (if isArray then "[" else Spelling.typeOf spelling ++ "\x7b") ::
    ([.write ", "].intercalate texts ++ [.write (if isArray then "]!" else "\x7d")])

/-- The text is that of a list at a desk, element by element, and so are the texts of all lists
among its elements. -/
inductive Listed (desk : Desk) : Node → List Command → Prop
  | list {n : Node} {items : List Node} (elements : HasElements n items)
      (written : ∀ m ∈ items, m.kind ≠ .implicitValueInitExpr →
        ∃ b, (emitExpr m desk).result = .ok b)
      (nested : ∀ m ∈ items, m.kind = .initListExpr → Listed desk m (emitExpr m desk).commands) :
      Listed desk n (literalText n.spelling (items.map (elementText desk)))

section Written

variable {α : Type} {desk : Desk} {n : Node}

/-- Scripts with something between them succeed together. -/
theorem Kept.separated_ok {between : Script Unit} {f : α → Script Unit} {l : List α}
    (hb : Kept between) (h : ∀ a ∈ l, Kept (f a))
    (ok : (Script.separated between f l desk).result = .ok ()) :
    (∀ a ∈ l, (f a desk).result = .ok ()) ∧
      (Script.separated between f l desk).commands =
        (between desk).commands.intercalate (l.map fun a => (f a desk).commands) := by
  induction l with
  | nil => exact ⟨fun _ h => absurd h List.not_mem_nil, rfl⟩
  | cons a l ih =>
      obtain ⟨first, others⟩ := List.forall_mem_cons.mp h
      cases l with
      | nil =>
          refine ⟨fun x hx => ?_, ?_⟩
          · rw [List.mem_singleton.mp hx]
            exact ok
          · simp [Script.separated, List.intercalate]
      | cons b l =>
          obtain ⟨_, one, rest, commands⟩ := first.bind_ok ok
          obtain ⟨_, _, last, more⟩ := hb.bind_ok rest
          obtain ⟨all, texts⟩ := ih others last
          refine ⟨List.forall_mem_cons.mpr ⟨one, all⟩, ?_⟩
          refine commands.trans ?_
          rw [more, texts]
          simp [List.intercalate]

theorem kept_element (m : Node) : Kept (element whole m) :=
  (element_consists (whole_ends True) m).1

theorem element_ok {m : Node} (ok : (element whole m desk).result = .ok ()) :
    (element whole m desk).commands = elementText desk m ∧
      (m.kind ≠ .implicitValueInitExpr → ∃ b, (emitExpr m desk).result = .ok b) := by
  by_cases hk : m.kind = .implicitValueInitExpr
  · rw [element, elementText, if_pos hk, if_pos hk]
    exact ⟨rfl, fun other => absurd hk other⟩
  · rw [element, if_neg hk] at ok ⊢
    rw [elementText, if_neg hk]
    have kept : Kept (emitExpr m) := (whole_kept m).expr
    obtain ⟨b, written, -, commands⟩ := kept.bind_ok ok
    exact ⟨commands.trans (List.append_nil _), fun _ => ⟨b, written⟩⟩

theorem occursIn_bracket (spelling : String) :
    occursIn "[" spelling = true ↔ '[' ∈ spelling.toList := by
  rw [occursIn, contains_iff_within]
  exact List.singleton_infix_iff '[' spelling.toList

theorem initializerList_ok (ok : (initializerList whole n desk).result = .ok ()) :
    (initializerList whole n desk).commands =
        literalText n.spelling ((elements n).map (elementText desk)) ∧
      ∀ m ∈ elements n, m.kind ≠ .implicitValueInitExpr →
        ∃ b, (emitExpr m desk).result = .ok b := by
  have values : Kept (Script.separated (Script.write ", ") (element whole) (elements n)) :=
    .separated (kept_write _) fun m _ => kept_element m
  obtain ⟨_, -, rest, first⟩ := (kept_write _).bind_ok ok
  obtain ⟨_, inside, -, second⟩ := values.bind_ok rest
  obtain ⟨each, texts⟩ := Kept.separated_ok (kept_write _) (fun m _ => kept_element m) inside
  have commands : (elements n).map (fun m => (element whole m desk).commands) =
      (elements n).map (elementText desk) :=
    List.map_congr_left fun m hm => (element_ok (each m hm)).1
  refine ⟨first.trans ?_, fun m hm => (element_ok (each m hm)).2⟩
  rw [second, texts, commands, literalText]
  simp only [occursIn_bracket]
  rfl

theorem initializerList_of_emitExpr {b : Bool} (hk : n.kind = .initListExpr)
    (ok : (emitExpr n desk).result = .ok b) :
    (initializerList whole n (desk.returning false)).result = .ok () ∧
      (emitExpr n desk).commands = (initializerList whole n (desk.returning false)).commands := by
  have kept : Kept (initializerList whole n) :=
    (initializerList_consists (whole_ends True)).1
  have body : expressionBody whole n =
      initializerList whole n >>= fun _ => pure (literalIsBool n) := by
    simp only [expressionBody, hk]
  have plain : passesReturned n.kind = false := by
    rw [hk]
    rfl
  rw [emitExpr_eq, expression, Script.within, enter_expression plain, body] at ok ⊢
  obtain ⟨_, inside, -, commands⟩ := kept.bind_ok ok
  exact ⟨inside, commands.trans (List.append_nil _)⟩

end Written

/-- An initializer list that is written has all its elements in their places, at any depth. -/
theorem initializers_keep_places (n : Node) (desk : Desk) (hk : n.kind = .initListExpr)
    (ok : ∃ b, (emitExpr n desk).result = .ok b) :
    Listed (desk.returning false) n (emitExpr n desk).commands := by
  -- By height, as a copy of the filler lies below the list like the elements that are written.
  induction hs : n.height using Nat.strong_induction_on generalizing n desk with
  | _ height ih =>
      obtain ⟨b, ok⟩ := ok
      obtain ⟨inside, same⟩ := initializerList_of_emitExpr hk ok
      obtain ⟨commands, written⟩ := initializerList_ok inside
      rw [same, commands]
      refine .list (hasElements n) written fun m hm list => ?_
      have lower : m.height < height :=
        hs ▸ Node.height_lt_of_below (Node.below_of_near (near_of_mem_elements hm))
      have other : m.kind ≠ .implicitValueInitExpr := by
        rw [list]
        decide
      exact ih m.height lower m (desk.returning false) list (written m hm other) rfl

/-- The list of `int [2][3]` that has one row, and one element in it. -/
def partialMatrix : Node :=
  let zero : Node := ⟨{ kind := .implicitValueInitExpr }, [], []⟩
  let one : Node := ⟨{ kind := .integerLiteral, value := some (.text "1") }, [], []⟩
  let filled (spelling : String) (filler : List Node) : Node :=
    ⟨{ kind := .initListExpr, type := { spelling } }, filler, []⟩
  filled "int [2][3]" [filled "int [3]" [zero], filled "int [3]" [zero, one]]

theorem partialMatrix_keeps_places :
    partialMatrix.kind = .initListExpr ∧ SizedAs partialMatrix.spelling 2 ∧
      (emitExpr partialMatrix {}).result = .ok false ∧
      Listed {} partialMatrix (emitExpr partialMatrix {}).commands ∧
      (({} : Draft).run (emitExpr partialMatrix {}).commands).page.pending =
        "[[1, 0, 0]!, [0, 0, 0]!]!" := by
  have sized : SizedAs partialMatrix.spelling 2 :=
    ⟨by decide, "int ".toList, 0, "[3]".toList, by decide, by decide⟩
  have ok : (emitExpr partialMatrix {}).result = .ok false := by rfl
  exact ⟨rfl, sized, ok, initializers_keep_places partialMatrix {} rfl ⟨false, ok⟩, by rfl⟩

end VFromC.Emit
