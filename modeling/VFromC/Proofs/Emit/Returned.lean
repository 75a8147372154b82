import VFromC.Proofs.Emit.Frame
/-!
Returned literals.

In a function of truth values, the literals that are the returned value itself are written as
words, and all others stay numbers. An expression that is returned is written as the tree in which
just these literals are words.
-/
namespace VFromC.Emit
open VFromC.Syntax VFromC.Output

/-- The literal as the word for its truth value. -/
def truthLiteral (n : Node) : Literal := .text (if n.valueText = "0" then "false" else "true")

/-- The tree with words in place of the literals that are the value of the whole: what is in casts,
constants and parentheses, and the two values of a conditional operator. -/
def withTruthWords : Node → Node
  | ⟨info, filler, inner⟩ =>
      if info.kind = .integerLiteral then
        ⟨{ info with value := some (truthLiteral ⟨info, filler, inner⟩) }, filler, inner⟩
      else if info.kind.isTransparent then
        match inner with
        | [] => ⟨info, filler, []⟩
        | child :: rest => ⟨info, filler, withTruthWords child :: rest⟩
      else if info.kind = .conditionalOperator then
        match inner with
        | condition :: yes :: no :: rest =>
            ⟨info, filler, condition :: withTruthWords yes :: withTruthWords no :: rest⟩
        | [condition, yes] => ⟨info, filler, [condition, withTruthWords yes]⟩
        | few => ⟨info, filler, few⟩
      else ⟨info, filler, inner⟩

/-- The desk in the value of a `return`, if there is one around. -/
def Desk.returning (desk : Desk) (returns : Bool) : Desk :=
  { desk with context := { desk.context with returnsBool := returns } }

/-- The same commands and the same fault, if there is one; the desks are those of before. -/
inductive WrittenAlike {α β : Type} (desk : Desk) : Written α → Written β → Prop where
  | ok (commands : List Command) (a : α) (b : β) :
      WrittenAlike desk ⟨commands, desk.returning true, .ok a⟩
        ⟨commands, desk.returning false, .ok b⟩
  | error (commands : List Command) (e : Fault) :
      WrittenAlike desk ⟨commands, desk.returning true, .error e⟩
        ⟨commands, desk.returning false, .error e⟩

/-- The first script does in a returned value what the second one does elsewhere. -/
def ReturnedAs {α β : Type} (s : Script α) (t : Script β) : Prop :=
  ∀ desk : Desk, WrittenAlike desk (s (desk.returning true)) (t (desk.returning false))

section Combined

variable {α β γ δ : Type}

theorem returnedAs_pure (a : α) (b : β) : ReturnedAs (pure a : Script α) (pure b : Script β) :=
  fun _ => .ok [] a b

theorem returnedAs_fail (e : Fault) :
    ReturnedAs (Script.fail e : Script α) (Script.fail e : Script β) :=
  fun _ => .error [] e

theorem returnedAs_write (text : String) : ReturnedAs (Script.write text) (Script.write text) :=
  fun _ => .ok [.write text] () ()

theorem WrittenAlike.append {desk : Desk} {one : Written α} {other : Written β}
    (h : WrittenAlike desk one other) (before : List Command) :
    WrittenAlike desk ⟨before ++ one.commands, one.desk, one.result⟩
      ⟨before ++ other.commands, other.desk, other.result⟩ := by
  cases h with
  | ok commands a b => exact .ok (before ++ commands) a b
  | error commands e => exact .error (before ++ commands) e

theorem ReturnedAs.bind {s : Script α} {t : Script β} {f : α → Script γ} {g : β → Script δ}
    (h : ReturnedAs s t) (hf : ∀ a b, ReturnedAs (f a) (g b)) :
    ReturnedAs (s >>= f) (t >>= g) := by
  intro desk
  have here := h desk
  generalize hs : s (desk.returning true) = one, ht : t (desk.returning false) = other at here
  cases here with
  | error commands e =>
      rw [Script.bind_apply_error hs, Script.bind_apply_error ht]
      exact .error commands e
  | ok commands a b =>
      rw [Script.bind_apply_ok hs, Script.bind_apply_ok ht]
      exact (hf a b desk).append commands

theorem returnedAs_context {f : Context → Script α} {g : Context → Script β}
    (h : ∀ c : Context,
      ReturnedAs (f { c with returnsBool := true }) (g { c with returnsBool := false })) :
    ReturnedAs (Script.context >>= f) (Script.context >>= g) :=
  fun desk => h desk.context desk

/-- In surroundings that take back that a value is returned, a script does the same. -/
theorem returnedAs_within {s : Script α} {around : Surroundings}
    (enter : ∀ c, around.enter c = { c with returnsBool := false })
    (kept : ∀ desk : Desk, (s (desk.returning false)).desk = desk.returning false) :
    ReturnedAs (Script.within around s) (Script.within around s) := by
  intro desk
  have inside (returns : Bool) : Script.within around s (desk.returning returns) =
      ⟨(s (desk.returning false)).commands, desk.returning returns,
        (s (desk.returning false)).result⟩ := by
    have left := around.leave_enter (desk.returning returns).context
    rw [enter] at left
    have entered : ({ desk.returning returns with
        context := around.enter (desk.returning returns).context } : Desk) =
          desk.returning false := by
      rw [enter]
      rfl
    simp only [Script.within, entered, kept]
    congr 1
    exact congrArg (Desk.mk desk.symbols) left
  rw [inside, inside]
  cases (s (desk.returning false)).result with
  | ok a => exact .ok _ a a
  | error e => exact .error _ e

theorem childAt_returnedAs {n m : Node} {i : Nat} {expected : String} {f : Node → Script α}
    {g : Node → Script β} (kind : n.kind = m.kind) (size : n.inner.length = m.inner.length)
    (h : ∀ child child', n.inner[i]? = some child → m.inner[i]? = some child' →
      ReturnedAs (f child) (g child')) :
    ReturnedAs (childAt n i expected >>= f) (childAt m i expected >>= g) := by
  unfold childAt
  rcases hn : n.inner[i]? with _ | child <;> rcases hm : m.inner[i]? with _ | child'
  · simp only [Script.fail_bind, kind]
    exact returnedAs_fail _
  · rw [List.getElem?_eq_none_iff] at hn
    have := (List.getElem?_eq_some_iff.mp hm).1
    omega
  · rw [List.getElem?_eq_none_iff] at hm
    have := (List.getElem?_eq_some_iff.mp hn).1
    omega
  · simp only [pure_bind]
    exact h child child' hn hm

end Combined

/-- A kind of expression that passes on that it is returned has the surroundings of before. -/
theorem within_expression_of_passes {kind : Kind} (h : passesReturned kind = true)
    (s : Script Bool) : Script.within (.expression kind) s = s := by
  funext desk
  simp [Script.within, Surroundings.expression, h]

theorem emitExpr_of_passes {n : Node} (h : passesReturned n.kind = true) :
    emitExpr n = expressionBody whole n := by
  rw [emitExpr_eq, expression, within_expression_of_passes h]

/-- Below all other kinds a literal is a number again. -/
theorem enter_expression {kind : Kind} (h : passesReturned kind = false) (c : Context) :
    (Surroundings.expression kind).enter c = { c with returnsBool := false } := by
  cases hc : c.returnsBool with
  | false =>
      simp only [Surroundings.expression, hc, Bool.false_and, Bool.false_eq_true, if_false]
      rw [← hc]
  | true => simp [Surroundings.expression, hc, h]

theorem returnedAs_self {n : Node} (h : passesReturned n.kind = false) :
    ReturnedAs (emitExpr n) (emitExpr n) := by
  have body (desk : Desk) :
      emitExpr n (desk.returning false) = expressionBody whole n (desk.returning false) := by
    rw [emitExpr_eq]
    simp [expression, Script.within, Surroundings.expression, Desk.returning]
  rw [emitExpr_eq]
  refine returnedAs_within (enter_expression h) fun desk => ?_
  rw [← body]
  exact ((whole_kept n).expr _).1

theorem value_returnedAs {n m : Node} (h : ReturnedAs (emitExpr n) (emitExpr m)) :
    ReturnedAs (whole.value n) (whole.value m) :=
  h.bind fun _ _ => returnedAs_pure () ()

theorem parenthesized_returnedAs {n m : Node} (kind : n.kind = m.kind)
    (size : n.inner.length = m.inner.length)
    (h : ∀ a b, n.inner[0]? = some a → m.inner[0]? = some b →
      ReturnedAs (emitExpr a) (emitExpr b)) :
    ReturnedAs (parenthesized whole n) (parenthesized whole m) := by
  have sign (c : Context) (text : String) :
      ReturnedAs (Script.when (!c.skipParens) (Script.write text))
        (Script.when (!c.skipParens) (Script.write text)) := by
    unfold Script.when
    split
    · exact returnedAs_write text
    · exact returnedAs_pure () ()
  refine childAt_returnedAs kind size fun a b ha hb => returnedAs_context fun c => ?_
  refine (sign c _).bind fun _ _ => (h a b ha hb).bind fun _ _ => ?_
  exact (sign c _).bind fun _ _ => returnedAs_pure _ _

theorem transparent_returnedAs {n m : Node} (ht : n.kind.isTransparent = true)
    (kind : n.kind = m.kind) (size : n.inner.length = m.inner.length)
    (h : ∀ a b, n.inner[0]? = some a → m.inner[0]? = some b →
      ReturnedAs (emitExpr a) (emitExpr b)) : ReturnedAs (emitExpr n) (emitExpr m) := by
  have passes {kind : Kind} (h : kind.isTransparent = true) : passesReturned kind = true := by
    cases kind <;> first | rfl | cases h
  have operand : ReturnedAs (childAt n 0 "operand" >>= emitExpr)
      (childAt m 0 "operand" >>= emitExpr) := childAt_returnedAs kind size h
  rw [emitExpr_of_passes (passes ht), emitExpr_of_passes (passes (kind ▸ ht))]
  unfold expressionBody
  rw [← kind]
  generalize n.kind = which at ht
  cases which with
  | implicitCastExpr => exact operand
  | constantExpr => exact operand
  | parenExpr => exact parenthesized_returnedAs kind size h
  | _ => cases ht

theorem emitExpr_conditional {n : Node} (hk : n.kind = .conditionalOperator) :
    emitExpr n = conditionalOperator whole n >>= fun _ => pure (literalIsBool n) := by
  rw [emitExpr_of_passes (by rw [hk]; rfl)]
  simp only [expressionBody, hk]

theorem emitExpr_integer {n : Node} (hk : n.kind = .integerLiteral) :
    emitExpr n = integer n >>= fun _ => pure (literalIsBool n) := by
  rw [emitExpr_of_passes (by rw [hk]; rfl)]
  simp only [expressionBody, hk]

theorem integer_returnedAs {n m : Node} (hn : n.kind = .integerLiteral)
    (hm : m.kind = .integerLiteral) (h : m.info.value = some (truthLiteral n)) :
    ReturnedAs (emitExpr n) (emitExpr m) := by
  have word : m.valueText = if n.valueText = "0" then "false" else "true" := by
    simp [Node.valueText, h, truthLiteral, Literal.written]
  rw [emitExpr_integer hn, emitExpr_integer hm]
  refine ReturnedAs.bind (returnedAs_context fun c => ?_) fun _ _ => returnedAs_pure _ _
  simp only [integerText, Bool.false_eq_true, if_true, if_false, word]
  exact returnedAs_write _

theorem conditional_returnedAs {n m : Node} (hk : n.kind = .conditionalOperator)
    (kind : n.kind = m.kind) (size : n.inner.length = m.inner.length)
    (condition : n.inner[0]? = m.inner[0]?)
    (values : ∀ i, i = 1 ∨ i = 2 → ∀ a b, n.inner[i]? = some a → m.inner[i]? = some b →
      ReturnedAs (emitExpr a) (emitExpr b)) : ReturnedAs (emitExpr n) (emitExpr m) := by
  rw [emitExpr_conditional hk, emitExpr_conditional (kind ▸ hk)]
  refine ReturnedAs.bind ?_ fun _ _ => returnedAs_pure _ _
  refine childAt_returnedAs kind size fun c c' hc hc' => ?_
  cases Option.some.inj (hc.symm.trans (condition.trans hc'))
  refine childAt_returnedAs kind size fun a a' ha ha' => ?_
  refine childAt_returnedAs kind size fun b b' hb hb' => ?_
  have tested : ReturnedAs (Script.within .condition (whole.value c))
      (Script.within .condition (whole.value c)) :=
    returnedAs_within (fun _ => rfl) fun _ =>
      ((whole_kept c).value congruence_kept.toInnerCongruence _).1
  have yes := value_returnedAs (values 1 (.inl rfl) a a' ha ha')
  have no := value_returnedAs (values 2 (.inr rfl) b b' hb hb')
  refine (returnedAs_write _).bind fun _ _ => tested.bind fun _ _ => ?_
  refine (returnedAs_write _).bind fun _ _ => yes.bind fun _ _ => ?_
  refine (returnedAs_write _).bind fun _ _ => no.bind fun _ _ => returnedAs_write _

/-- A returned expression is written as the tree with words in place of its literals. -/
theorem returnedAs_withTruthWords (n : Node) :
    ReturnedAs (emitExpr n) (emitExpr (withTruthWords n)) := by
  fun_induction withTruthWords n with
  | case1 info filler inner literal => exact integer_returnedAs literal literal rfl
  | case2 info filler _ transparent =>
      refine transparent_returnedAs transparent rfl rfl fun _ _ none => ?_
      cases none
  | case3 info filler _ transparent child rest ih =>
      refine transparent_returnedAs transparent rfl rfl fun a b ha hb => ?_
      cases ha
      cases hb
      exact ih
  | case4 info filler _ _ conditional condition yes no rest ihYes ihNo =>
      refine conditional_returnedAs conditional rfl rfl rfl ?_
      rintro i (rfl | rfl) a b ha hb
      · cases ha
        cases hb
        exact ihYes
      · cases ha
        cases hb
        exact ihNo
  | case5 info filler _ _ conditional condition yes ih =>
      refine conditional_returnedAs conditional rfl rfl rfl ?_
      rintro i (rfl | rfl) a b ha hb
      · cases ha
        cases hb
        exact ih
      · cases ha
  | case6 info filler _ _ conditional few notThree notTwo =>
      -- Without a second value nothing is written.
      refine conditional_returnedAs conditional rfl rfl rfl fun i hi a b ha _ => ?_
      rcases few with _ | ⟨condition, _ | ⟨yes, _ | ⟨no, rest⟩⟩⟩
      · cases ha
      · rcases hi with rfl | rfl <;> cases ha
      · exact (notTwo condition yes rfl).elim
      · exact (notThree condition yes no rest rfl).elim
  | case7 info filler inner literal transparent conditional =>
      refine returnedAs_self ?_
      change passesReturned info.kind = false
      generalize info.kind = kind at literal transparent conditional
      cases kind with
      | integerLiteral => exact absurd rfl literal
      | implicitCastExpr | constantExpr | parenExpr => exact absurd rfl transparent
      | conditionalOperator => exact absurd rfl conditional
      | _ => rfl

/-- Whatever is around, a returned expression is written just as the tree with words in place of the
literals that are its value is written elsewhere, and it fails just when that fails. -/
theorem returned_literals_are_words (n : Node) (desk : Desk) :
    (emitExpr n (desk.returning true)).result.map (fun _ => ()) =
        (emitExpr (withTruthWords n) (desk.returning false)).result.map (fun _ => ()) ∧
      ∀ draft : Draft, draft.run (emitExpr n (desk.returning true)).commands =
        draft.run (emitExpr (withTruthWords n) (desk.returning false)).commands := by
  have alike := returnedAs_withTruthWords n desk
  generalize emitExpr n (desk.returning true) = one at alike ⊢
  generalize emitExpr (withTruthWords n) (desk.returning false) = other at alike ⊢
  cases alike with
  | ok commands a b => exact ⟨rfl, fun _ => rfl⟩
  | error commands e => exact ⟨rfl, fun _ => rfl⟩

end VFromC.Emit
