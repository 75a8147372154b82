import VFromC.Proofs.Emit.Whole
/-!
Which conditions are compared with zero.

Whether the text of an expression is a truth value is handed up by the emitter of the expression. It
can be read off the tree instead, so that whole trees are written as by an emitter that decides by
the tree alone what follows a condition.
-/
namespace VFromC.Emit
open VFromC.Syntax VFromC.Output

/-- A cast that only drops a value; it is not written. -/
def isDrop (n : Node) : Bool := n.kind = .cStyleCastExpr && Spelling.typeOf n.spelling = "void"

/-- The node that the text of an expression is made of: the one below implicit casts, parentheses,
constant wrappers and casts that drop a value. -/
def core : Node → Node
  | ⟨info, filler, []⟩ => ⟨info, filler, []⟩
  | ⟨info, filler, child :: rest⟩ =>
      if info.kind.isTransparent || isDrop ⟨info, filler, child :: rest⟩ then core child
      else ⟨info, filler, child :: rest⟩

/-- The operators that give truth values: comparisons, `&&`, `||` and `!`. -/
def IsTruthOperation (n : Node) : Prop :=
  n.kind = .binaryOperator ∧ n.opcode ∈ ["<", ">", "<=", ">=", "==", "!=", "&&", "||"] ∨
    (n.kind = .unaryOperator ∨ n.kind = .binaryOperator) ∧ n.opcode = "!"

instance (n : Node) : Decidable (IsTruthOperation n) := inferInstanceAs (Decidable (_ ∨ _))

/-- The text of an expression is a truth value: it is made by such an operator, or it is something
else that has the literal `bool`. -/
def isTruth (n : Node) : Bool :=
  match (core n).kind with
  | .null | .nullStmt => false
  | .binaryOperator | .unaryOperator => IsTruthOperation (core n)
  | _ => literalIsBool (core n)

/-- A condition that is a number. -/
def isNumber (c : Node) : Bool := !isTruth c && isIntegerType (Spelling.typeOf c.spelling)

/-- A condition that is compared with zero if it is a number. -/
def compared (em : Emitter) (c : Node) : Script Unit := do
  em.value c
  Script.when (isNumber c) (Script.write " != 0")

section Testing

variable (test : Node → Script Unit) (em : Emitter) (n : Node)

/-! The parts of the output that have a condition, the condition being written by `test`. -/

def ifTesting : Script Unit := do
  let cond ← childAt n 0 "condition"
  let yes ← childAt n 1 "then branch"
  Script.write "if "
  test cond
  Script.line " \x7b"
  block em yes
  elseBranch em n.inner[2]?

def whileTesting : Script Unit := do
  let cond ← childAt n 0 "condition"
  let body ← childAt n 1 "body"
  Script.write "for "
  test cond
  Script.line " \x7b"
  loopBody em body
  Script.line "\x7d"

def forHeadTesting (start cond step : Node) : Script Unit :=
  if start.kind = .null ∧ cond.kind = .null ∧ step.kind = .null then Script.line "for \x7b"
  else do
    Script.write "for "
    forStart em start
    Script.write "; "
    Script.when (cond.kind ≠ .null) (test cond)
    Script.write "; "
    em.value step
    Script.line " \x7b"

def forTesting : Script Unit := do
  let start ← childAt n 0 "init"
  let _ ← childAt n 1 "condition variable"
  let cond ← childAt n 2 "condition"
  let step ← childAt n 3 "increment"
  let body ← childAt n 4 "body"
  forHeadTesting test em start cond step
  loopBody em body
  Script.line "\x7d"

def doTesting : Script Unit := do
  let body ← childAt n 0 "body"
  let cond ← childAt n 1 "condition"
  Script.line "for \x7b"
  loopBody em body
  Script.indented do
    Script.write "if !("
    test cond
    Script.line ") \x7b"
    Script.indented (Script.line "break")
    Script.line "\x7d"
  Script.line "\x7d"

def choiceTesting : Script Unit := do
  let condition ← childAt n 0 "condition"
  let yes ← childAt n 1 "true value"
  let no ← childAt n 2 "false value"
  Script.write "if "
  Script.within .condition (test condition)
  Script.write " \x7b "
  em.value yes
  Script.write " \x7d else \x7b "
  em.value no
  Script.write " \x7d"

end Testing

def expressionTesting (choose : Emitter → Node → Script Unit) (em : Emitter) (n : Node) :
    Script Bool :=
  if n.kind = .conditionalOperator then
    Script.within (.expression n.kind) do
      choiceTesting (choose em) em n
      pure (literalIsBool n)
  else expression em n

def statementTesting (test choose : Emitter → Node → Script Unit) (em : Emitter) (n : Node) :
    Script Unit :=
  match n.kind with
  | .ifStmt => ifTesting (test em) em n
  | .whileStmt => whileTesting (test em) em n
  | .forStmt => forTesting (test em) em n
  | .doStmt => doTesting (test em) em n
  | .conditionalOperator => do
      let _ ← expressionTesting choose em n
      Script.endLine
  | _ => statement em n

/-- The emitter for trees of at most `depth` levels that writes the conditions of statements by
`test` and those of conditional operators by `choose`. -/
def emitterTesting (test choose : Emitter → Node → Script Unit) : Nat → Emitter
  | 0 => emitter 0
  | depth + 1 =>
      { expr := expressionTesting choose (emitterTesting test choose depth)
        stmt := statementTesting test choose (emitterTesting test choose depth) }

section Results

variable {α : Type}

/-- The script has no other result. -/
def Yields (s : Script Bool) (b : Bool) : Prop := ∀ desk a, (s desk).result = .ok a → a = b

theorem yields_pure (b : Bool) : Yields (pure b) b := fun _ _ h => (Except.ok.inj h).symm

theorem yields_fail (e : Fault) (b : Bool) : Yields (Script.fail e) b := fun _ _ h => by cases h

theorem yields_bind (s : Script α) {f : α → Script Bool} {b : Bool} (h : ∀ a, Yields (f a) b) :
    Yields (s >>= f) b := by
  intro desk a ok
  rcases hs : s desk with ⟨commands, next, e | x⟩
  · rw [Script.bind_apply_error hs] at ok
    cases ok
  · rw [Script.bind_apply_ok hs] at ok
    exact h x next a ok

theorem yields_childAt {n : Node} {i : Nat} {expected : String} {f : Node → Script Bool} {b : Bool}
    (h : ∀ child, n.inner[i]? = some child → Yields (f child) b) :
    Yields (childAt n i expected >>= f) b := by
  unfold childAt
  split
  · rename_i child hc
    rw [pure_bind]
    exact h child hc
  · exact yields_fail _ b

theorem Yields.within {s : Script Bool} {b : Bool} (h : Yields s b) (around : Surroundings) :
    Yields (Script.within around s) b :=
  fun _ a ok => h _ a ok

theorem yields_ite {c : Prop} [Decidable c] {s t : Script Bool} {b : Bool} (hs : c → Yields s b)
    (ht : ¬c → Yields t b) : Yields (if c then s else t) b := by
  split
  · exact hs ‹_›
  · exact ht ‹_›

theorem Yields.bind_eq {s : Script Bool} {b : Bool} (h : Yields s b)
    (f : Bool → Script α) : s >>= f = s >>= fun _ => f b := by
  funext desk
  rcases hs : s desk with ⟨commands, next, e | a⟩
  · rw [Script.bind_apply_error hs, Script.bind_apply_error hs]
  · have same : a = b := h desk a (by rw [hs])
    rw [Script.bind_apply_ok hs, Script.bind_apply_ok hs, same]

end Results

theorem core_of_first {n child : Node} (h : n.kind.isTransparent = true ∨ isDrop n = true)
    (hc : n.inner[0]? = some child) : core n = core child := by
  obtain ⟨info, filler, inner⟩ := n
  cases inner with
  | nil => cases hc
  | cons first rest =>
      cases hc
      have stripped : (info.kind.isTransparent || isDrop ⟨info, filler, child :: rest⟩) = true :=
        Bool.or_eq_true_iff.mpr h
      rw [core, if_pos stripped]

theorem core_of_other {n : Node} (ht : n.kind.isTransparent = false) (hd : isDrop n = false) :
    core n = n := by
  obtain ⟨info, filler, inner⟩ := n
  cases inner with
  | nil => rw [core]
  | cons first rest =>
      have stays : ¬(info.kind.isTransparent || isDrop ⟨info, filler, first :: rest⟩) = true := by
        simp [ht, hd]
      rw [core, if_neg stays]

theorem core_eq_bare {n : Node} (h : isDrop n.bare = false) : core n = n.bare := by
  fun_induction Node.bare n with
  | case1 => rw [core]
  | case2 info filler child rest transparent ih =>
      rw [core_of_first (.inl transparent) rfl, ih h]
  | case3 info filler child rest transparent =>
      exact core_of_other (Bool.eq_false_iff.mpr transparent) h

/-- The kinds whose text is a truth value only if they have the literal `bool`. -/
def isPlain : Kind → Bool
  | .null | .nullStmt | .constantExpr | .implicitCastExpr | .parenExpr | .binaryOperator
  | .unaryOperator | .cStyleCastExpr => false
  | _ => true

theorem isTruth_of_core {n : Node} (hk : isPlain n.kind = true ∨ n.kind = .cStyleCastExpr)
    (hc : core n = n) : isTruth n = literalIsBool n := by
  unfold isTruth
  rw [hc]
  split <;> simp_all [isPlain]

theorem isTruth_of_binaryOperator {n : Node} (hk : n.kind = .binaryOperator) :
    isTruth n = isTruthOperator n.opcode := by
  have same : core n = n := core_of_other (by rw [hk]; rfl) (by simp [isDrop, hk])
  rw [Bool.eq_iff_iff]
  simp only [isTruth, same, hk, IsTruthOperation, isTruthOperator]
  simp [or_assoc]

theorem isTruth_of_unaryOperator {n : Node} (hk : n.kind = .unaryOperator) :
    isTruth n = (n.opcode = "!" : Bool) := by
  have same : core n = n := core_of_other (by rw [hk]; rfl) (by simp [isDrop, hk])
  simp [isTruth, same, hk, IsTruthOperation]

section Expressions

variable {em : Emitter} {n : Node}

theorem expressionBody_yields_literal (h : isPlain n.kind = true) :
    Yields (expressionBody em n) (literalIsBool n) := by
  have plain (s : Script Unit) : Yields (s >>= fun _ => pure (literalIsBool n)) (literalIsBool n) :=
    yields_bind s fun _ => yields_pure _
  unfold expressionBody
  split
  case h_1 hk | h_2 hk | h_7 hk | h_8 hk | h_9 hk | h_10 hk | h_12 hk | h_21 hk =>
    rw [hk] at h
    cases h
  case h_32 =>
    refine yields_bind _ fun isCxx => yields_ite (fun _ => yields_pure _) fun _ => ?_
    exact yields_ite (fun _ => yields_pure _) fun _ => yields_fail _ _
  all_goals exact plain _

theorem isTruth_of_null (h : n.kind = .null ∨ n.kind = .nullStmt) : isTruth n = false := by
  have same : core n = n := by
    rcases h with h | h <;> exact core_of_other (by rw [h]; rfl) (by simp [isDrop, h])
  unfold isTruth
  rw [same]
  rcases h with h | h <;> rw [h]

theorem isTruth_of_plain (h : isPlain n.kind = true) : isTruth n = literalIsBool n := by
  refine isTruth_of_core (.inl h) (core_of_other ?_ ?_)
  · generalize n.kind = kind at h
    cases kind <;> first | rfl | cases h
  · unfold isDrop
    generalize n.kind = kind at h
    cases kind <;> first | rfl | cases h

theorem castExpression_yields (hk : n.kind = .cStyleCastExpr)
    (h : ∀ m ∈ n.inner, Yields (em.expr m) (isTruth m)) :
    Yields (castExpression em n) (isTruth n) := by
  refine yields_childAt fun operand ho => yields_ite (fun void => ?_) fun value => ?_
  · have drop : isDrop n = true := by simp [isDrop, hk, void]
    rw [isTruth, core_of_first (.inr drop) ho]
    exact h operand (List.mem_of_getElem? ho)
  · have stays : isDrop n = false := by simp [isDrop, value]
    have same : core n = n := core_of_other (by rw [hk]; rfl) stays
    rw [isTruth_of_core (.inr hk) same]
    exact yields_bind _ fun _ => yields_pure _

theorem binaryOperator_yields (hk : n.kind = .binaryOperator) :
    Yields (binaryOperator em n) (isTruth n) := by
  rw [isTruth_of_binaryOperator hk]
  refine yields_childAt fun left _ => yields_childAt fun right _ => yields_ite (fun chain => ?_) ?_
  · have op : n.opcode = "=" := by simp_all
    rw [op]
    exact yields_bind _ fun _ => yields_pure _
  · exact fun _ => yields_bind _ fun _ => yields_pure _

theorem unaryOperator_yields (hk : n.kind = .unaryOperator) :
    Yields (unaryOperator em n) (isTruth n) := by
  rw [isTruth_of_unaryOperator hk]
  exact yields_childAt fun _ _ => yields_bind _ fun _ => yields_pure _

theorem expression_yields (h : ∀ m ∈ n.inner, Yields (em.expr m) (isTruth m)) :
    Yields (expression em n) (isTruth n) := by
  have first {child : Node} (ht : n.kind.isTransparent = true) (hc : n.inner[0]? = some child) :
      Yields (em.expr child) (isTruth n) := by
    rw [isTruth, core_of_first (.inl ht) hc]
    exact h child (List.mem_of_getElem? hc)
  refine Yields.within ?_ _
  cases hp : isPlain n.kind with
  | true =>
      rw [isTruth_of_plain hp]
      exact expressionBody_yields_literal hp
  | false =>
      unfold isPlain at hp
      split at hp
      case h_9 => cases hp
      all_goals
        rename_i hk
        simp only [expressionBody, hk]
      · rw [isTruth_of_null (.inl hk)]
        exact yields_pure false
      · rw [isTruth_of_null (.inr hk)]
        exact yields_pure false
      · exact yields_childAt fun _ hc => first (by rw [hk]; rfl) hc
      · exact yields_childAt fun _ hc => first (by rw [hk]; rfl) hc
      · refine yields_childAt fun _ hc => yields_bind _ fun _ => yields_bind _ fun _ => ?_
        rw [(first (by rw [hk]; rfl) hc).bind_eq]
        exact yields_bind _ fun _ => yields_bind _ fun _ => yields_pure _
      · exact binaryOperator_yields hk
      · exact unaryOperator_yields hk
      · exact castExpression_yields hk h

theorem condition_eq_compared (h : Yields (em.expr n) (isTruth n)) :
    condition em n = compared em n := by
  rw [condition, h.bind_eq, compared, Emitter.value, bind_assoc]
  rfl

end Expressions

theorem expressionTesting_yields (choose : Emitter → Node → Script Unit) {em : Emitter} {n : Node}
    (h : ∀ m ∈ n.inner, Yields (em.expr m) (isTruth m)) :
    Yields (expressionTesting choose em n) (isTruth n) := by
  refine yields_ite (fun hk => ?_) fun _ => expression_yields h
  rw [isTruth_of_plain (by rw [hk]; rfl)]
  exact Yields.within (yields_bind _ fun _ => yields_pure _) _

theorem emitterTesting_yields (test choose : Emitter → Node → Script Unit) (depth : Nat)
    (n : Node) : Yields ((emitterTesting test choose depth).expr n) (isTruth n) := by
  induction depth generalizing n with
  | zero => exact yields_fail _ _
  | succ depth ih => exact expressionTesting_yields choose fun m _ => ih m

theorem statementTesting_eq {choose : Emitter → Node → Script Unit} {em : Emitter} {n : Node}
    (told : condition em = compared em) (same : expressionTesting choose em n = expression em n) :
    statementTesting compared choose em n = statement em n := by
  unfold statementTesting
  rw [← told]
  split
  case h_5 hk => simp only [statement, hk, same]
  case h_6 => rfl
  all_goals
    rename_i hk
    simp only [statement, hk]
    rfl

/-- Emitters that write the conditions of conditional operators alike write the same trees. -/
theorem emitterTesting_agrees {choose : Emitter → Node → Script Unit} {P : Node → Prop}
    (hP : Node.Hereditary P)
    (same : ∀ em n, P n → expressionTesting choose em n = expression em n) (depth : Nat) {n : Node}
    (hn : P n) :
    Related (fun {α : Type} (s t : Script α) => s = t) (emitterTesting compared choose depth)
      (emitter depth) n := by
  induction depth generalizing n with
  | zero => exact ⟨rfl, rfl⟩
  | succ depth ih =>
      have told : condition (emitterTesting compared choose depth) =
          compared (emitterTesting compared choose depth) :=
        funext fun c => condition_eq_compared (emitterTesting_yields compared choose depth c)
      have here := same (emitterTesting compared choose depth) n hn
      have below : ∀ m, m.Below n → Related (fun {α : Type} (s t : Script α) => s = t)
          (emitterTesting compared choose depth) (emitter depth) m :=
        fun m hm => ih (hP.of_below hm hn)
      constructor
      · exact here.trans (expression_related congruence_eq below fun _ => rfl)
      · exact (statementTesting_eq told here).trans
          (statement_related congruence_eq below (fun _ => rfl) fun _ => rfl)

theorem expressionTesting_value (em : Emitter) (n : Node) :
    expressionTesting Emitter.value em n = expression em n := by
  unfold expressionTesting
  split
  · rename_i hk
    simp only [expression, expressionBody, hk]
    rfl
  · rfl

/-- The condition of a conditional operator is no number. -/
def ChoosesByTruth (n : Node) : Prop :=
  n.kind = .conditionalOperator → ∀ c, n.inner[0]? = some c → isNumber c = false

theorem expressionTesting_compared (em : Emitter) {n : Node} (h : ChoosesByTruth n) :
    expressionTesting compared em n = expression em n := by
  rw [← expressionTesting_value]
  unfold expressionTesting
  split
  · rename_i hk
    have same : choiceTesting (compared em) em n = choiceTesting em.value em n := by
      unfold choiceTesting childAt
      split
      · rename_i c hc
        have plain : compared em c = em.value c := by
          simp only [compared, h hk c hc, Script.when, Bool.false_eq_true, if_false]
          exact bind_pure_unit
        simp only [pure_bind, plain]
      · rfl
    rw [same]
  · rfl

theorem isTruth_iff_of_bare {c : Node} (drop : isDrop c.bare = false)
    (literal : c.bare.valueText ≠ "bool") : isTruth c = true ↔ IsTruthOperation c.bare := by
  unfold isTruth
  rw [core_eq_bare drop]
  split
  case h_1 hk | h_2 hk => simp [IsTruthOperation, hk]
  case h_3 | h_4 => exact decide_eq_true_iff
  case h_5 noBinary noUnary =>
    have other : ¬IsTruthOperation c.bare := by
      rintro (⟨hk, -⟩ | ⟨hk | hk, -⟩)
      · exact noBinary hk
      · exact noUnary hk
      · exact noBinary hk
    simp [literalIsBool, literal, other]

/-- Every tree is written as by an emitter that looks at the tree to tell what follows a condition:
` != 0` follows the conditions of statements that are numbers, and nothing follows the condition of
a conditional operator, so that conditions are compared as they should be where none of the latter
is a number. A condition of an integer type is a number unless it is made by an operator that gives
truth values. -/
theorem conditions_compared_in_statements (n : Node) :
    (emitStmt n = (emitterTesting compared Emitter.value n.height).stmt n ∧
      emitExpr n = (emitterTesting compared Emitter.value n.height).expr n) ∧
    ((∀ m, m = n ∨ m.Below n → ChoosesByTruth m) →
      emitStmt n = (emitterTesting compared compared n.height).stmt n ∧
        emitExpr n = (emitterTesting compared compared n.height).expr n) ∧
    ∀ c : Node, isDrop c.bare = false → c.bare.valueText ≠ "bool" →
      (isNumber c = true ↔
        isIntegerType (Spelling.typeOf c.spelling) = true ∧ ¬IsTruthOperation c.bare) := by
  refine ⟨?_, fun chooses => ?_, fun c drop literal => ?_⟩
  · have same := emitterTesting_agrees (P := fun _ => True) (fun _ _ => trivial)
      (fun em m _ => expressionTesting_value em m) n.height (n := n) trivial
    exact ⟨same.stmt.symm, same.expr.symm⟩
  · have inherited : Node.Hereditary fun m : Node => ∀ k, k = m ∨ k.Below m → ChoosesByTruth k :=
      fun part all k hk => all k (.inr (hk.elim (fun same => same ▸ .single part) (.tail · part)))
    have same := emitterTesting_agrees inherited
      (fun em m all => expressionTesting_compared em (all m (.inl rfl))) n.height chooses
    exact ⟨same.stmt.symm, same.expr.symm⟩
  · rw [isNumber, Bool.and_eq_true, Bool.not_eq_true', and_comm, ← isTruth_iff_of_bare drop literal,
      Bool.not_eq_true]

/-- The statement `if (n) n ? 1 : 2;`. -/
def testedTwice : Node :=
  let number (text : String) : Node :=
    ⟨{ kind := .integerLiteral, value := some (.text text), type := { spelling := "int" } }, [], []⟩
  let tested : Node :=
    ⟨{ kind := .declRefExpr, type := { spelling := "int" },
       reference := some { kind := .varDecl, name := "n" } }, [], []⟩
  ⟨{ kind := .ifStmt }, [],
    [tested, ⟨{ kind := .conditionalOperator }, [], [tested, number "1", number "2"]⟩]⟩

/-- Of two conditions that are the same number, only one is compared. -/
theorem testedTwice_compares_once :
    emitStmt testedTwice {} =
      (emitterTesting compared Emitter.value testedTwice.height).stmt testedTwice {} ∧
    (emitStmt testedTwice {}).result.isOk = true ∧
    (emitStmt testedTwice {}).commands.count (.write " != 0") = 1 ∧
    ((emitterTesting compared compared testedTwice.height).stmt testedTwice {}).commands.count
      (.write " != 0") = 2 := by
  obtain ⟨⟨told, -⟩, -⟩ := conditions_compared_in_statements testedTwice
  exact ⟨by rw [told], by decide +kernel⟩

end VFromC.Emit
