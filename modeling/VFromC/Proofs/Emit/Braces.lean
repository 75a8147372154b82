import VFromC.Proofs.Emit.Nesting
import VFromC.Proofs.Emit.Related
/-!
Statements and expressions close the braces they open.
-/
namespace VFromC.Emit
open VFromC.Syntax VFromC.Output VFromC.Text

/-- What is written for a node closes the braces it opens, however many are open around it. -/
structure Even (em : Emitter) (n : Node) : Prop where
  expr (i : Nat) : Nests i i (em.expr n)
  stmt (i : Nat) : Nests i i (em.stmt n)

variable {em : Emitter} {n : Node} {i : Nat}

theorem Even.value (h : Even em n) : Nests i i (em.value n) :=
  (h.expr i).bind fun _ => nests_pure ()

section Literals

theorem isBrace_digitChar (k : Nat) : isBrace (Nat.digitChar k) = false := by
  have digits : ∀ k < 16, isBrace (Nat.digitChar k) = false := by decide
  by_cases h : k < 16
  · exact digits k h
  · have star : Nat.digitChar k = '*' := by
      unfold Nat.digitChar
      simp (disch := omega) only [if_neg]
    rw [star]
    rfl

theorem braces_runeBody {code : Int} (h : code ≠ 123 ∧ code ≠ 125) :
    braces (runeBody code) = [] := by
  unfold runeBody
  iterate 10
    refine free_ite (fun _ => rfl) fun _ => ?_
  refine free_ite (fun _ => ?_) fun _ => ?_
  · exact braces_ofList (.cons (isBrace_ofNat (by omega)) braceFree_nil)
  · split
    · rename_i c hc
      unfold wideChar? at hc
      split at hc
      · cases hc
        exact braces_ofList (.cons (isBrace_ofNat (by omega)) braceFree_nil)
      · cases hc
    · exact braces_ofList (.cons rfl (.cons rfl (.cons (isBrace_digitChar _)
        (.cons (isBrace_digitChar _) braceFree_nil))))

theorem braces_unquoted {s : String} (h : braces s = []) : braces (unquoted s) = [] := by
  unfold unquoted
  split
  · rename_i rest hr
    split
    · have free : BraceFree rest := by
        have := braces_eq_nil.mp h
        rw [hr] at this
        exact (List.forall_mem_cons.mp this).2
      exact braces_ofList (free.sublist (List.dropLast_sublist _))
    · exact h
  · exact h

theorem braces_integerText (ctx : Context) (h : n.HasNoBrace) :
    braces (integerText ctx n) = [] := by
  unfold integerText
  split
  · split <;> rfl
  · exact h.valueText

theorem braces_fieldName {name : String} (h : braces name = []) : braces (fieldName name) = [] := by
  refine braces_ofList (BraceFree.sublist ?_ (dropCopies_sublist _ _))
  rw [withoutCopies, String.toList_ofList]
  exact (braces_eq_nil.mp h).sublist (dropCopies_sublist _ _)

theorem braces_operatorSign {name : String} (h : braces name = []) :
    braces (operatorSign name) = [] := by
  refine braces_ofList ?_
  cases hr : afterStart? "operator".toList name.toList with
  | none => exact braces_eq_nil.mp h
  | some rest => exact (braces_eq_nil.mp h).sublist (afterStart?_sublist hr)

end Literals

section References

theorem braces_enumOf {known : Symbols} (hk : known.BraceFree) {member owner : String}
    (h : known.enumOf member = some owner) : braces owner = [] := by
  obtain ⟨entry, he, rfl⟩ := Option.map_eq_some_iff.mp h
  exact hk entry (List.mem_of_find?_eq_some he)

theorem braces_memberText {known : Symbols} (ctx : Context) {name : String}
    (hk : known.BraceFree) (h : braces name = []) : braces (memberText known ctx name) = [] := by
  have member : braces (Ident.spellMember name) = [] := Ident.braces_spellMember h
  have index {s : String} (hs : braces s = []) :
      braces (if ctx.inIndex then "int(" ++ s ++ ")" else s) = [] := by
    split
    · exact free_append (free_append rfl hs) rfl
    · exact hs
  cases ho : known.enumOf (Ident.spellMember name) with
  | none =>
      simp only [memberText, ho]
      exact index member
  | some owner =>
      simp only [memberText, ho]
      refine index ?_
      split
      · exact free_append rfl member
      · exact free_append (free_append (braces_enumOf hk ho) rfl) member

theorem braces_variableText (known : Symbols) {name : String} (h : braces name = []) :
    braces (variableText known name) = [] := by
  unfold variableText
  split
  · exact Ident.braces_spell h
  · exact Ident.braces_spell (Ident.braces_lowered h)

theorem reference_nests (free : n.HasNoBrace) : Nests i i (reference n) := by
  unfold reference
  cases hr : n.info.reference with
  | none => exact nests_plain (Ident.braces_spell free.name)
  | some ref =>
      refine nests_symbols_bind fun known hk => nests_context_bind fun ctx => ?_
      refine nests_command trivial (leads_plain (s := referenceText known ctx ref) ?_)
      unfold referenceText
      split
      · exact braces_memberText ctx hk (free.referred hr)
      · exact braces_variableText known (free.referred hr)

end References

section Expressions

variable (free : n.BraceFree) (below : ∀ m : Node, m.Below n → Even em m)

theorem infixOperator_nests {op : String} {left right : Node} (ho : braces op = [])
    (hl : Even em left) (hr : Even em right) : Nests i i (infixOperator em op left right) := by
  have sign : braces s!" {op} " = [] := free_append (free_append rfl ho) rfl
  exact hl.value.bind fun _ => (nests_plain sign).bind fun _ => hr.value

theorem writeAssignments_nests {source : Node} {targets : List Node} (hs : Even em source)
    (ht : ∀ t ∈ targets, Even em t) : Nests i i (writeAssignments em source targets) := by
  induction targets generalizing source with
  | nil => exact nests_pure ()
  | cons t rest ih =>
      obtain ⟨first, later⟩ := List.forall_mem_cons.mp ht
      exact first.value.bind fun _ => (nests_plain rfl).bind fun _ =>
        hs.value.bind fun _ => nests_endLine.when.bind fun _ => ih first later

include below in
theorem chainedAssignment_nests {left right : Node} (hl : left ∈ n.inner) (hr : right ∈ n.inner) :
    Nests i i (chainedAssignment em left right) := by
  refine nests_ofExcept_bind fun chain hchain => ?_
  obtain ⟨targets, source⟩ := near_of_assignmentChain (Node.near_of_mem_inner hr) hchain
  refine writeAssignments_nests (below _ (Node.below_of_near source)) fun t ht => below t ?_
  rcases List.mem_cons.mp (List.mem_reverse.mp ht) with rfl | ht
  · exact Node.below_of_mem_inner hl
  · exact Node.below_of_near (targets t ht)

include free below

theorem binaryOperator_nests : Nests i i (binaryOperator em n) := by
  refine childAt_nests fun left hl => childAt_nests fun right hr => ?_
  split
  · exact (chainedAssignment_nests below hl hr).bind fun _ => nests_pure _
  · exact (infixOperator_nests free.1.opcode (below left (Node.below_of_mem_inner hl))
      (below right (Node.below_of_mem_inner hr))).bind fun _ => nests_pure _

theorem compoundAssignment_nests : Nests i i (compoundAssignment em n) := by
  refine childAt_nests fun left hl => childAt_nests fun right hr => ?_
  exact infixOperator_nests free.1.opcode (below left (Node.below_of_mem_inner hl))
    (below right (Node.below_of_mem_inner hr))

theorem unaryOperator_nests : Nests i i (unaryOperator em n) := by
  refine childAt_nests fun operand ho => Nests.bind ?_ fun _ => nests_pure _
  have value {i : Nat} : Nests i i (em.value operand) :=
    (below operand (Node.below_of_mem_inner ho)).value
  have sign {i : Nat} : Nests i i (Script.write n.opcode) := nests_plain free.1.opcode
  unfold signedOperand
  split
  · exact value.bind fun _ => sign
  · split
    · exact value
    · exact sign.bind fun _ => value

omit free in
/-- Each of the two values stands in braces of its own. -/
theorem conditionalOperator_nests : Nests i i (conditionalOperator em n) := by
  refine childAt_nests fun cond hc => childAt_nests fun yes hy => childAt_nests fun no hn => ?_
  have value {m : Node} (hm : m ∈ n.inner) {i : Nat} : Nests i i (em.value m) :=
    (below m (Node.below_of_mem_inner hm)).value
  refine (nests_plain rfl).bind fun _ => ((value hc).within _).bind fun _ => ?_
  refine (nests_write (leads_opens rfl)).bind fun _ => (value hy).bind fun _ => ?_
  exact (nests_write (leads_shuts rfl)).bind fun _ => (value hn).bind fun _ =>
    nests_write (leads_closes rfl)

theorem memberAccess_nests : Nests i i (memberAccess em n) := by
  have field : braces s!".{Ident.spell (fieldName n.name)}" = [] :=
    free_append rfl (Ident.braces_spell (braces_fieldName free.1.name))
  exact childAt_nests fun base hb => (below base (Node.below_of_mem_inner hb)).value.bind fun _ =>
    (nests_plain field).when

omit free in
theorem arraySubscript_nests : Nests i i (arraySubscript em n) := by
  refine childAt_nests fun base hb => childAt_nests fun index hi => ?_
  have value {m : Node} (hm : m ∈ n.inner) {i : Nat} : Nests i i (em.value m) :=
    (below m (Node.below_of_mem_inner hm)).value
  refine (value hb).bind fun _ => (nests_plain rfl).bind fun _ => ?_
  refine nests_symbols_bind fun known _ => Nests.bind (Nests.within ?_ _) fun _ =>
    nests_plain rfl
  exact (nests_plain rfl).when.bind fun _ => (value hi).bind fun _ =>
    (nests_plain rfl).when

omit free below in
theorem arguments_nests {args : List Node} (h : ∀ a ∈ args, Even em a) :
    Nests i i (arguments em args) :=
  nests_separated (nests_plain rfl) fun a ha => (h a ha).value

omit free in
theorem call_nests : Nests i i (call em n) := by
  refine childAt_nests fun callee hc => Nests.bind (j := i) ?_ fun _ =>
    (nests_plain rfl).bind fun _ => ?_
  · unfold calledFunction
    split
    · rename_i text ht
      have table : ∀ entry ∈ checkedFunctions, braces entry.2 = [] := by decide
      exact nests_plain (table _ (mem_of_lookup ht))
    · split
      · exact nests_plain rfl
      · exact (below callee (Node.below_of_mem_inner hc)).value
  · refine (arguments_nests fun a ha => below a (Node.below_of_mem_inner ?_)).bind fun _ =>
      nests_plain rfl
    split at ha
    · exact List.mem_of_mem_drop (List.mem_of_mem_take ha)
    · exact List.mem_of_mem_drop ha

omit free below in
theorem calledMember_bind_nests {f : Node → Script Unit} (h : ∀ m ∈ n.inner, Nests i i (f m)) :
    Nests i i (calledMember n >>= f) := by
  simp only [calledMember]
  split
  · rename_i member next journal hnext
    rw [pure_bind]
    exact h member (mem_inner_of_nextOf hnext).1
  · simp only [bind_assoc, Script.fail_bind]
    exact Nests.bind (j := i) (nests_each fun entry _ =>
      nests_command (c := .note entry) trivial leads_nil) fun _ => nests_fail _

theorem methodCall_nests : Nests i i (methodCall em n) := by
  refine calledMember_bind_nests fun member hm => childAt_nests fun object ho => ?_
  have hobject := (Node.below_of_mem_inner ho).trans (Node.below_of_mem_inner hm)
  refine (below object hobject).value.bind fun _ => ?_
  unfold methodText
  split
  · refine (nests_plain rfl).bind fun _ => nests_forSome fun a ha => ?_
    exact (below a (Node.below_of_mem_inner (List.mem_of_getElem? ha))).value
  · split
    · exact nests_plain rfl
    · have name : braces s!".{Ident.spell (fieldName member.name)}(" = [] :=
        free_append (free_append rfl
          (Ident.braces_spell (braces_fieldName (free.inner hm).1.name))) rfl
      refine (nests_plain name).bind fun _ => (arguments_nests fun a ha => ?_).bind
        fun _ => nests_plain rfl
      exact below a (Node.below_of_mem_inner (List.mem_of_mem_drop ha))

theorem operatorCall_nests : Nests i i (operatorCall em n) := by
  refine childAt_nests fun callee hc => childAt_nests fun left hl => ?_
  refine (below left (Node.below_of_mem_inner hl)).value.bind fun _ => ?_
  have sign : braces (operatorSign callee.bare.referenceName) = [] :=
    braces_operatorSign (free.inner hc).bare.1.referenceName
  rcases hr : n.inner[2]? with _ | right
  · exact nests_plain sign
  · have spaced : braces s!" {operatorSign callee.bare.referenceName} " = [] :=
      free_append (free_append rfl sign) rfl
    exact (nests_plain spaced).bind fun _ =>
      (below right (Node.below_of_mem_inner (List.mem_of_getElem? hr))).value

/-- A record literal opens and closes a brace, an array literal does neither. -/
theorem initializerList_nests : Nests i i (initializerList em n) := by
  have values {i : Nat} :
      Nests i i (Script.separated (Script.write ", ") (element em) (elements n)) := by
    refine nests_separated (nests_plain rfl) fun m hm => ?_
    unfold element
    split
    · exact nests_plain rfl
    · exact (below m (Node.below_of_near (near_of_mem_elements hm))).value
  unfold initializerList
  dsimp only
  by_cases array : occursIn "[" n.spelling = true
  · rw [if_pos array, if_pos array]
    exact (nests_plain rfl).bind fun _ => values.bind fun _ =>
      nests_plain rfl
  · rw [if_neg array, if_neg array]
    refine (nests_write (leads_opens ?_)).bind fun _ => values.bind fun _ =>
      nests_write (leads_closes rfl)
    rw [braces_append, Spelling.braces_typeOf free.1.spelling]
    rfl

theorem sizeOperator_nests : Nests i i (sizeOperator em n) := by
  refine (nests_plain ?_).bind fun _ => Nests.bind ?_ fun _ =>
    nests_plain rfl
  · refine free_append ?_ rfl
    split
    · rfl
    · exact free.1.name
  · unfold sizeOperand
    split
    · rename_i operand ho
      have hoperand := Node.below_of_firstChild? ho
      split
      · rcases hi : operand.firstChild? with _ | inner
        · exact (below operand hoperand).value
        · exact (below inner ((Node.below_of_firstChild? hi).trans hoperand)).value
      · exact (below operand hoperand).value
    · exact nests_plain (Spelling.braces_typeOf free.1.argType)

omit free in
theorem firstOnly_nests : Nests i i (firstOnly em n) :=
  nests_forSome fun a ha => (below a (Node.below_of_firstChild? ha)).value

theorem withCleanups_nests : Nests i i (withCleanups em n) := by
  unfold withCleanups
  split
  · refine nests_forSome fun literal hl => nests_plain ?_
    exact (free.below (Node.below_of_descendant? hl)).1.valueText
  · exact firstOnly_nests below

theorem checkedCast_nests : Nests i i (checkedCast em n) := by
  have type : braces (Spelling.typeOf n.spelling ++ "(") = [] :=
    free_append (Spelling.braces_typeOf free.1.spelling) rfl
  exact (nests_plain type).bind fun _ => childAt_nests fun operand ho =>
    (below operand (Node.below_of_mem_inner ho)).value.bind fun _ => nests_plain rfl

omit free in
theorem parenthesized_nests : Nests i i (parenthesized em n) := by
  refine childAt_nests fun child hc => nests_context_bind fun c => ?_
  refine (nests_plain rfl).when.bind fun _ => ?_
  refine ((below child (Node.below_of_mem_inner hc)).expr i).bind fun _ => ?_
  exact (nests_plain rfl).when.bind fun _ => nests_pure _

theorem castExpression_nests : Nests i i (castExpression em n) := by
  refine childAt_nests fun operand ho => ?_
  have hoperand := below operand (Node.below_of_mem_inner ho)
  split
  · exact hoperand.expr i
  · have type : braces (Spelling.typeOf n.spelling ++ "(") = [] :=
      free_append (Spelling.braces_typeOf free.1.spelling) rfl
    refine Nests.bind ?_ fun _ => nests_pure _
    exact (nests_plain type).bind fun _ => hoperand.value.bind fun _ =>
      nests_plain rfl

omit below in
theorem jump_nests : Nests i i (jump n) := by
  unfold jump
  split
  · exact nests_context_bind fun _ => (nests_plainLine rfl).when
  · exact nests_plainLine rfl
  · exact nests_command free.1.target leads_nil
  · exact nests_pure ()

theorem cxxExpression_nests : Nests i i (cxxExpression em n) := by
  have plain {s : Script Unit} (h : Nests i i s) : Nests i i (s >>= fun _ => pure true) :=
    h.bind fun _ => nests_pure _
  unfold cxxExpression
  split
  · exact plain (nests_plain rfl).when
  · exact plain (methodCall_nests free below)
  · exact plain (operatorCall_nests free below)
  · exact plain (withCleanups_nests free below)
  · exact plain (firstOnly_nests below)
  · exact plain (firstOnly_nests below)
  · exact plain (checkedCast_nests free below)
  · exact plain (checkedCast_nests free below)
  · exact plain (nests_plain rfl)
  · exact plain (nests_plain free.1.valueText)
  · exact plain (nests_plain rfl)
  iterate 10 exact plain (nests_note _)
  · exact nests_pure false

theorem expression_nests : Nests i i (expression em n) := by
  have plain {s : Script Unit} (h : Nests i i s) :
      Nests i i (s >>= fun _ => pure (literalIsBool n)) := h.bind fun _ => nests_pure _
  have only : Nests i i (childAt n 0 "operand" >>= em.expr) :=
    childAt_nests fun child hc => (below child (Node.below_of_mem_inner hc)).expr i
  refine Nests.within ?_ _
  unfold expressionBody
  split
  · exact nests_pure false
  · exact nests_pure false
  · exact plain (nests_context_bind fun ctx => nests_plain (braces_integerText ctx free.1))
  · rename_i kind
    have rune := braces_runeBody (free.1.2 kind)
    exact plain (nests_plain (free_append (free_append rfl rune) rfl))
  · exact plain (nests_plain free.1.valueText)
  · have inside := braces_unquoted free.1.valueText
    exact plain (nests_plain (free_append (free_append rfl inside) rfl))
  · exact only
  · exact only
  · exact parenthesized_nests below
  · exact binaryOperator_nests free below
  · exact plain (compoundAssignment_nests free below)
  · exact unaryOperator_nests free below
  · exact plain (conditionalOperator_nests below)
  · exact plain (reference_nests free.1)
  · exact plain (memberAccess_nests free below)
  · exact plain (call_nests below)
  · exact plain (arraySubscript_nests below)
  · exact plain (sizeOperator_nests free below)
  · exact plain (initializerList_nests free below)
  · exact plain (nests_write (Spelling.zeroValue_leads free.1.spelling i))
  · exact castExpression_nests free below
  iterate 3 exact plain (jump_nests free)
  iterate 7 exact plain (nests_note _)
  · refine (cxxExpression_nests free below).bind fun isCxx => ?_
    split
    · exact nests_pure _
    · unfold unhandled
      split
      · exact nests_pure _
      · exact nests_fail _

end Expressions

section Statements

theorem statements_nests {children : List Node} (h : ∀ m ∈ children, Even em m) :
    Nests i i (statements em children) :=
  (nests_each fun m hm => (h m hm).stmt i).indented

theorem block_nests (here : Even em n) (inner : ∀ m ∈ n.inner, Even em m) :
    Nests i i (block em n) := by
  unfold block
  split
  · exact statements_nests inner
  · exact (here.stmt i).indented

theorem condition_nests (h : Even em n) : Nests i i (condition em n) :=
  (h.expr i).bind fun _ => (nests_plain rfl).when

variable (free : n.BraceFree) (below : ∀ m : Node, m.Below n → Even em m)
include below

theorem childBlock_nests {child : Node} (hc : child ∈ n.inner) : Nests i i (block em child) := by
  have hchild := Node.below_of_mem_inner hc
  exact block_nests (below child hchild) fun m hm =>
    below m ((Node.below_of_mem_inner hm).trans hchild)

/-- The first branch has left a brace open. -/
theorem elseBranch_nests {other : Option Node} (ho : ∀ no, other = some no → no ∈ n.inner) :
    Nests (i + 1) i (elseBranch em other) := by
  cases other with
  | none => exact nests_closes rfl
  | some no =>
      have hno := ho no rfl
      simp only [elseBranch]
      split
      · exact nests_closes rfl
      · split
        · exact (nests_write (leads_closes rfl)).bind fun _ =>
            (below no (Node.below_of_mem_inner hno)).stmt i
        · exact (nests_line (leads_shuts rfl)).bind fun _ => (childBlock_nests below hno).bind
            fun _ => nests_closes rfl

theorem ifStatement_nests : Nests i i (ifStatement em n) := by
  refine childAt_nests fun cond hc => childAt_nests fun yes hy => ?_
  refine (nests_plain rfl).bind fun _ => ?_
  refine (condition_nests (below cond (Node.below_of_mem_inner hc))).bind fun _ => ?_
  refine (nests_opens rfl).bind fun _ => (childBlock_nests below hy).bind fun _ => ?_
  exact elseBranch_nests below fun no hno => List.mem_of_getElem? hno

theorem whileStatement_nests : Nests i i (whileStatement em n) := by
  refine childAt_nests fun cond hc => childAt_nests fun body hb => ?_
  refine (nests_plain rfl).bind fun _ => ?_
  refine (condition_nests (below cond (Node.below_of_mem_inner hc))).bind fun _ => ?_
  exact (nests_opens rfl).bind fun _ =>
    ((childBlock_nests below hb).within _).bind fun _ => nests_closes rfl

theorem doStatement_nests : Nests i i (doStatement em n) := by
  refine childAt_nests fun body hb => childAt_nests fun cond hc => ?_
  refine (nests_opens rfl).bind fun _ =>
    ((childBlock_nests below hb).within _).bind fun _ => Nests.bind (Nests.indented ?_) fun _ =>
      nests_closes rfl
  refine (nests_plain rfl).bind fun _ => ?_
  refine (condition_nests (below cond (Node.below_of_mem_inner hc))).bind fun _ => ?_
  exact (nests_opens rfl).bind fun _ =>
    (nests_plainLine rfl).indented.bind fun _ => nests_closes rfl

theorem rangeStatement_nests : Nests i i (rangeStatement em n) := by
  unfold rangeStatement
  split
  · exact nests_fail _
  · rename_i body hb
    exact (nests_opens rfl).bind fun _ =>
      (childBlock_nests below (List.mem_of_getLast? hb)).bind fun _ => nests_closes rfl

omit below in
theorem matchArms_nests {known : Symbols} (hk : known.BraceFree) {cond : Node} {arms : List Arm}
    (hc : Even em cond) (ha : ∀ arm ∈ arms, arm.All (Even em)) :
    Nests i i (matchArms em (switchEnum? known cond arms) cond arms) := by
  have owned : ∀ owner, switchEnum? known cond arms = some owner → braces owner = [] := by
    intro owner ho
    unfold switchEnum? at ho
    split at ho
    · cases ho
    · split at ho
      · cases ho
      · split at ho
        · exact braces_enumOf hk ho
        · cases ho
  have body {arm : Arm} (h : arm ∈ arms) {i : Nat} : Nests i i (armBody em arm) :=
    statements_nests (ha arm h).2
  refine Nests.bind (j := i + 1) ?_ fun _ => Nests.bind (Nests.indented
    ((nests_each fun arm hm => ?_).bind fun _ => ?_)) fun _ => nests_closes rfl
  · refine (nests_plain rfl).bind fun _ => Nests.bind ?_ fun _ =>
      nests_opens rfl
    cases ho : switchEnum? known cond arms with
    | none => exact hc.value
    | some owner =>
        exact (nests_plain (free_append (owned owner ho) rfl)).bind fun _ =>
          hc.value.bind fun _ => nests_plain rfl
  · have harm := (List.mem_filter.mp hm).1
    refine (nests_separated (nests_plain rfl) fun label hl => ?_).bind fun _ => ?_
    · exact ((ha arm harm).1 label hl).value
    · exact (nests_opens rfl).bind fun _ => (body harm).bind fun _ =>
        nests_closes rfl
  · rcases hd : arms.find? Arm.isDefault with _ | arm
    · exact nests_line (leads_open.append leads_close)
    · exact (nests_opens rfl).bind fun _ =>
        (body (List.mem_of_find?_eq_some hd)).bind fun _ => nests_closes rfl

theorem switchStatement_nests : Nests i i (switchStatement em n) := by
  refine childAt_nests fun cond hc => ?_
  unfold switchBody
  split
  · rename_i body hb
    have hbody : body.Below n :=
      Node.below_of_mem_inner (List.mem_of_mem_drop (List.mem_of_getLast? hb))
    rw [pure_bind]
    refine nests_ofExcept_bind fun arms harms => nests_symbols_bind fun known hk => ?_
    refine (nests_note _).bind fun _ => Nests.within (matchArms_nests hk ?_ fun arm hm => ?_) _
    · exact below cond (Node.below_of_mem_inner hc)
    · have parts := all_of_collectArms (goesInside_of_hereditary (Node.hereditary_below n)) hbody
        harms arm hm
      exact ⟨fun l hl => below l (parts.1 l hl), fun s hs => below s (parts.2 s hs)⟩
  · exact nests_fail _

include free

omit below in
theorem localVariable_nests (inner : ∀ m ∈ n.inner, Even em m) :
    Nests i i (localVariable em n) := by
  unfold localVariable
  split
  · exact nests_fail _
  · refine (nests_plain rfl).when.bind fun _ => ?_
    refine Nests.bind (nests_declare ?_) fun _ => ?_
    · exact Ident.braces_spell (Ident.braces_lowered free.1.name)
    · unfold localValue
      split
      · rename_i value hv
        have hvalue : value ∈ n.inner := by
          unfold givenValue? at hv
          split at hv
          · exact List.mem_of_find?_eq_some hv
          · cases hv
        exact (nests_plain rfl).bind fun _ => (inner value hvalue).value
      · refine nests_write ?_
        rw [braces_append]
        exact leads_nil.append (Spelling.zeroValue_leads free.1.spelling i)

theorem localVariables_nests : Nests i i (localVariables em n) := by
  refine (nests_each fun _ _ => nests_note _).bind fun _ => nests_separated nests_endLine
    fun var hv => ?_
  have hvar := Node.below_of_mem_childrenOf hv
  exact localVariable_nests (free.below hvar) fun m hm =>
    below m ((Node.below_of_mem_inner hm).trans hvar)

theorem forHead_nests {start cond step : Node} (hs : start ∈ n.inner) (hc : cond ∈ n.inner)
    (ht : step ∈ n.inner) : Nests i (i + 1) (forHead em start cond step) := by
  have hstart := Node.below_of_mem_inner hs
  unfold forHead
  split
  · exact nests_opens rfl
  · refine (nests_plain rfl).bind fun _ => Nests.bind (j := i) ?_ fun _ =>
      (nests_plain rfl).bind fun _ => ?_
    · unfold forStart
      split
      · exact localVariables_nests (free.below hstart) fun m hm => below m (hm.trans hstart)
      · exact nests_pure ()
      · exact (below start hstart).value
    · have guarded {i : Nat} : Nests i i (condition em cond) :=
        condition_nests (below cond (Node.below_of_mem_inner hc))
      exact guarded.when.bind fun _ => (nests_plain rfl).bind fun _ =>
        (below step (Node.below_of_mem_inner ht)).value.bind fun _ => nests_opens rfl

theorem forStatement_nests : Nests i i (forStatement em n) := by
  refine childAt_nests fun start hs => childAt_nests fun _ _ => childAt_nests fun cond hc => ?_
  refine childAt_nests fun step ht => childAt_nests fun body hb => ?_
  exact (forHead_nests free below hs hc ht).bind fun _ =>
    ((childBlock_nests below hb).within _).bind fun _ => nests_closes rfl

theorem statement_nests : Nests i i (statement em n) := by
  have inner {m : Node} (hm : m ∈ n.inner) := below m (Node.below_of_mem_inner hm)
  unfold statement
  split
  · exact (localVariables_nests free below).bind fun _ => nests_endLine
  · refine Nests.bind ((nests_plain rfl).bind fun _ =>
      nests_forSome fun value hv => ?_) fun _ => nests_endLine
    refine nests_context_bind fun c => ?_
    split
    · exact nests_pure ()
    · exact (nests_plain rfl).bind fun _ =>
        (below value (Node.below_of_firstChild? hv)).value.within _
  · exact ifStatement_nests below
  · exact whileStatement_nests below
  · exact forStatement_nests free below
  · exact doStatement_nests below
  · exact switchStatement_nests below
  · exact (nests_opens rfl).bind fun _ => (statements_nests fun _ => inner).bind
      fun _ => nests_closes rfl
  · exact nests_plainLine rfl
  iterate 3 exact jump_nests free
  · refine (nests_command (c := .label n.info.declId n.name) free.1.name leads_nil).bind fun _ =>
      (nests_plainLine (free_append free.1.name rfl)).bind fun _ =>
        nests_each fun _ hm => (inner hm).stmt i
  · exact rangeStatement_nests below
  iterate 4 exact nests_pure ()
  · exact (expression_nests free below).bind fun _ => nests_endLine

end Statements

theorem emitter_even (depth : Nat) {n : Node} (free : n.BraceFree) : Even (emitter depth) n := by
  induction depth generalizing n with
  | zero => exact ⟨fun _ => nests_fail _, fun _ => nests_fail _⟩
  | succ depth ih =>
      have below : ∀ m : Node, m.Below n → Even (emitter depth) m := fun m hm => ih (free.below hm)
      exact ⟨fun _ => expression_nests free below, fun _ => statement_nests free below⟩

end VFromC.Emit
