import VFromC.Proofs.Emit.ArmParts
import VFromC.Proofs.Emit.Congruence
/-!
Emitters that are related below a node are related at the node.
-/
namespace VFromC.Emit
open VFromC.Syntax VFromC.Output

section Expressions

variable {R : ∀ {α : Type}, Script α → Script α → Prop} {em₁ em₂ : Emitter} {n : Node}

theorem infixOperator_related (hR : InnerCongruence R) (op : String) {left right : Node}
    (hl : Related R em₁ em₂ left) (hr : Related R em₁ em₂ right) :
    R (infixOperator em₁ op left right) (infixOperator em₂ op left right) :=
  hR.bind (hl.value hR) fun _ => hR.bind (hR.write _) fun _ => hr.value hR

theorem writeAssignments_related (hR : InnerCongruence R) {source : Node} {targets : List Node}
    (hs : Related R em₁ em₂ source) (ht : ∀ t ∈ targets, Related R em₁ em₂ t) :
    R (writeAssignments em₁ source targets) (writeAssignments em₂ source targets) := by
  induction targets generalizing source with
  | nil => exact hR.pure ()
  | cons t rest ih =>
      have first := ht t List.mem_cons_self
      have later := ih first fun x hx => ht x (List.mem_cons_of_mem t hx)
      refine hR.bind (first.value hR) fun _ => hR.bind (hR.write _) fun _ => ?_
      exact hR.bind (hs.value hR) fun _ => hR.bind (hR.when _ hR.endLine) fun _ => later

theorem not_setsPlace_of_isAssignment (h : isAssignment n = true) : ¬n.SetsPlace := by
  have kind : n.kind = .binaryOperator := by simp_all [isAssignment]
  exact Node.not_setsPlace_of_kind kind

theorem near_of_assignmentChain {k : Node} {chain : List Node × Node} (here : k.Near n)
    (h : assignmentChain n = .ok chain) : (∀ t ∈ chain.1, k.Near t) ∧ k.Near chain.2 := by
  fun_induction assignmentChain n generalizing chain with
  | case1 | case2 | case4 => cases h
  | case3 info filler target source rest inner hinner isAssign ih =>
      cases h
      have part {m : Node} (hm : m ∈ target :: source :: rest) : k.Near m :=
        here.trans (not_setsPlace_of_isAssignment isAssign) (Node.near_of_mem_inner hm)
      obtain ⟨htargets, hlast⟩ := ih (part (List.mem_cons_of_mem _ List.mem_cons_self)) hinner
      refine ⟨fun t ht => ?_, hlast⟩
      rcases List.mem_cons.mp ht with rfl | ht
      · exact part List.mem_cons_self
      · exact htargets t ht
  | case5 => cases h; exact ⟨by simp, here⟩

theorem isOfTree_of_assignmentChain {e : Fault} (h : assignmentChain n = .error e) :
    IsOfTree e := by
  fun_induction assignmentChain n with
  | case1 | case2 => cases h; trivial
  | case3 | case5 => cases h
  | case4 info filler target source rest e' he isAssign ih =>
      cases h
      exact ih he

theorem chainedAssignment_related (hR : InnerCongruence R)
    (near : ∀ m, n.Near m → Related R em₁ em₂ m) {left right : Node} (hl : left ∈ n.inner)
    (hr : right ∈ n.inner) :
    R (chainedAssignment em₁ left right) (chainedAssignment em₂ left right) := by
  refine hR.ofExcept_bind (fun _ => isOfTree_of_assignmentChain) fun chain hchain => ?_
  obtain ⟨htargets, hsource⟩ := near_of_assignmentChain (Node.near_of_mem_inner hr) hchain
  refine writeAssignments_related hR (near _ hsource) fun t ht => near t ?_
  rcases List.mem_cons.mp (List.mem_reverse.mp ht) with rfl | ht
  · exact Node.near_of_mem_inner hl
  · exact htargets t ht

theorem binaryOperator_related (hR : InnerCongruence R)
    (near : ∀ m, n.Near m → Related R em₁ em₂ m) :
    R (binaryOperator em₁ n) (binaryOperator em₂ n) := by
  refine hR.childAt_bind fun left hl => hR.childAt_bind fun right hr => ?_
  split
  · exact hR.bind (chainedAssignment_related hR near hl hr) fun _ => hR.pure _
  · refine hR.bind (infixOperator_related hR _ ?_ ?_) fun _ => hR.pure _
    · exact near left (Node.near_of_mem_inner hl)
    · exact near right (Node.near_of_mem_inner hr)

theorem compoundAssignment_related (hR : InnerCongruence R)
    (near : ∀ m, n.Near m → Related R em₁ em₂ m) :
    R (compoundAssignment em₁ n) (compoundAssignment em₂ n) := by
  refine hR.childAt_bind fun left hl => hR.childAt_bind fun right hr => ?_
  exact infixOperator_related hR _ (near left (Node.near_of_mem_inner hl))
    (near right (Node.near_of_mem_inner hr))

theorem unaryOperator_related (hR : InnerCongruence R)
    (near : ∀ m, n.Near m → Related R em₁ em₂ m) :
    R (unaryOperator em₁ n) (unaryOperator em₂ n) := by
  refine hR.childAt_bind fun operand ho => ?_
  have value := (near operand (Node.near_of_mem_inner ho)).value hR
  refine hR.bind ?_ fun _ => hR.pure _
  unfold signedOperand
  split
  · exact hR.bind value fun _ => hR.write _
  · split
    · exact value
    · exact hR.bind (hR.write _) fun _ => value

theorem conditionalOperator_related (hR : InnerCongruence R)
    (near : ∀ m, n.Near m → Related R em₁ em₂ m) :
    R (conditionalOperator em₁ n) (conditionalOperator em₂ n) := by
  refine hR.childAt_bind fun cond hc => hR.childAt_bind fun yes hy => ?_
  refine hR.childAt_bind fun no hn => ?_
  have value {m : Node} (hm : m ∈ n.inner) := (near m (Node.near_of_mem_inner hm)).value hR
  refine hR.bind (hR.write _) fun _ => ?_
  refine hR.bind (hR.within keepsPlace_condition (value hc)) fun _ => ?_
  refine hR.bind (hR.write _) fun _ => hR.bind (value hy) fun _ => ?_
  exact hR.bind (hR.write _) fun _ => hR.bind (value hn) fun _ => hR.write _

theorem memberAccess_related (hR : InnerCongruence R)
    (near : ∀ m, n.Near m → Related R em₁ em₂ m) :
    R (memberAccess em₁ n) (memberAccess em₂ n) := by
  refine hR.childAt_bind fun base hb => ?_
  exact hR.bind ((near base (Node.near_of_mem_inner hb)).value hR) fun _ =>
    hR.when _ (hR.write _)

theorem arguments_related (hR : InnerCongruence R) {args : List Node}
    (h : ∀ a ∈ args, Related R em₁ em₂ a) : R (arguments em₁ args) (arguments em₂ args) :=
  hR.separated (hR.write _) fun a ha => (h a ha).value hR

theorem call_related (hR : InnerCongruence R) (near : ∀ m, n.Near m → Related R em₁ em₂ m) :
    R (call em₁ n) (call em₂ n) := by
  refine hR.childAt_bind fun callee hc => hR.bind ?_ fun _ => hR.bind (hR.write _) fun _ => ?_
  · unfold calledFunction
    split
    · exact hR.write _
    · split
      · exact hR.write _
      · exact (near callee (Node.near_of_mem_inner hc)).value hR
  · refine hR.bind (arguments_related hR fun a ha => near a (Node.near_of_mem_inner ?_)) fun _ =>
      hR.write _
    split at ha
    · exact List.mem_of_mem_drop (List.mem_of_mem_take ha)
    · exact List.mem_of_mem_drop ha

theorem mem_inner_of_nextOf {c next : Children} {kind : Kind} {m : Node} {journal : Journal}
    (h : c.nextOf kind = (some m, next, journal)) : m ∈ c.parent.inner ∧ m.kind = kind := by
  unfold Children.nextOf at h
  split at h
  · cases h
  · rename_i child rest hr
    split at h
    · cases h
      have hm : m ∈ c.remaining := by rw [hr]; exact List.mem_cons_self
      exact ⟨List.mem_of_mem_drop hm, ‹_›⟩
    · cases h

theorem calledMember_bind (hR : InnerCongruence R) {f g : Node → Script Unit}
    (h : ∀ m ∈ n.inner, m.kind = .memberExpr → R (f m) (g m)) :
    R (calledMember n >>= f) (calledMember n >>= g) := by
  simp only [calledMember]
  split
  · rename_i member next journal hnext
    obtain ⟨hm, kind⟩ := mem_inner_of_nextOf hnext
    simpa only [pure_bind] using h member hm kind
  · simp only [bind_assoc, Script.fail_bind]
    exact hR.bind (hR.each fun _ _ => hR.text trivial) fun _ => hR.fail trivial

theorem methodCall_related (hR : InnerCongruence R)
    (near : ∀ m, n.Near m → Related R em₁ em₂ m) :
    R (methodCall em₁ n) (methodCall em₂ n) := by
  refine calledMember_bind hR fun member hm kind => hR.childAt_bind fun object ho => ?_
  have hobject := (Node.near_of_mem_inner hm).trans (Node.not_setsPlace_of_kind kind)
    (Node.near_of_mem_inner ho)
  refine hR.bind ((near object hobject).value hR) fun _ => ?_
  unfold methodText
  split
  · refine hR.bind (hR.write _) fun _ => hR.forSome fun a ha => ?_
    exact (near a (Node.near_of_mem_inner (List.mem_of_getElem? ha))).value hR
  · split
    · exact hR.write _
    · refine hR.bind (hR.write _) fun _ => hR.bind (arguments_related hR fun a ha => ?_) fun _ =>
        hR.write _
      exact near a (Node.near_of_mem_inner (List.mem_of_mem_drop ha))

theorem operatorCall_related (hR : InnerCongruence R)
    (near : ∀ m, n.Near m → Related R em₁ em₂ m) :
    R (operatorCall em₁ n) (operatorCall em₂ n) := by
  refine hR.childAt_bind fun callee _ => hR.childAt_bind fun left hl => ?_
  refine hR.bind ((near left (Node.near_of_mem_inner hl)).value hR) fun _ => ?_
  rcases hr : n.inner[2]? with _ | right
  · exact hR.write _
  · refine hR.bind (hR.write _) fun _ => ?_
    exact (near right (Node.near_of_mem_inner (List.mem_of_getElem? hr))).value hR

theorem near_of_mem_elements {m : Node} (h : m ∈ elements n) : n.Near m := by
  unfold elements at h
  split at h
  · exact Node.near_of_mem_inner h
  · rename_i filler written hf
    apply Node.Near.part
    right
    rw [hf]
    rcases List.mem_append.mp h with h | h
    · exact List.mem_cons_of_mem _ h
    · rw [List.eq_of_mem_replicate h]; exact List.mem_cons_self

theorem initializerList_related (hR : InnerCongruence R)
    (near : ∀ m, n.Near m → Related R em₁ em₂ m) :
    R (initializerList em₁ n) (initializerList em₂ n) := by
  refine hR.bind (hR.write _) fun _ => hR.bind (hR.separated (hR.write _) fun m hm => ?_) fun _ =>
    hR.write _
  unfold element
  split
  · exact hR.write _
  · exact (near m (near_of_mem_elements hm)).value hR

theorem sizeOperator_related (hR : InnerCongruence R)
    (near : ∀ m, n.Near m → Related R em₁ em₂ m) :
    R (sizeOperator em₁ n) (sizeOperator em₂ n) := by
  refine hR.bind (hR.write _) fun _ => hR.bind ?_ fun _ => hR.write _
  unfold sizeOperand
  split
  · rename_i operand ho
    have hoperand := Node.near_of_firstChild? ho
    split
    · rename_i kind
      rcases hi : operand.firstChild? with _ | inner
      · exact (near operand hoperand).value hR
      · have hinner :=
          hoperand.trans (Node.not_setsPlace_of_kind kind) (Node.near_of_firstChild? hi)
        exact (near inner hinner).value hR
    · exact (near operand hoperand).value hR
  · exact hR.write _

theorem firstOnly_related (hR : InnerCongruence R)
    (near : ∀ m, n.Near m → Related R em₁ em₂ m) :
    R (firstOnly em₁ n) (firstOnly em₂ n) :=
  hR.forSome fun a ha => (near a (Node.near_of_firstChild? ha)).value hR

theorem withCleanups_related (hR : InnerCongruence R)
    (near : ∀ m, n.Near m → Related R em₁ em₂ m) :
    R (withCleanups em₁ n) (withCleanups em₂ n) := by
  unfold withCleanups
  split
  · exact hR.forSome fun _ _ => hR.write _
  · exact firstOnly_related hR near

theorem checkedCast_related (hR : InnerCongruence R)
    (near : ∀ m, n.Near m → Related R em₁ em₂ m) :
    R (checkedCast em₁ n) (checkedCast em₂ n) := by
  refine hR.bind (hR.write _) fun _ => hR.childAt_bind fun operand ho => ?_
  exact hR.bind ((near operand (Node.near_of_mem_inner ho)).value hR) fun _ => hR.write _

theorem parenthesized_related (hR : InnerCongruence R)
    (near : ∀ m, n.Near m → Related R em₁ em₂ m) :
    R (parenthesized em₁ n) (parenthesized em₂ n) := by
  refine hR.childAt_bind fun child hc => hR.context (fun _ _ _ => rfl) fun c => ?_
  refine hR.bind (hR.when _ (hR.write _)) fun _ => ?_
  refine hR.bind (near child (Node.near_of_mem_inner hc)).expr fun _ => ?_
  exact hR.bind (hR.when _ (hR.write _)) fun _ => hR.pure _

theorem castExpression_related (hR : InnerCongruence R)
    (near : ∀ m, n.Near m → Related R em₁ em₂ m) :
    R (castExpression em₁ n) (castExpression em₂ n) := by
  refine hR.childAt_bind fun operand ho => ?_
  have hoperand := near operand (Node.near_of_mem_inner ho)
  split
  · exact hoperand.expr
  · refine hR.bind ?_ fun _ => hR.pure _
    exact hR.bind (hR.write _) fun _ => hR.bind (hoperand.value hR) fun _ => hR.write _

theorem jump_related (hR : InnerCongruence R)
    (goto : n.kind = .gotoStmt → R (Script.command (.jump n.info.targetLabelId))
      (Script.command (.jump n.info.targetLabelId))) : R (jump n) (jump n) := by
  unfold jump
  split
  · exact hR.context (fun _ _ _ => rfl) fun _ => hR.when _ (hR.line _)
  · exact hR.line _
  · rename_i h; exact goto h
  · exact hR.pure ()

theorem unhandled_related (hR : InnerCongruence R)
    (n : Node) : R (unhandled n) (unhandled n) := by
  unfold unhandled
  split
  · exact hR.pure _
  · exact hR.fail trivial

theorem cxxExpression_inner_related (hR : InnerCongruence R)
    (near : ∀ m, n.Near m → Related R em₁ em₂ m) :
    R (cxxExpression em₁ n) (cxxExpression em₂ n) := by
  have plain {s t : Script Unit} (h : R s t) :
      R (s >>= fun _ => pure true) (t >>= fun _ => pure true) := hR.bind h fun _ => hR.pure _
  unfold cxxExpression
  split
  · exact plain (hR.when _ (hR.write _))
  · exact plain (methodCall_related hR near)
  · exact plain (operatorCall_related hR near)
  · exact plain (withCleanups_related hR near)
  · exact plain (firstOnly_related hR near)
  · exact plain (firstOnly_related hR near)
  · exact plain (checkedCast_related hR near)
  · exact plain (checkedCast_related hR near)
  iterate 13 exact plain (hR.text trivial)
  · exact hR.pure false

/-- Only references and subscripts have to do with the place. -/
theorem expression_inner_related (hR : InnerCongruence R)
    (near : ∀ m, n.Near m → Related R em₁ em₂ m)
    (goto : n.kind = .gotoStmt → R (Script.command (.jump n.info.targetLabelId))
      (Script.command (.jump n.info.targetLabelId)))
    (refers : n.kind = .declRefExpr → R (reference n) (reference n))
    (subscript : n.kind = .arraySubscriptExpr → R (arraySubscript em₁ n) (arraySubscript em₂ n)) :
    R (expression em₁ n) (expression em₂ n) := by
  have plain {s t : Script Unit} (h : R s t) :
      R (s >>= fun _ => pure (literalIsBool n)) (t >>= fun _ => pure (literalIsBool n)) :=
    hR.bind h fun _ => hR.pure _
  have only : R (childAt n 0 "operand" >>= em₁.expr) (childAt n 0 "operand" >>= em₂.expr) :=
    hR.childAt_bind fun child hc => (near child (Node.near_of_mem_inner hc)).expr
  refine hR.within (keepsPlace_expression _) ?_
  unfold expressionBody
  split
  · exact hR.pure false
  · exact hR.pure false
  · exact plain (hR.context (fun _ _ _ => rfl) fun _ => hR.write _)
  iterate 3 exact plain (hR.write _)
  · exact only
  · exact only
  · exact parenthesized_related hR near
  · exact binaryOperator_related hR near
  · exact plain (compoundAssignment_related hR near)
  · exact unaryOperator_related hR near
  · exact plain (conditionalOperator_related hR near)
  · exact plain (refers ‹_›)
  · exact plain (memberAccess_related hR near)
  · exact plain (call_related hR near)
  · exact plain (subscript ‹_›)
  · exact plain (sizeOperator_related hR near)
  · exact plain (initializerList_related hR near)
  · exact plain (hR.write _)
  · exact castExpression_related hR near
  iterate 3 exact plain (jump_related hR goto)
  iterate 7 exact plain (hR.note _)
  · refine hR.bind (cxxExpression_inner_related hR near) fun isCxx => ?_
    split
    · exact hR.pure _
    · exact unhandled_related hR n

end Expressions

section Statements

variable {R : ∀ {α : Type}, Script α → Script α → Prop} {em₁ em₂ : Emitter} {n : Node}

theorem statements_related (hR : InnerCongruence R) {children : List Node}
    (h : ∀ m ∈ children, Related R em₁ em₂ m) :
    R (statements em₁ children) (statements em₂ children) :=
  hR.indented (hR.each fun m hm => (h m hm).stmt)

theorem block_inner_related (hR : InnerCongruence R) (here : Related R em₁ em₂ n)
    (inner : n.kind = .compoundStmt → ∀ m ∈ n.inner, Related R em₁ em₂ m) :
    R (block em₁ n) (block em₂ n) := by
  unfold block
  split
  · exact statements_related hR (inner ‹_›)
  · exact hR.indented here.stmt

theorem localVariable_related (hR : InnerCongruence R)
    (inner : ∀ m ∈ n.inner, Related R em₁ em₂ m) :
    R (localVariable em₁ n) (localVariable em₂ n) := by
  unfold localVariable
  split
  · exact hR.fail trivial
  · refine hR.bind (hR.when _ (hR.write _)) fun _ => hR.bind (hR.declare n) fun _ => ?_
    unfold localValue
    split
    · rename_i value hv
      have hvalue : value ∈ n.inner := by
        unfold givenValue? at hv
        split at hv
        · exact List.mem_of_find?_eq_some hv
        · cases hv
      exact hR.bind (hR.write _) fun _ => (inner value hvalue).value hR
    · exact hR.write _

theorem localVariables_inner_related (hR : InnerCongruence R)
    (near : ∀ m, n.Near m → Related R em₁ em₂ m) :
    R (localVariables em₁ n) (localVariables em₂ n) := by
  refine hR.bind (hR.each fun _ _ => hR.note _) fun _ => hR.separated hR.endLine fun var hv => ?_
  obtain ⟨hv, kind⟩ := List.mem_filter.mp hv
  refine localVariable_related hR fun m hm => near m ?_
  exact (Node.near_of_mem_inner hv).trans (Node.not_setsPlace_of_kind (of_decide_eq_true kind))
    (Node.near_of_mem_inner hm)

theorem condition_related (hR : InnerCongruence R) (h : Related R em₁ em₂ n) :
    R (condition em₁ n) (condition em₂ n) :=
  hR.bind h.expr fun _ => hR.when _ (hR.write _)

theorem child_block_related (hR : InnerCongruence R)
    (near : ∀ m, n.Near m → Related R em₁ em₂ m)
    {child : Node} (hc : child ∈ n.inner) : R (block em₁ child) (block em₂ child) :=
  have hchild := Node.near_of_mem_inner hc
  block_inner_related hR (near child hchild) fun kind m hm =>
    near m (hchild.trans (Node.not_setsPlace_of_kind kind) (Node.near_of_mem_inner hm))

theorem loopBody_related (hR : InnerCongruence R) (near : ∀ m, n.Near m → Related R em₁ em₂ m)
    {child : Node} (hc : child ∈ n.inner) : R (loopBody em₁ child) (loopBody em₂ child) :=
  hR.within keepsPlace_loop (child_block_related hR near hc)

theorem ifStatement_related (hR : InnerCongruence R)
    (near : ∀ m, n.Near m → Related R em₁ em₂ m) :
    R (ifStatement em₁ n) (ifStatement em₂ n) := by
  refine hR.childAt_bind fun cond hc => hR.childAt_bind fun yes hy => ?_
  refine hR.bind (hR.write _) fun _ => ?_
  refine hR.bind (condition_related hR (near cond (Node.near_of_mem_inner hc))) fun _ => ?_
  refine hR.bind (hR.line _) fun _ => hR.bind (child_block_related hR near hy) fun _ => ?_
  rcases hn : n.inner[2]? with _ | no
  · exact hR.line _
  · have hno := List.mem_of_getElem? hn
    simp only [elseBranch]
    split
    · exact hR.line _
    · split
      · exact hR.bind (hR.write _) fun _ => (near no (Node.near_of_mem_inner hno)).stmt
      · exact hR.bind (hR.line _) fun _ => hR.bind (child_block_related hR near hno) fun _ =>
          hR.line _

theorem whileStatement_related (hR : InnerCongruence R)
    (near : ∀ m, n.Near m → Related R em₁ em₂ m) :
    R (whileStatement em₁ n) (whileStatement em₂ n) := by
  refine hR.childAt_bind fun cond hc => hR.childAt_bind fun body hb => ?_
  refine hR.bind (hR.write _) fun _ => ?_
  refine hR.bind (condition_related hR (near cond (Node.near_of_mem_inner hc))) fun _ => ?_
  exact hR.bind (hR.line _) fun _ => hR.bind (loopBody_related hR near hb) fun _ => hR.line _

theorem forHead_related (hR : InnerCongruence R) (near : ∀ m, n.Near m → Related R em₁ em₂ m)
    {start cond step : Node} (hs : start ∈ n.inner) (hc : cond ∈ n.inner) (ht : step ∈ n.inner) :
    R (forHead em₁ start cond step) (forHead em₂ start cond step) := by
  have hstart := Node.near_of_mem_inner hs
  unfold forHead
  split
  · exact hR.line _
  · refine hR.bind (hR.write _) fun _ => hR.bind ?_ fun _ => hR.bind (hR.write _) fun _ => ?_
    · unfold forStart
      split
      · rename_i kind
        exact localVariables_inner_related hR fun m hm =>
          near m (hstart.trans (Node.not_setsPlace_of_kind kind) hm)
      · exact hR.pure ()
      · exact (near start hstart).value hR
    · have guarded := condition_related hR (near cond (Node.near_of_mem_inner hc))
      refine hR.bind (hR.when _ guarded) fun _ => hR.bind (hR.write _) fun _ => ?_
      exact hR.bind ((near step (Node.near_of_mem_inner ht)).value hR) fun _ => hR.line _

theorem forStatement_related (hR : InnerCongruence R)
    (near : ∀ m, n.Near m → Related R em₁ em₂ m) :
    R (forStatement em₁ n) (forStatement em₂ n) := by
  refine hR.childAt_bind fun start hs => hR.childAt_bind fun _ _ => ?_
  refine hR.childAt_bind fun cond hc => ?_
  refine hR.childAt_bind fun step ht => hR.childAt_bind fun body hb => ?_
  exact hR.bind (forHead_related hR near hs hc ht) fun _ =>
    hR.bind (loopBody_related hR near hb) fun _ => hR.line _

theorem doStatement_related (hR : InnerCongruence R)
    (near : ∀ m, n.Near m → Related R em₁ em₂ m) :
    R (doStatement em₁ n) (doStatement em₂ n) := by
  refine hR.childAt_bind fun body hb => hR.childAt_bind fun cond hc => ?_
  refine hR.bind (hR.line _) fun _ => ?_
  refine hR.bind (loopBody_related hR near hb) fun _ => hR.bind (hR.indented ?_) fun _ => hR.line _
  refine hR.bind (hR.write _) fun _ => ?_
  refine hR.bind (condition_related hR (near cond (Node.near_of_mem_inner hc))) fun _ => ?_
  refine hR.bind (hR.line _) fun _ => hR.bind (hR.indented (hR.line _)) fun _ => hR.line _

theorem rangeStatement_related (hR : InnerCongruence R)
    (near : ∀ m, n.Near m → Related R em₁ em₂ m) :
    R (rangeStatement em₁ n) (rangeStatement em₂ n) := by
  unfold rangeStatement
  split
  · exact hR.fail trivial
  · rename_i body hb
    refine hR.bind (hR.line _) fun _ => ?_
    exact hR.bind (child_block_related hR near (List.mem_of_getLast? hb)) fun _ => hR.line _

theorem matchArms_related (hR : InnerCongruence R) (owner : Option String) {cond : Node}
    {arms : List Arm} (hc : Related R em₁ em₂ cond)
    (ha : ∀ arm ∈ arms, arm.All (Related R em₁ em₂)) :
    R (matchArms em₁ owner cond arms) (matchArms em₂ owner cond arms) := by
  have body {arm : Arm} (h : arm ∈ arms) : R (armBody em₁ arm) (armBody em₂ arm) :=
    statements_related hR (ha arm h).2
  refine hR.bind ?_ fun _ => hR.bind (hR.indented (hR.bind (hR.each fun arm hm => ?_) fun _ => ?_))
    fun _ => hR.line _
  · refine hR.bind (hR.write _) fun _ => hR.bind ?_ fun _ => hR.line _
    cases owner with
    | none => exact hc.value hR
    | some name =>
        exact hR.bind (hR.write _) fun _ => hR.bind (hc.value hR) fun _ => hR.write _
  · have harm := (List.mem_filter.mp hm).1
    refine hR.bind (hR.separated (hR.write _) fun label hl => ?_) fun _ => ?_
    · exact ((ha arm harm).1 label hl).value hR
    · exact hR.bind (hR.line _) fun _ => hR.bind (body harm) fun _ => hR.line _
  · rcases hd : arms.find? Arm.isDefault with _ | arm
    · exact hR.line _
    · exact hR.bind (hR.line _) fun _ =>
        hR.bind (body (List.mem_of_find?_eq_some hd)) fun _ => hR.line _

theorem isOfTree_of_collectArms {body : Node} {e : Fault} (h : collectArms body = .error e) :
    IsOfTree e := by
  obtain ⟨what, rfl⟩ := switchShape_of_collectArms h
  trivial

/-- Of the statements, only switches and expressions have to do with the place. -/
theorem statement_inner_related (hR : InnerCongruence R)
    (near : ∀ m, n.Near m → Related R em₁ em₂ m)
    (goto : n.kind = .gotoStmt → R (Script.command (.jump n.info.targetLabelId))
      (Script.command (.jump n.info.targetLabelId)))
    (label : n.kind = .labelStmt → R (Script.command (.label n.info.declId n.name))
      (Script.command (.label n.info.declId n.name)))
    (switch : n.kind = .switchStmt → R (switchStatement em₁ n) (switchStatement em₂ n))
    (other : R (expression em₁ n) (expression em₂ n)) :
    R (statement em₁ n) (statement em₂ n) := by
  have inner {m : Node} (hm : m ∈ n.inner) := near m (Node.near_of_mem_inner hm)
  unfold statement
  split
  · exact hR.bind (localVariables_inner_related hR near) fun _ => hR.endLine
  · refine hR.bind (hR.bind (hR.write _) fun _ => hR.forSome fun value hv => ?_) fun _ => hR.endLine
    refine hR.context (fun _ _ _ => rfl) fun c => ?_
    split
    · exact hR.pure ()
    · exact hR.bind (hR.write _) fun _ =>
        hR.within (keepsPlace_returned value) ((near value (Node.near_of_firstChild? hv)).value hR)
  · exact ifStatement_related hR near
  · exact whileStatement_related hR near
  · exact forStatement_related hR near
  · exact doStatement_related hR near
  · exact switch ‹_›
  · exact hR.bind (hR.line _) fun _ => hR.bind (statements_related hR fun _ => inner) fun _ =>
      hR.line _
  · exact hR.line _
  iterate 3 exact jump_related hR goto
  · rename_i hk
    exact hR.bind (label hk) fun _ => hR.bind (hR.line _) fun _ =>
      hR.each fun _ hm => (inner hm).stmt
  · exact rangeStatement_related hR near
  iterate 4 exact hR.pure ()
  · exact hR.bind other fun _ => hR.endLine

end Statements

/-! An emitter need not look at the place of what is below a node. -/
section Below

variable {R : ∀ {α : Type}, Script α → Script α → Prop} {em₁ em₂ : Emitter} {n : Node}

theorem cxxExpression_related (hR : InnerCongruence R)
    (below : ∀ m, m.Below n → Related R em₁ em₂ m) :
    R (cxxExpression em₁ n) (cxxExpression em₂ n) :=
  cxxExpression_inner_related hR fun m hm => below m (Node.below_of_near hm)

theorem block_related (hR : InnerCongruence R) (here : Related R em₁ em₂ n)
    (below : ∀ m, m.Below n → Related R em₁ em₂ m) : R (block em₁ n) (block em₂ n) :=
  block_inner_related hR here fun _ m hm => below m (Node.below_of_mem_inner hm)

theorem localVariables_related (hR : InnerCongruence R)
    (below : ∀ m, m.Below n → Related R em₁ em₂ m) :
    R (localVariables em₁ n) (localVariables em₂ n) :=
  localVariables_inner_related hR fun m hm => below m (Node.below_of_near hm)

theorem arraySubscript_related (hR : EmitterCongruence R)
    (below : ∀ m, m.Below n → Related R em₁ em₂ m) :
    R (arraySubscript em₁ n) (arraySubscript em₂ n) := by
  refine hR.childAt_bind fun base hb => hR.childAt_bind fun index hi => ?_
  have value {m : Node} (hm : m ∈ n.inner) := (below m (Node.below_of_mem_inner hm)).value hR
  refine hR.bind (value hb) fun _ => hR.bind (hR.write _) fun _ => ?_
  refine hR.bind hR.symbols fun known => ?_
  refine hR.bind (hR.index ?_) fun _ => hR.write _
  exact hR.bind (hR.when _ (hR.write _)) fun _ => hR.bind (value hi) fun _ =>
    hR.when _ (hR.write _)

theorem switchStatement_related (hR : EmitterCongruence R)
    (below : ∀ m, m.Below n → Related R em₁ em₂ m) :
    R (switchStatement em₁ n) (switchStatement em₂ n) := by
  refine hR.childAt_bind fun cond hc => ?_
  unfold switchBody
  split
  · rename_i body hb
    have hbody : body.Below n :=
      Node.below_of_mem_inner (List.mem_of_mem_drop (List.mem_of_getLast? hb))
    simp only [pure_bind]
    refine hR.ofExcept_bind (fun _ => isOfTree_of_collectArms) fun arms harms => ?_
    refine hR.bind hR.symbols fun known => ?_
    refine hR.bind (hR.note _) fun _ => hR.switch _ (matchArms_related hR _ ?_ fun arm hm => ?_)
    · exact below cond (Node.below_of_mem_inner hc)
    · have parts := all_of_collectArms (goesInside_of_hereditary (Node.hereditary_below n)) hbody
        harms arm hm
      exact ⟨fun l hl => below l (parts.1 l hl), fun s hs => below s (parts.2 s hs)⟩
  · exact hR.fail trivial

theorem expression_related (hR : EmitterCongruence R) (below : ∀ m, m.Below n → Related R em₁ em₂ m)
    (goto : n.kind = .gotoStmt → R (Script.command (.jump n.info.targetLabelId))
      (Script.command (.jump n.info.targetLabelId))) :
    R (expression em₁ n) (expression em₂ n) :=
  expression_inner_related hR (fun m hm => below m (Node.below_of_near hm)) goto
    (fun _ => hR.reference n) fun _ => arraySubscript_related hR below

theorem statement_related (hR : EmitterCongruence R) (below : ∀ m, m.Below n → Related R em₁ em₂ m)
    (goto : n.kind = .gotoStmt → R (Script.command (.jump n.info.targetLabelId))
      (Script.command (.jump n.info.targetLabelId)))
    (label : n.kind = .labelStmt → R (Script.command (.label n.info.declId n.name))
      (Script.command (.label n.info.declId n.name))) :
    R (statement em₁ n) (statement em₂ n) :=
  statement_inner_related hR (fun m hm => below m (Node.below_of_near hm)) goto label
    (fun _ => switchStatement_related hR below) (expression_related hR below goto)

end Below

end VFromC.Emit
