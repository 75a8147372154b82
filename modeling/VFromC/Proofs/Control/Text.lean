import VFromC.Proofs.Control.Flow
import VFromC.Proofs.Emit.Where
/-!
The text of statements: a node is written as the statement of the output that stands for it, with
the breaks that leave a switch left out.
-/
namespace VFromC.Control
open VFromC.Syntax VFromC.Output VFromC.Emit

variable {Shape : Type}

def Flow.isBranch : Flow Shape → Bool
  | .branch .. | .choice .. => true
  | _ => false

def Head.print : Head → Script Unit
  | .endless => Script.line "for \x7b"
  | .guarded cond => do
      Script.write "for "
      condition whole cond
      Script.line " \x7b"
  | .clauses start cond step => do
      Script.write "for "
      Script.forSome (forStart whole) start
      Script.write "; "
      Script.forSome (condition whole) cond
      Script.write "; "
      Script.forSome whole.value step
      Script.line " \x7b"

/-- The last line of a loop, which leaves it unless a condition holds. -/
def printCheck (cond : Node) : Script Unit :=
  Script.indented do
    Script.write "if !("
    condition whole cond
    Script.line ") \x7b"
    Script.indented (Script.line "break")
    Script.line "\x7d"

mutual

/-- The text of a statement of the output, where `braces` tells whether a block has its own. -/
def Flow.print (braces : Bool) : Flow ForLoop → Script Unit
  | .act n => emitStmt n
  | .idle => pure ()
  | .leave => Script.line "break"
  | .again => Script.line "continue"
  | .block body =>
      if braces then do
        Script.line "\x7b"
        Script.indented (printFlows body)
        Script.line "\x7d"
      else printFlows body
  | .branch cond yes => do
      Script.write "if "
      condition whole cond
      Script.line " \x7b"
      Script.indented (yes.print false)
      Script.line "\x7d"
  | .choice cond yes no => do
      Script.write "if "
      condition whole cond
      Script.line " \x7b"
      Script.indented (yes.print false)
      if no.isBranch then do
        Script.write "\x7d else "
        no.print true
      else do
        Script.line "\x7d else \x7b"
        Script.indented (no.print false)
        Script.line "\x7d"
  | .loop shape body => do
      shape.head.print
      Script.within .loop (Script.indented (body.print false))
      Script.forSome printCheck shape.last
      Script.line "\x7d"

def printFlows : List (Flow ForLoop) → Script Unit
  | [] => pure ()
  | s :: rest => do
      s.print true
      printFlows rest

end

theorem value_of_null {n : Node} (h : n.kind = .null) : whole.value n = pure () := by
  funext desk
  have quiet : whole.expr n desk = ⟨[], desk, .ok false⟩ := by
    change emitExpr n desk = _
    simp only [emitExpr_eq, expression, expressionBody, h, Script.within, Script.pure_apply,
      Surroundings.leave_enter]
  rw [Emitter.value, Script.bind_apply_ok quiet]
  rfl

section Head

variable (n : Node)

theorem forStart_eq : forStart whole n = Script.forSome (forStart whole) (part? n) := by
  by_cases h : n.kind = .null
  · simp only [part?, forStart, h, if_true, Script.forSome]
  · simp only [part?, if_neg h, Script.forSome]

theorem when_condition_eq :
    Script.when (n.kind ≠ .null) (condition whole n) =
      Script.forSome (condition whole) (part? n) := by
  by_cases h : n.kind = .null
  · simp [part?, h, Script.when, Script.forSome]
  · simp [part?, h, Script.when, Script.forSome]

theorem value_eq : whole.value n = Script.forSome whole.value (part? n) := by
  by_cases h : n.kind = .null
  · simp only [part?, h, if_true, Script.forSome, value_of_null h]
  · simp only [part?, if_neg h, Script.forSome]

end Head

theorem part?_eq_none_iff {n : Node} : part? n = none ↔ n.kind = .null := by
  unfold part?
  split <;> simp_all

theorem forHead_eq (start cond step : Node) :
    forHead whole start cond step =
      (SourceLoop.forLoop (part? start) (part? cond) (part? step)).lower.head.print := by
  unfold forHead
  split
  · rename_i h
    obtain ⟨hs, hc, ht⟩ := h
    rw [part?_eq_none_iff.mpr hs, part?_eq_none_iff.mpr hc, part?_eq_none_iff.mpr ht]
    rfl
  · rename_i h
    rw [forStart_eq, when_condition_eq, value_eq]
    rw [lower_forLoop (by simpa only [part?_eq_none_iff] using h)]
    rfl

/-- A loop around the text of a node. -/
def loopText (shape : ForLoop) (body : Node) : Script Unit := do
  shape.head.print
  loopBody whole body
  Script.forSome printCheck shape.last
  Script.line "\x7d"

theorem whileStatement_eq {n cond body : Node} (hi : n.inner = [cond, body]) :
    whileStatement whole n = loopText (SourceLoop.whileLoop cond).lower body := by
  simp only [whileStatement, childAt, hi, loopText, SourceLoop.lower, Head.print, Script.forSome,
    List.getElem?_cons_zero, List.getElem?_cons_succ, bind_assoc, pure_bind]

theorem forStatement_eq {n start var cond step body : Node}
    (hi : n.inner = [start, var, cond, step, body]) :
    forStatement whole n =
      loopText (SourceLoop.forLoop (part? start) (part? cond) (part? step)).lower body := by
  have last : (SourceLoop.forLoop (part? start) (part? cond) (part? step)).lower.last = none := by
    unfold SourceLoop.lower
    split <;> trivial
  simp only [forStatement, childAt, hi, loopText, forHead_eq, last, Script.forSome,
    List.getElem?_cons_zero, List.getElem?_cons_succ, pure_bind]

theorem doStatement_eq {n body cond : Node} (hi : n.inner = [body, cond]) :
    doStatement whole n = loopText (SourceLoop.doLoop cond).lower body := by
  simp only [doStatement, childAt, hi, loopText, SourceLoop.lower, Head.print, Script.forSome,
    List.getElem?_cons_zero, List.getElem?_cons_succ, pure_bind, printCheck]

/-- Whether what is written here is directly inside a switch. -/
def isInSwitch (c : Context) : Bool := c.switchDepth ≠ 0

/-- Inside a loop nothing is directly inside a switch. -/
theorem loopBody_eq {body : Node} {text : Script Unit}
    (h : WritesWhere (fun c => isInSwitch c = false) (block whole body) text) :
    loopBody whole body = Script.within .loop text := by
  funext desk
  have same := h.2 { desk with context := Surroundings.loop.enter desk.context } rfl
  simp only [loopBody, Script.within, same]

/-- The text of a node is that of a statement of the output, directly inside a switch or not. -/
abbrev Flow.IsTextOf (s : Flow ForLoop) (inSwitch : Bool) (n : Node) : Prop :=
  WrittenIn (fun c => isInSwitch c = inSwitch) n (fun braces => s.print braces) s.isBranch

section Statements

variable {n : Node} {s : Flow SourceLoop} {inSwitch : Bool}

/-- A loop is written in the same way everywhere. -/
theorem isTextOf_loop {body : Node} {shape : ForLoop} {s : Flow ForLoop}
    (hn : emitStmt n = loopText shape body) (hb : s.IsTextOf false body) (hi : n.kind ≠ .ifStmt)
    (hk : n.kind ≠ .compoundStmt) : (Flow.loop shape s).IsTextOf inSwitch n := by
  refine .of_leaf ?_ (by simp only [Flow.print]) hi hk
  have same : emitStmt n = (Flow.loop shape s).print true := by
    rw [hn, loopText, loopBody_eq hb.inside, Flow.print]
  rw [← same]
  exact (whole_kept n).stmt.writesWhere

theorem isTextOf_leave (h : n.kind = .breakStmt) :
    ((Flow.leave : Flow SourceLoop).stay inSwitch).lower.IsTextOf inSwitch n := by
  have text (desk : Desk) : emitStmt n desk =
      Script.when (desk.context.switchDepth = 0) (Script.line "break") desk := by
    rw [emitStmt_eq]
    simp only [statement, jump, h]
    rfl
  cases inSwitch with
  | false =>
      refine .of_leaf ⟨(whole_kept n).stmt, fun desk outside => ?_⟩ rfl (by simp [h]) (by simp [h])
      have outside : desk.context.switchDepth = 0 := by simpa [isInSwitch] using outside
      rw [text, Script.when, if_pos outside]
      rfl
  | true =>
      refine .of_leaf ⟨(whole_kept n).stmt, fun desk inside => ?_⟩ rfl (by simp [h]) (by simp [h])
      have inside : desk.context.switchDepth ≠ 0 := by simpa [isInSwitch] using inside
      rw [text, Script.when, if_neg inside]
      rfl

theorem isTextOf_again (h : n.kind = .continueStmt) : (Flow.again).IsTextOf inSwitch n := by
  refine .of_leaf ?_ rfl (by simp [h]) (by simp [h])
  rw [emitStmt_eq]
  simp only [statement, jump, h]
  exact writesWhere_line _

/-- The nodes of a list are written as the statements that they are. -/
def AllWritten (l : List Node) : Prop :=
  ∀ n ∈ l, ∀ s, flow? n = some s → ∀ inSwitch, (s.stay inSwitch).lower.IsTextOf inSwitch n

theorem writes_of_allWritten {l : List Node} {body : List (Flow SourceLoop)} (hl : AllWritten l)
    (h : flows? l = some body) :
    WritesWhere (fun c => isInSwitch c = inSwitch) (Script.each emitStmt l)
      (printFlows (lowerAll (stayAll inSwitch body))) := by
  induction l generalizing body with
  | nil =>
      cases h
      exact writesWhere_pure ()
  | cons n rest ih =>
      obtain ⟨written, others⟩ := List.forall_mem_cons.mp hl
      obtain ⟨first, behind, hn, hrest, rfl⟩ := flows?_cons_inv h
      exact (written _ hn inSwitch).stmt.bind fun _ => ih others hrest

theorem isTextOf_of_branchFlow? (hk : n.kind = .ifStmt) (hl : AllWritten n.inner)
    (h : branchFlow? n.inner = some s) : (s.stay inSwitch).lower.IsTextOf inSwitch n := by
  unfold branchFlow? at h
  split at h
  · rename_i cond yes hi
    obtain ⟨found, hy, rfl⟩ := Option.map_eq_some_iff.mp h
    have inside := (hl yes (by simp [hi]) found hy inSwitch).inside
    refine .of_ifStatement hk (by simp only [Flow.stay, Flow.lower, Flow.print]) ?_
    simp only [Flow.stay, Flow.lower, Flow.print]
    refine ifStatement_writesWhere hi inside ?_
    simp only [List.head?_nil, elseBranch]
    exact writesWhere_line _
  · rename_i cond yes no hi
    split at h
    · rename_i found other hy hno
      have inside := (hl yes (by simp [hi]) found hy inSwitch).inside
      have behind := hl no (by simp [hi]) other hno inSwitch
      split at h <;> rename_i absent <;> cases h <;>
        refine .of_ifStatement hk (by simp only [Flow.stay, Flow.lower, Flow.print]) ?_ <;>
        simp only [Flow.stay, Flow.lower, Flow.print] <;>
        refine ifStatement_writesWhere hi inside ?_
      · simp only [List.head?_cons, elseBranch, if_pos absent]
        exact writesWhere_line _
      · -- Apart from `exact`, so that the text is known when it is compared with the goal.
        have beyond := behind.elseBranch absent
        exact beyond
    · cases h
  · cases h

/-- A loop with the text of a statement inside. -/
theorem isTextOf_loop_of_flow? {body : Node} {found : Flow SourceLoop} {shape : SourceLoop}
    (hl : AllWritten n.inner) (hm : body ∈ n.inner) (hb : flow? body = some found)
    (hn : emitStmt n = loopText shape.lower body) (hi : n.kind ≠ .ifStmt)
    (hk : n.kind ≠ .compoundStmt) :
    ((Flow.loop shape found).stay inSwitch).lower.IsTextOf inSwitch n := by
  have inside := hl body hm found hb false
  rw [found.stay_false] at inside
  exact isTextOf_loop hn inside hi hk

theorem isTextOf_of_whileFlow? (hk : n.kind = .whileStmt) (hl : AllWritten n.inner)
    (h : whileFlow? n.inner = some s) : (s.stay inSwitch).lower.IsTextOf inSwitch n := by
  unfold whileFlow? at h
  split at h
  · rename_i cond body hi
    obtain ⟨found, hb, rfl⟩ := Option.map_eq_some_iff.mp h
    refine isTextOf_loop_of_flow? hl (by simp [hi]) hb ?_ (by simp [hk]) (by simp [hk])
    simp only [emitStmt_eq, statement, hk, whileStatement_eq hi]
  · cases h

theorem isTextOf_of_forFlow? (hk : n.kind = .forStmt) (hl : AllWritten n.inner)
    (h : forFlow? n.inner = some s) : (s.stay inSwitch).lower.IsTextOf inSwitch n := by
  unfold forFlow? at h
  split at h
  · rename_i start var cond step body hi
    split at h
    · obtain ⟨found, hb, rfl⟩ := Option.map_eq_some_iff.mp h
      refine isTextOf_loop_of_flow? hl (by simp [hi]) hb ?_ (by simp [hk]) (by simp [hk])
      simp only [emitStmt_eq, statement, hk, forStatement_eq hi]
    · cases h
  · cases h

theorem isTextOf_of_doFlow? (hk : n.kind = .doStmt) (hl : AllWritten n.inner)
    (h : doFlow? n.inner = some s) : (s.stay inSwitch).lower.IsTextOf inSwitch n := by
  unfold doFlow? at h
  split at h
  · rename_i body cond hi
    obtain ⟨found, hb, rfl⟩ := Option.map_eq_some_iff.mp h
    refine isTextOf_loop_of_flow? hl (by simp [hi]) hb ?_ (by simp [hk]) (by simp [hk])
    simp only [emitStmt_eq, statement, hk, doStatement_eq hi]
  · cases h

end Statements

mutual

theorem isTextOf_of_flow? : ∀ (n : Node) (s : Flow SourceLoop), flow? n = some s →
    ∀ inSwitch, (s.stay inSwitch).lower.IsTextOf inSwitch n
  | ⟨info, filler, inner⟩, s, h, inSwitch => by
      have below : AllWritten inner := allWritten inner
      unfold flow? at h
      split at h
      case h_1 hk =>
        obtain ⟨body, hb, rfl⟩ := Option.map_eq_some_iff.mp h
        exact .of_compound hk (writes_of_allWritten below hb)
      case h_2 hk => exact isTextOf_of_branchFlow? hk below h
      case h_3 hk => exact isTextOf_of_whileFlow? hk below h
      case h_4 hk => exact isTextOf_of_forFlow? hk below h
      case h_5 hk => exact isTextOf_of_doFlow? hk below h
      case h_6 hk =>
        cases h
        exact isTextOf_leave hk
      case h_7 hk =>
        cases h
        exact isTextOf_again hk
      case h_8 hk | h_9 hk | h_10 hk | h_11 hk =>
        cases h
        refine .of_idle ?_
        simp [Node.kind, hk, isIdle, Kind.isAnnotation]
      case h_21 compound branch _ _ _ _ _ _ _ _ _ _ _ _ _ _ _ _ _ _ =>
        cases h
        exact .of_act branch compound
      -- What is left are the kinds that are no such statements.
      all_goals cases h

theorem allWritten : ∀ l : List Node, AllWritten l
  | [] => fun _ hm => absurd hm List.not_mem_nil
  | n :: rest => List.forall_mem_cons.mpr ⟨isTextOf_of_flow? n, allWritten rest⟩

end

theorem writes_of_flows? {l : List Node} {body : List (Flow SourceLoop)} {inSwitch : Bool}
    (h : flows? l = some body) :
    WritesWhere (fun c => isInSwitch c = inSwitch) (Script.each emitStmt l)
      (printFlows (lowerAll (stayAll inSwitch body))) :=
  writes_of_allWritten (allWritten l) h

end VFromC.Control
