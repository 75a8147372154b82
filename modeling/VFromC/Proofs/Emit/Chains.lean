import VFromC.Proofs.Emit.Lines
import VFromC.Proofs.Emit.Returned
import VFromC.Proofs.Text.Cut
/-!
Assignments in one another.

Such assignments are written one by one from the inside out, each on a line of its own, and every
target but the outermost is written twice: where it is given a value, and as the value of the target
around it. The last assignment stays on the pending line.
-/
namespace VFromC.Output
open VFromC.Text

/-- Writes texts on lines of their own, and leaves the last one pending. -/
def Page.writeApart (p : Page) : List String → Page
  | [] => p
  | line :: rest =>
      Page.writeApart (if rest = [] then p.write line else (p.write line).endLine) rest

theorem Page.eq_write {p q : Page} {text : String} (done : q.done = p.done)
    (pending : q.pending = p.pending ++ text) (indent : q.indent = p.indent) :
    q = p.write text := by
  obtain ⟨qdone, qpending, qindent⟩ := q
  subst done pending indent
  rfl

theorem Page.write_write (p : Page) (a b : String) : (p.write a).write b = p.write (a ++ b) := by
  simp only [Page.write, String.append_assoc]

theorem Page.endLine_write {p : Page} {line : String} (fresh : p.pending = "")
    (ink : trimmed line ≠ "") :
    (p.write line).endLine = { p with done := p.done ++ lineText p.indent line } := by
  have pending : (p.write line).pending = line := by
    rw [Page.write, fresh, String.empty_append]
  rw [Page.endLine, pending, if_neg ink, Page.flush, pending, fresh]
  rfl

/-- Every text but the last one becomes a line. -/
theorem Page.writeApart_eq {p : Page} (fresh : p.pending = "") (lines : List String)
    (last : String) (ink : ∀ line ∈ lines, trimmed line ≠ "") :
    p.writeApart (lines ++ [last]) =
      { p with
        done := p.done ++ String.join (lines.map (lineText p.indent))
        pending := last } := by
  induction lines generalizing p with
  | nil =>
      rw [List.nil_append, Page.writeApart, if_pos rfl, Page.writeApart, Page.write, fresh,
        String.empty_append, List.map_nil, String.join_nil, String.append_empty]
  | cons line lines ih =>
      obtain ⟨first, others⟩ := List.forall_mem_cons.mp ink
      have more : lines ++ [last] ≠ [] := by simp
      have rest := ih (p := { p with done := p.done ++ lineText p.indent line }) fresh others
      rw [List.cons_append, Page.writeApart, if_neg more, Page.endLine_write fresh first, rest,
        List.map_cons, String.join_cons, String.append_assoc]

end VFromC.Output

namespace VFromC.Emit
open VFromC.Syntax VFromC.Output VFromC.Text

section Turns

variable {α β : Type} {desk : Desk} {s : Script α} {effect later : Page → Page}

/-- The script succeeds at the desk, leaves it as it was, and changes every page in one way. -/
def Turns (desk : Desk) (s : Script α) (effect : Page → Page) : Prop :=
  ∃ commands a, s desk = ⟨commands, desk, .ok a⟩ ∧
    ∀ draft : Draft, (draft.run commands).page = effect draft.page

theorem turns_pure (a : α) : Turns desk (pure a : Script α) id := ⟨[], a, rfl, fun _ => rfl⟩

theorem turns_write (text : String) : Turns desk (Script.write text) (·.write text) :=
  ⟨[.write text], (), rfl, fun _ => rfl⟩

theorem turns_endLine : Turns desk Script.endLine Page.endLine := by
  refine ⟨[.endLine], (), rfl, fun draft => ?_⟩
  change (draft.apply .endLine).page = _
  dsimp only [Draft.apply]

theorem Turns.bind {f : α → Script β} (hs : Turns desk s effect)
    (hf : ∀ a, Turns desk (f a) later) : Turns desk (s >>= f) fun p => later (effect p) := by
  obtain ⟨commands, a, first, run⟩ := hs
  obtain ⟨more, b, second, runMore⟩ := hf a
  refine ⟨commands ++ more, b, ?_, fun draft => ?_⟩
  · rw [Script.bind_apply_ok first, second]
  · rw [Draft.run_append, runMore, run]

theorem Turns.followed (h : Turns desk s effect) (b : β) :
    Turns desk (s >>= fun _ => pure b) effect :=
  h.bind fun _ => turns_pure b

theorem Turns.of_eq (h : Turns desk s effect) (same : ∀ p, effect p = later p) :
    Turns desk s later := by
  rwa [← funext same]

theorem Turns.within {around : Surroundings}
    (h : Turns { desk with context := around.enter desk.context } s effect) :
    Turns desk (Script.within around s) effect := by
  obtain ⟨commands, a, inside, run⟩ := h
  refine ⟨commands, a, ?_, run⟩
  simp only [Script.within, inside, around.leave_enter]

end Turns

/-- The text of an expression that is written on its own. -/
def textAt (desk : Desk) (m : Node) : String :=
  (({} : Draft).run (emitExpr m desk).commands).page.pending

/-- The expression is written without a line being ended. -/
structure Inline (desk : Desk) (m : Node) : Prop where
  written : ∃ b, (emitExpr m desk).result = .ok b
  unbroken : ∀ c ∈ (emitExpr m desk).commands, ¬c.Ends

theorem Kept.apply_ok {α : Type} {s : Script α} {desk : Desk} {a : α} (h : Kept s)
    (ok : (s desk).result = .ok a) : s desk = ⟨(s desk).commands, desk, .ok a⟩ := by
  have same : (s desk).desk = desk := (h desk).1
  generalize s desk = written at same ok ⊢
  obtain ⟨commands, next, result⟩ := written
  cases same
  cases ok
  rfl

/-- Its text is added to any line. -/
theorem Inline.turns {desk : Desk} {m : Node} (h : Inline desk m) :
    Turns desk (whole.value m) (·.write (textAt desk m)) := by
  obtain ⟨⟨b, ok⟩, unbroken⟩ := h
  have kept : Kept (emitExpr m) := (whole_kept m).expr
  obtain ⟨text, added⟩ := run_of_not_ends unbroken
  have alone : textAt desk m = text := by
    rw [textAt, (added {}).2]
    exact String.empty_append
  have expr : Turns desk (whole.expr m) (·.write (textAt desk m)) := by
    refine ⟨_, b, kept.apply_ok ok, fun draft => ?_⟩
    obtain ⟨done, pending⟩ := added draft
    refine Page.eq_write done (by rw [pending, alone]) ?_
    rw [indent_run]
    exact (kept desk).2.2 b ok _
  exact expr.followed ()

/-- Assignments directly in one another: the targets from the outside in, and what the innermost one
is given. -/
inductive Chain : Node → List Node → Node → Prop
  | last {n target source : Node} {rest : List Node} (assigns : isAssignment n = true)
      (children : n.inner = target :: source :: rest) (ends : isAssignment source = false) :
      Chain n [target] source
  | next {n target value source : Node} {targets rest : List Node}
      (assigns : isAssignment n = true) (children : n.inner = target :: value :: rest)
      (inside : Chain value targets source) : Chain n (target :: targets) source

/-- The assignments of a chain from the outside in. -/
def assignments (text : Node → String) (targets : List Node) (source : Node) : List String :=
  List.zipWith (fun target value => text target ++ " = " ++ text value) targets
    (targets.tail ++ [source])

/-- The same assignments from the inside out. -/
def assignmentsOut (text : Node → String) (source : Node) : List Node → List String
  | [] => []
  | target :: rest => (text target ++ " = " ++ text source) :: assignmentsOut text target rest

section Orders

variable (text : Node → String) (source target : Node)

theorem assignmentsOut_eq_nil {targets : List Node} :
    assignmentsOut text source targets = [] ↔ targets = [] := by
  cases targets <;> simp [assignmentsOut]

theorem assignmentsOut_concat (targets : List Node) :
    assignmentsOut text source (targets ++ [target]) =
      assignmentsOut text source targets ++
        [text target ++ " = " ++ text (targets.getLastD source)] := by
  induction targets generalizing source with
  | nil => rfl
  | cons first rest ih =>
      rw [List.cons_append, assignmentsOut, ih, assignmentsOut, List.cons_append,
        List.getLastD_cons]

theorem assignments_cons (targets : List Node) :
    assignments text (target :: targets) source =
      (text target ++ " = " ++ text (targets.headD source)) :: assignments text targets source := by
  cases targets <;> rfl

theorem assignmentsOut_reverse (targets : List Node) :
    assignmentsOut text source targets.reverse = (assignments text targets source).reverse := by
  induction targets with
  | nil => rfl
  | cons target targets ih =>
      have value : targets.reverse.getLastD source = targets.headD source := by
        rw [List.getLastD_eq_getLast?, List.getLast?_reverse, List.headD_eq_head?_getD]
      rw [List.reverse_cons, assignmentsOut_concat, ih, value, assignments_cons,
        List.reverse_cons]

/-- Each of them gives one part of the chain to another one. -/
theorem exists_of_mem_assignments {targets : List Node} {line : String}
    (h : line ∈ assignments text targets source) :
    ∃ target ∈ targets ++ [source], ∃ value ∈ targets ++ [source],
      line = text target ++ " = " ++ text value := by
  induction targets with
  | nil => cases h
  | cons target targets ih =>
      have value : targets.headD source ∈ targets ++ [source] := by
        cases targets <;> simp
      rw [assignments_cons] at h
      rcases List.mem_cons.mp h with same | later
      · exact ⟨target, List.mem_cons_self, _, List.mem_cons_of_mem target value, same⟩
      · obtain ⟨a, ha, b, hb, same⟩ := ih later
        exact ⟨a, List.mem_cons_of_mem target ha, b, List.mem_cons_of_mem target hb, same⟩

theorem ink_of_mem_assignments {targets : List Node} {line : String}
    (h : line ∈ assignments text targets source) : trimmed line ≠ "" := by
  obtain ⟨a, -, b, -, rfl⟩ := exists_of_mem_assignments text source h
  -- A blank line would be dropped, but the sign between the two parts is no blank.
  intro blank
  have sign := (trimmed_eq_empty_iff _).mp blank '=' (by simp)
  cases sign

end Orders

section Assignments

variable {desk : Desk} {n source target value : Node} {targets rest : List Node}

theorem assignment_turns (ht : Inline desk target) (hs : Inline desk source) :
    Turns desk (infixOperator whole "=" target source)
      (·.write (textAt desk target ++ " = " ++ textAt desk source)) := by
  have all := ht.turns.bind fun _ => (turns_write " = ").bind fun _ => hs.turns
  refine Turns.of_eq all fun p => ?_
  simp only [Page.write_write]

theorem writeAssignments_turns (hs : Inline desk source) (ht : ∀ t ∈ targets, Inline desk t) :
    Turns desk (writeAssignments whole source targets)
      (·.writeApart (assignmentsOut (textAt desk) source targets)) := by
  induction targets generalizing source with
  | nil => exact turns_pure ()
  | cons target rest ih =>
      obtain ⟨first, others⟩ := List.forall_mem_cons.mp ht
      have ending : Turns desk (Script.when (rest ≠ []) Script.endLine)
          fun p => if rest = [] then p else p.endLine := by
        by_cases none : rest = []
        · rw [Script.when, if_neg (not_not_intro none)]
          simp only [none, if_true]
          exact turns_pure ()
        · rw [Script.when, if_pos none]
          simp only [none, if_false]
          exact turns_endLine
      have all := (assignment_turns first hs).bind fun _ => ending.bind fun _ => ih first others
      have script : writeAssignments whole source (target :: rest) =
          infixOperator whole "=" target source >>= fun _ =>
            Script.when (rest ≠ []) Script.endLine >>= fun _ =>
              writeAssignments whole target rest := by
        simp only [infixOperator, bind_assoc]
        rfl
      rw [script]
      refine Turns.of_eq all fun p => ?_
      simp only [assignmentsOut, Page.writeApart, assignmentsOut_eq_nil]

theorem assignmentChain_of_end (h : isAssignment n = false) : assignmentChain n = .ok ([], n) := by
  obtain ⟨info, filler, inner⟩ := n
  unfold assignmentChain
  rw [if_neg (by rw [h]; decide)]

theorem assignmentChain_step {chain : List Node × Node} (ha : isAssignment n = true)
    (hi : n.inner = target :: value :: rest) (h : assignmentChain value = .ok chain) :
    assignmentChain n = .ok (target :: chain.1, chain.2) := by
  obtain ⟨info, filler, inner⟩ := n
  cases hi
  unfold assignmentChain
  rw [if_pos ha]
  dsimp only
  rw [h]

theorem assignmentChain_of_chain (h : Chain n targets source) :
    assignmentChain n = .ok (targets, source) := by
  induction h with
  | last ha hi ends => exact assignmentChain_step ha hi (assignmentChain_of_end ends)
  | next ha hi _ ih => exact assignmentChain_step ha hi ih

theorem Chain.isAssignment (h : Chain n targets source) : Emit.isAssignment n = true := by
  cases h <;> assumption

theorem Chain.kind_and_opcode (h : Chain n targets source) :
    n.kind = .binaryOperator ∧ n.opcode = "=" := by
  have both := h.isAssignment
  simp only [Emit.isAssignment, Bool.and_eq_true, decide_eq_true_eq] at both
  exact both

theorem childAt_of_getElem? {position : Nat} {expected : String}
    (h : n.inner[position]? = some value) : childAt n position expected = pure value := by
  rw [childAt, h]

theorem binaryOperator_turns (h : Chain n targets source)
    (inline : ∀ m ∈ targets ++ [source], Inline desk m) :
    Turns desk (binaryOperator whole n)
      (·.writeApart (assignments (textAt desk) targets source).reverse) := by
  rw [← assignmentsOut_reverse]
  have equals : n.opcode = "=" := h.kind_and_opcode.2
  have given : Inline desk source := inline source (by simp)
  have left {target value : Node} {rest : List Node} (hi : n.inner = target :: value :: rest) :
      childAt n 0 "left operand" = pure target :=
    childAt_of_getElem? (by rw [hi]; rfl)
  have right {target value : Node} {rest : List Node} (hi : n.inner = target :: value :: rest) :
      childAt n 1 "right operand" = pure value :=
    childAt_of_getElem? (by rw [hi]; rfl)
  cases h with
  | @last _ target _ _ _ hi ends =>
      have one := assignment_turns (inline target (by simp)) given
      unfold binaryOperator
      rw [left hi, right hi, pure_bind, pure_bind, equals, ends, Bool.and_false, if_neg (by decide)]
      refine Turns.of_eq (one.followed _) fun p => ?_
      simp only [List.reverse_singleton, assignmentsOut, Page.writeApart, if_true]
  | @next _ target value _ targets _ _ hi inside =>
      have chain : chainedAssignment whole target value =
          writeAssignments whole source (target :: targets).reverse := by
        have found : Script.ofExcept (assignmentChain value) = pure (targets, source) := by
          rw [assignmentChain_of_chain inside]
          rfl
        rw [chainedAssignment, found, pure_bind]
      have all : Turns desk (writeAssignments whole source (target :: targets).reverse) _ :=
        writeAssignments_turns given fun t ht =>
          inline t (List.mem_append_left _ (List.mem_reverse.mp ht))
      unfold binaryOperator
      rw [left hi, right hi, pure_bind, pure_bind, equals, inside.isAssignment,
        if_pos (by decide), chain]
      exact all.followed _

theorem turns_expr {effect : Page → Page} (h : passesReturned n.kind = false)
    (inside : Turns (desk.returning false) (expressionBody whole n) effect) :
    Turns desk (emitExpr n) effect := by
  rw [emitExpr_eq]
  refine Turns.within ?_
  rw [enter_expression h]
  exact inside

end Assignments

/-- A text with something at its start and at its end, so that trimming does nothing. -/
def IsTight (text : String) : Prop := text ≠ "" ∧ Tight text.toList

theorem trimmed_assignment {a b : String} (ha : IsTight a) (hb : IsTight b) :
    trimmed (a ++ " = " ++ b) = a ++ " = " ++ b := by
  obtain ⟨ha, first, -⟩ := ha
  obtain ⟨hb, -, last⟩ := hb
  have start : a.toList ≠ [] := fun none => ha (String.toList_eq_nil_iff.mp none)
  have stop : b.toList ≠ [] := fun none => hb (String.toList_eq_nil_iff.mp none)
  have tight : Tight (a ++ " = " ++ b).toList := by
    simp only [String.toList_append]
    refine ⟨?_, last.append_right stop _⟩
    rw [List.append_assoc]
    exact first.append_left start _
  rw [trimmed, tight.trim_eq, String.ofList_toList]

theorem Chain.assignments_eq {n source : Node} {targets : List Node} (text : Node → String)
    (h : Chain n targets source) :
    ∃ outermost others, assignments text targets source = outermost :: others := by
  cases h <;> exact ⟨_, _, assignments_cons text source _ _⟩

theorem Chain.turns {n source : Node} {targets : List Node} {desk : Desk}
    (h : Chain n targets source)
    (inline : ∀ m ∈ targets ++ [source], Inline (desk.returning false) m) :
    Turns desk (emitExpr n)
      (·.writeApart (assignments (textAt (desk.returning false)) targets source).reverse) := by
  have kind : n.kind = .binaryOperator := h.kind_and_opcode.1
  have body : expressionBody whole n = binaryOperator whole n := by
    simp only [expressionBody, kind]
  refine turns_expr (by rw [kind]; rfl) ?_
  rw [body]
  exact binaryOperator_turns h inline

/-- A chain of assignments is written from the inside out: all but the outermost one on a line each,
and that one on the pending line. Its parts are written as they are on their own. -/
theorem chain_written_inside_out {n source : Node} {targets : List Node} (desk : Desk)
    (draft : Draft) (chain : Chain n targets source)
    (inline : ∀ m ∈ targets ++ [source], Inline (desk.returning false) m)
    (fresh : draft.page.pending = "") :
    ∃ b commands outermost others,
      emitExpr n desk = ⟨commands, desk, .ok b⟩ ∧
      assignments (textAt (desk.returning false)) targets source = outermost :: others ∧
      (draft.run commands).page =
        { draft.page with
          done := draft.page.done ++ String.join (others.reverse.map fun line =>
            String.ofList (List.replicate draft.page.indent '\t') ++ trimmed line ++ "\n")
          pending := outermost } ∧
      ((∀ m ∈ targets ++ [source], IsTight (textAt (desk.returning false) m)) →
        ∀ line ∈ others, trimmed line = line) := by
  obtain ⟨commands, b, written, run⟩ := chain.turns inline
  obtain ⟨outermost, others, all⟩ := chain.assignments_eq (textAt (desk.returning false))
  have among {line : String} (h : line ∈ others) :
      line ∈ assignments (textAt (desk.returning false)) targets source := by
    rw [all]
    exact List.mem_cons_of_mem outermost h
  have ink {line : String} (h : line ∈ others.reverse) : trimmed line ≠ "" :=
    ink_of_mem_assignments _ source (among (List.mem_reverse.mp h))
  refine ⟨b, commands, outermost, others, written, all, ?_, fun tight line h => ?_⟩
  · have lines : others.reverse.map (lineText draft.page.indent) = others.reverse.map fun line =>
        String.ofList (List.replicate draft.page.indent '\t') ++ trimmed line ++ "\n" :=
      List.map_congr_left fun line h => by rw [lineText, if_neg (ink h)]
    have apart := Page.writeApart_eq fresh others.reverse outermost fun _ => ink
    rw [lines, ← List.reverse_cons, ← all] at apart
    exact (run draft).trans apart
  · obtain ⟨a, ha, b, hb, rfl⟩ := exists_of_mem_assignments _ source (among h)
    exact trimmed_assignment (tight a ha) (tight b hb)

def namedOperand (name : String) : Node :=
  ⟨{ kind := .declRefExpr, reference := some { kind := .varDecl, name } }, [], []⟩

theorem inline_namedOperand (name : String) : Inline {} (namedOperand name) := by
  refine ⟨⟨false, rfl⟩, fun c hc => ?_⟩
  cases List.mem_singleton.mp hc
  exact id

def zeroOperand : Node := ⟨{ kind := .integerLiteral, value := some (.text "0") }, [], []⟩

def assignTo (target value : Node) : Node :=
  ⟨{ kind := .binaryOperator, opcode := "=" }, [], [target, value]⟩

/-- The assignments `a = b = c = 0`. -/
def threefold : Node :=
  assignTo (namedOperand "a") (assignTo (namedOperand "b") (assignTo (namedOperand "c") zeroOperand))

theorem threefold_written_inside_out :
    Chain threefold [namedOperand "a", namedOperand "b", namedOperand "c"] zeroOperand ∧
      (∀ m ∈ [namedOperand "a", namedOperand "b", namedOperand "c", zeroOperand], Inline {} m) ∧
      ∃ b commands, emitExpr threefold {} = ⟨commands, {}, .ok b⟩ ∧
        (({ page := { indent := 1 } } : Draft).run commands).page =
          { done := "\tc = 0\n\tb = c\n", pending := "a = b", indent := 1 } := by
  have chain : Chain threefold [namedOperand "a", namedOperand "b", namedOperand "c"] zeroOperand :=
    .next rfl rfl (.next rfl rfl (.last rfl rfl rfl))
  have zero : Inline {} zeroOperand := by
    refine ⟨⟨false, rfl⟩, fun c hc => ?_⟩
    cases List.mem_singleton.mp hc
    exact id
  have inline : ∀ m ∈ [namedOperand "a", namedOperand "b", namedOperand "c", zeroOperand],
      Inline {} m := by
    simp only [List.forall_mem_cons]
    exact ⟨inline_namedOperand "a", inline_namedOperand "b", inline_namedOperand "c", zero,
      fun _ h => absurd h List.not_mem_nil⟩
  refine ⟨chain, inline, ?_⟩
  obtain ⟨b, commands, outermost, others, written, all, page, -⟩ :=
    chain_written_inside_out {} { page := { indent := 1 } } chain inline rfl
  have texts : assignments (textAt {}) [namedOperand "a", namedOperand "b", namedOperand "c"]
      zeroOperand = ["a = b", "b = c", "c = 0"] := by rfl
  cases texts.symm.trans all
  exact ⟨b, commands, written, page.trans rfl⟩

/-- A sum whose second part is a statement in parentheses, for which nothing is written. -/
def openSum : Node :=
  ⟨{ kind := .binaryOperator, opcode := "+" }, [],
    [namedOperand "n", ⟨{ kind := .stmtExpr }, [], []⟩]⟩

/-- The text of the sum ends in a blank, which is not on the line of its assignment. -/
theorem openSum_line_trimmed :
    let targets := [namedOperand "a", namedOperand "b"]
    let n := assignTo (namedOperand "a") (assignTo (namedOperand "b") openSum)
    Chain n targets openSum ∧
      (∀ m ∈ targets ++ [openSum], Inline {} m ∧ trimmed (textAt {} m) ≠ "") ∧
      assignments (textAt {}) targets openSum = ["a = b", "b = n + "] ∧
      ∃ b commands, emitExpr n {} = ⟨commands, {}, .ok b⟩ ∧
        (({ page := { indent := 1 } } : Draft).run commands).page.done = "\tb = n +\n" ∧
        (({ page := { indent := 1 } } : Draft).run commands).page.done ≠ "\tb = n + \n" := by
  intro targets n
  have chain : Chain n targets openSum := .next rfl rfl (.last rfl rfl rfl)
  have sum : Inline {} openSum := by
    refine ⟨⟨false, rfl⟩, List.forall_mem_cons.mpr ⟨id, List.forall_mem_cons.mpr ⟨id, ?_⟩⟩⟩
    exact List.forall_mem_singleton.mpr id
  have inked : ∀ m ∈ targets ++ [openSum], Inline {} m ∧ trimmed (textAt {} m) ≠ "" := by
    simp only [targets, List.cons_append, List.nil_append, List.forall_mem_cons]
    exact ⟨⟨inline_namedOperand "a", by decide⟩, ⟨inline_namedOperand "b", by decide⟩,
      ⟨sum, by decide⟩, fun _ h => absurd h List.not_mem_nil⟩
  have texts : assignments (textAt {}) targets openSum = ["a = b", "b = n + "] := by rfl
  have turns : Turns {} (emitExpr n)
      (·.writeApart (assignments (textAt {}) targets openSum).reverse) :=
    chain.turns fun m hm => (inked m hm).1
  rw [texts] at turns
  obtain ⟨commands, b, written, run⟩ := turns
  have ink : ∀ line ∈ ["b = n + "], trimmed line ≠ "" :=
    List.forall_mem_singleton.mpr (by decide)
  have apart : Page.writeApart { indent := 1 } ["b = n + ", "a = b"] =
      { done := "\tb = n +\n", pending := "a = b", indent := 1 } :=
    (Page.writeApart_eq rfl ["b = n + "] "a = b" ink).trans rfl
  have done : (({ page := { indent := 1 } } : Draft).run commands).page.done = "\tb = n +\n" := by
    rw [run]
    exact congrArg Page.done apart
  refine ⟨chain, inked, texts, b, commands, written, done, ?_⟩
  rw [done]
  decide

end VFromC.Emit
