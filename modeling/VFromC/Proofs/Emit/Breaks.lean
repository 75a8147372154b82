import VFromC.Proofs.Emit.Where
/-!
Which breaks are written.

An emitter counts the switches around a statement to tell the breaks that leave a switch. What it
writes is what an emitter writes that is told the loops and switches around each statement, and
decides by them.
-/
namespace VFromC.Emit
open VFromC.Syntax VFromC.Output

def isLoop : Kind → Bool
  | .whileStmt | .forStmt | .doStmt | .cxxForRangeStmt => true
  | _ => false

/-- The loops and switches around what is below a node, the innermost one first, where `around` are
those around the node. -/
def framesBelow (around : List Kind) (n : Node) : List Kind :=
  if isLoop n.kind || n.kind = .switchStmt then n.kind :: around else around

/-- A statement inside of certain loops and switches, where `leave` tells what a `break` is. -/
def statementWithin (leave : List Kind → Script Unit) (em : List Kind → Emitter)
    (around : List Kind) (n : Node) : Script Unit :=
  if n.kind = .breakStmt then leave around else statement (em (framesBelow around n)) n

/-- The emitter for trees of at most `depth` levels inside of certain loops and switches. -/
def emitterWithin (leave : List Kind → Script Unit) : Nat → List Kind → Emitter
  | 0, _ => emitter 0
  | depth + 1, around =>
      { expr := expression (emitter depth)
        stmt := statementWithin leave (emitterWithin leave depth) around }

/-- Whether a `break` is written inside of certain loops and switches. -/
def keepsBreak : List Kind → Bool
  | .switchStmt :: _ => false
  | .cxxForRangeStmt :: outer => keepsBreak outer
  | _ => true

def writtenBreak (around : List Kind) : Script Unit :=
  Script.when (keepsBreak around = true) (Script.line "break")

/-- The count of switches fits to what is around. -/
def Inside (around : List Kind) (c : Context) : Prop :=
  c.switchDepth = 0 ↔ keepsBreak around = true

section Expressions

variable {e : Node → Script Bool} (s s' : Node → Script Unit)

theorem writeAssignments_stmt (source : Node) (targets : List Node) :
    writeAssignments ⟨e, s⟩ source targets = writeAssignments ⟨e, s'⟩ source targets := by
  induction targets generalizing source with
  | nil => rfl
  | cons target rest ih =>
      simp only [writeAssignments, ih]
      rfl

theorem binaryOperator_stmt (n : Node) : binaryOperator ⟨e, s⟩ n = binaryOperator ⟨e, s'⟩ n := by
  have chained (left right : Node) :
      chainedAssignment ⟨e, s⟩ left right = chainedAssignment ⟨e, s'⟩ left right := by
    simp only [chainedAssignment, writeAssignments_stmt s s']
  simp only [binaryOperator, chained]
  rfl

/-- An expression has no statements inside. -/
theorem expression_stmt (n : Node) : expression ⟨e, s⟩ n = expression ⟨e, s'⟩ n := by
  unfold expression expressionBody
  rw [binaryOperator_stmt s s']
  rfl

end Expressions

theorem writesWhere_childAt {P : Context → Prop} {n : Node} {i : Nat} {expected : String}
    {f g : Node → Script Unit} (h : ∀ child ∈ n.inner, WritesWhere P (f child) (g child)) :
    WritesWhere P (childAt n i expected >>= f) (childAt n i expected >>= g) := by
  unfold childAt
  split
  · rename_i child hc
    simpa only [pure_bind] using h child (List.mem_of_getElem? hc)
  · exact Kept.writesWhere (congruence_kept.fail trivial)

/-- Two emitters that write the same expressions, and statements that are the same where the
context has a property. -/
structure SameStatements (P : Context → Prop) (e : Node → Script Bool)
    (s s' : Node → Script Unit) : Prop where
  expr (n : Node) : Kept (e n)
  stmt (n : Node) : WritesWhere P (s n) (s' n)

namespace SameStatements

variable {P Q : Context → Prop} {e : Node → Script Bool} {s s' : Node → Script Unit} {n : Node}

theorem kept (h : SameStatements P e s s') (n : Node) :
    Related (fun {α : Type} (s _ : Script α) => Kept s) ⟨e, s⟩ ⟨e, s⟩ n :=
  ⟨h.expr n, (h.stmt n).1⟩

theorem condition (h : SameStatements Q e s s') (cond : Node) :
    WritesWhere P (condition ⟨e, s⟩ cond) (condition ⟨e, s'⟩ cond) :=
  (condition_related congruence_kept (h.kept cond)).writesWhere

theorem statements (h : SameStatements P e s s') (children : List Node) :
    WritesWhere P (statements ⟨e, s⟩ children) (statements ⟨e, s'⟩ children) :=
  (writesWhere_each fun m _ => h.stmt m).indented

theorem block (h : SameStatements P e s s') (n : Node) :
    WritesWhere P (block ⟨e, s⟩ n) (block ⟨e, s'⟩ n) := by
  unfold Emit.block
  split
  · exact h.statements n.inner
  · exact (h.stmt n).indented

theorem loopBody (h : SameStatements Q e s s') (enters : ∀ c, P c → Q (Surroundings.loop.enter c))
    (body : Node) : WritesWhere P (loopBody ⟨e, s⟩ body) (loopBody ⟨e, s'⟩ body) :=
  (h.block body).within .loop enters

theorem elseBranch (h : SameStatements P e s s') (other : Option Node) :
    WritesWhere P (elseBranch ⟨e, s⟩ other) (elseBranch ⟨e, s'⟩ other) := by
  cases other with
  | none => exact writesWhere_line _
  | some other =>
      simp only [Emit.elseBranch]
      split
      · exact writesWhere_line _
      · split
        · exact (writesWhere_write _).bind fun _ => h.stmt other
        · exact (writesWhere_line _).bind fun _ => (h.block other).bind fun _ => writesWhere_line _

theorem ifStatement (h : SameStatements P e s s') :
    WritesWhere P (ifStatement ⟨e, s⟩ n) (ifStatement ⟨e, s'⟩ n) := by
  refine writesWhere_childAt fun cond _ => ?_
  refine writesWhere_childAt fun yes _ => ?_
  refine (writesWhere_write _).bind fun _ => (h.condition cond).bind fun _ => ?_
  exact (writesWhere_line _).bind fun _ => (h.block yes).bind fun _ => h.elseBranch _

theorem whileStatement (h : SameStatements Q e s s')
    (enters : ∀ c, P c → Q (Surroundings.loop.enter c)) :
    WritesWhere P (whileStatement ⟨e, s⟩ n) (whileStatement ⟨e, s'⟩ n) := by
  refine writesWhere_childAt fun cond _ => ?_
  refine writesWhere_childAt fun body _ => ?_
  refine (writesWhere_write _).bind fun _ => (h.condition cond).bind fun _ => ?_
  refine (writesWhere_line _).bind fun _ => (h.loopBody enters body).bind fun _ => ?_
  exact writesWhere_line _

theorem forStatement (h : SameStatements Q e s s')
    (enters : ∀ c, P c → Q (Surroundings.loop.enter c)) :
    WritesWhere P (forStatement ⟨e, s⟩ n) (forStatement ⟨e, s'⟩ n) := by
  refine writesWhere_childAt fun start hs => writesWhere_childAt fun _ _ => ?_
  refine writesWhere_childAt fun cond hc => writesWhere_childAt fun step ht => ?_
  refine writesWhere_childAt fun body _ => ?_
  have head : Kept (forHead ⟨e, s⟩ start cond step) :=
    forHead_related congruence_kept (fun m _ => h.kept m) hs hc ht
  exact head.writesWhere.bind fun _ => (h.loopBody enters body).bind fun _ => writesWhere_line _

theorem doStatement (h : SameStatements Q e s s')
    (enters : ∀ c, P c → Q (Surroundings.loop.enter c)) :
    WritesWhere P (doStatement ⟨e, s⟩ n) (doStatement ⟨e, s'⟩ n) := by
  refine writesWhere_childAt fun body _ => ?_
  refine writesWhere_childAt fun cond _ => ?_
  refine (writesWhere_line _).bind fun _ => (h.loopBody enters body).bind fun _ => ?_
  refine WritesWhere.bind (WritesWhere.indented ?_) fun _ => writesWhere_line _
  refine (writesWhere_write _).bind fun _ => (h.condition cond).bind fun _ => ?_
  refine (writesWhere_line _).bind fun _ => ?_
  exact (writesWhere_line _).indented.bind fun _ => writesWhere_line _

theorem labelStatement (h : SameStatements P e s s') :
    WritesWhere P (labelStatement ⟨e, s⟩ n) (labelStatement ⟨e, s'⟩ n) := by
  refine WritesWhere.bind (Kept.writesWhere ?_) fun _ => (writesWhere_line _).bind fun _ => ?_
  · exact kept_command trivial fun _ => rfl
  · exact writesWhere_each fun m _ => h.stmt m

theorem rangeStatement (h : SameStatements P e s s') :
    WritesWhere P (rangeStatement ⟨e, s⟩ n) (rangeStatement ⟨e, s'⟩ n) := by
  unfold Emit.rangeStatement
  split
  · exact Kept.writesWhere (congruence_kept.fail trivial)
  · exact (writesWhere_line _).bind fun _ => (h.block _).bind fun _ => writesWhere_line _

theorem value (h : SameStatements Q e s s') (n : Node) :
    WritesWhere P (Emitter.value ⟨e, s⟩ n) (Emitter.value ⟨e, s'⟩ n) :=
  ((h.kept n).value congruence_kept.toInnerCongruence).writesWhere

theorem matchHead (h : SameStatements P e s s') (owner : Option String) (cond : Node) :
    WritesWhere P (matchHead ⟨e, s⟩ owner cond) (matchHead ⟨e, s'⟩ owner cond) := by
  refine (writesWhere_write _).bind fun _ => WritesWhere.bind ?_ fun _ => writesWhere_line _
  cases owner with
  | none => exact h.value cond
  | some name =>
      exact (writesWhere_write _).bind fun _ => (h.value cond).bind fun _ => writesWhere_write _

theorem labelledArm (h : SameStatements P e s s') (arm : Arm) :
    WritesWhere P (labelledArm ⟨e, s⟩ arm) (labelledArm ⟨e, s'⟩ arm) := by
  refine (writesWhere_separated (kept_write _) fun label _ => h.value label).bind fun _ => ?_
  refine (writesWhere_line _).bind fun _ => ?_
  exact (h.statements arm.body).bind fun _ => writesWhere_line _

theorem elseArm (h : SameStatements P e s s') (arm : Option Arm) :
    WritesWhere P (elseArm ⟨e, s⟩ arm) (elseArm ⟨e, s'⟩ arm) := by
  cases arm with
  | none => exact writesWhere_line _
  | some arm =>
      exact (writesWhere_line _).bind fun _ => (h.statements arm.body).bind fun _ =>
        writesWhere_line _

theorem switchStatement (h : SameStatements Q e s s')
    (enters : ∀ owner c, P c → Q ((Surroundings.switch owner).enter c)) :
    WritesWhere P (switchStatement ⟨e, s⟩ n) (switchStatement ⟨e, s'⟩ n) := by
  have quiet {α : Type} {t : Script α} (hd : ∀ desk, (t desk).desk = desk)
      (hc : ∀ desk, (t desk).commands = []) : WritesWhere P t t :=
    (kept_of_quiet hd hc).writesWhere
  refine writesWhere_childAt fun cond _ => WritesWhere.bind ?_ fun body => ?_
  · unfold switchBody
    split
    · exact writesWhere_pure _
    · exact Kept.writesWhere (congruence_kept.fail trivial)
  refine (quiet (fun _ => rfl) fun _ => rfl).bind fun arms => ?_
  refine (quiet (fun _ => rfl) fun _ => rfl).bind fun symbols => ?_
  refine (congruence_kept.note _).writesWhere.bind fun _ => ?_
  refine WritesWhere.within _ ?_ (enters _)
  refine (h.matchHead _ cond).bind fun _ => WritesWhere.bind (WritesWhere.indented ?_) fun _ =>
    writesWhere_line _
  exact (writesWhere_each fun arm _ => h.labelledArm arm).bind fun _ => h.elseArm _

end SameStatements

theorem framesBelow_of_frame {around : List Kind} {n : Node} {kind : Kind} (hk : n.kind = kind)
    (h : isLoop kind = true ∨ kind = .switchStmt) : framesBelow around n = kind :: around := by
  subst hk
  obtain h | h := h <;> simp [framesBelow, h]

theorem framesBelow_of_other {around : List Kind} {n : Node} (hl : isLoop n.kind = false)
    (hs : n.kind ≠ .switchStmt) : framesBelow around n = around := by
  simp [framesBelow, hl, hs]

theorem inside_loop {kind : Kind} (around : List Kind) (h : keepsBreak (kind :: around) = true)
    (c : Context) : Inside (kind :: around) (Surroundings.loop.enter c) := by
  simp [Inside, Surroundings.loop, h]

theorem inside_switch (around : List Kind) (owner : Option String) (c : Context) :
    Inside (.switchStmt :: around) ((Surroundings.switch owner).enter c) := by
  simp [Inside, Surroundings.switch, keepsBreak]

theorem SameStatements.statement {around : List Kind} {e : Node → Script Bool}
    {s s' : Node → Script Unit} {n : Node}
    (h : SameStatements (Inside (framesBelow around n)) e s s') (hb : n.kind ≠ .breakStmt) :
    WritesWhere (Inside around) (statement ⟨e, s⟩ n) (statement ⟨e, s'⟩ n) := by
  have loops {kind : Kind} (hk : n.kind = kind) (hl : isLoop kind = true)
      (keeps : keepsBreak (kind :: around) = true) (c : Context) (_ : Inside around c) :
      Inside (framesBelow around n) (Surroundings.loop.enter c) := by
    rw [framesBelow_of_frame hk (.inl hl)]
    exact inside_loop around keeps c
  have others (hl : isLoop n.kind = false) (hs : n.kind ≠ .switchStmt) :
      SameStatements (Inside around) e s s' := by
    rwa [framesBelow_of_other hl hs] at h
  have kept : Kept (Emit.statement ⟨e, s⟩ n) :=
    statement_related congruence_kept (fun m _ => h.kept m)
      (fun _ => kept_command trivial fun _ => rfl) fun _ => kept_command trivial fun _ => rfl
  unfold Emit.statement
  split
  case h_1 hk | h_2 hk =>
    simp only [Emit.statement, hk] at kept
    exact kept.writesWhere
  case h_3 hk => exact (others (by simp [hk, isLoop]) (by simp [hk])).ifStatement
  case h_4 hk => exact h.whileStatement (loops hk rfl rfl)
  case h_5 hk => exact h.forStatement (loops hk rfl rfl)
  case h_6 hk => exact h.doStatement (loops hk rfl rfl)
  case h_7 hk =>
    refine h.switchStatement fun owner c _ => ?_
    rw [framesBelow_of_frame hk (.inr rfl)]
    exact inside_switch around owner c
  case h_8 hk =>
    have below := others (by simp [hk, isLoop]) (by simp [hk])
    exact (writesWhere_line _).bind fun _ => (below.statements n.inner).bind fun _ =>
      writesWhere_line _
  case h_9 hk => exact writesWhere_line _
  case h_10 hk => exact absurd hk hb
  case h_11 hk | h_12 hk =>
    simp only [Emit.statement, hk] at kept
    exact kept.writesWhere
  case h_13 hk => exact (others (by simp [hk, isLoop]) (by simp [hk])).labelStatement
  case h_14 hk =>
    -- A loop over a range is entered without resetting the count.
    rw [framesBelow_of_frame hk (.inl rfl)] at h
    have below : SameStatements (Inside around) e s s' := h
    exact below.rangeStatement
  case h_15 | h_16 | h_17 | h_18 => exact writesWhere_pure ()
  case h_19 =>
    have written : Kept (expression ⟨e, s⟩ n) :=
      expression_related congruence_kept (fun m _ => h.kept m)
        fun _ => kept_command trivial fun _ => rfl
    rw [← expression_stmt s s']
    exact written.writesWhere.bind fun _ => congruence_kept.endLine.writesWhere

theorem break_writes_within {around : List Kind} {em : Emitter} {n : Node} (hk : n.kind = .breakStmt)
    (kept : Kept (statement em n)) :
    WritesWhere (Inside around) (statement em n) (writtenBreak around) := by
  refine ⟨kept, fun desk inside => ?_⟩
  simp only [statement, jump, hk]
  rw [Script.bind_apply]
  by_cases keeps : keepsBreak around = true
  · simp [Script.context, Script.when, writtenBreak, keeps, inside.mpr keeps]
  · have counted : desk.context.switchDepth ≠ 0 := fun none => keeps (inside.mp none)
    simp [Script.context, Script.when, writtenBreak, keeps, counted]

/-- What an emitter writes by its count is what it writes when it is told what is around. -/
theorem emitter_writes_within (depth : Nat) (around : List Kind) (n : Node) :
    WritesWhere (Inside around) ((emitter depth).stmt n)
      ((emitterWithin writtenBreak depth around).stmt n) := by
  induction depth generalizing around n with
  | zero => exact (emitter_kept 0 n).stmt.writesWhere
  | succ depth ih =>
      change WritesWhere (Inside around) (statement (emitter depth) n)
        (statementWithin writtenBreak (emitterWithin writtenBreak depth) around n)
      have same (frames : List Kind) : SameStatements (Inside frames) (emitter depth).expr
          (emitter depth).stmt ((emitterWithin writtenBreak depth frames).stmt) :=
        ⟨fun m => (emitter_kept depth m).expr, ih frames⟩
      unfold statementWithin
      split
      · rename_i hk
        exact break_writes_within hk (emitter_kept (depth + 1) n).stmt
      · rename_i hk
        have told : emitterWithin writtenBreak depth (framesBelow around n) =
            ⟨(emitter depth).expr, (emitterWithin writtenBreak depth (framesBelow around n)).stmt⟩ := by
          cases depth <;> rfl
        rw [told]
        exact (same _).statement hk

/-- A `break` is left out where only loops over ranges are between it and a switch. -/
theorem keepsBreak_eq_false_iff (around : List Kind) :
    keepsBreak around = false ↔
      ∃ ranges outer, around = List.replicate ranges .cxxForRangeStmt ++ .switchStmt :: outer := by
  fun_induction keepsBreak around with
  | case1 outer => simpa using ⟨0, outer, rfl⟩
  | case2 outer ih =>
      rw [ih]
      constructor
      · rintro ⟨ranges, rest, rfl⟩
        exact ⟨ranges + 1, rest, rfl⟩
      · rintro ⟨ranges, rest, h⟩
        cases ranges with
        | zero => cases h
        | succ ranges => exact ⟨ranges, rest, (List.cons.inj h).2⟩
  | case3 around switch range =>
      simp only [Bool.true_eq_false, false_iff]
      rintro ⟨ranges, rest, rfl⟩
      cases ranges with
      | zero => exact switch rest rfl
      | succ ranges => exact range _ rfl

theorem writtenBreak_eq_line_iff (around : List Kind) :
    writtenBreak around = Script.line "break" ↔ keepsBreak around = true := by
  constructor
  · intro same
    rw [← Bool.not_eq_false]
    intro left
    have commands := congrArg (fun s : Script Unit => (s {}).commands) same
    simp only [writtenBreak, left, Script.when, Bool.false_eq_true, if_false] at commands
    cases commands
  · intro keeps
    simp only [writtenBreak, keeps, Script.when, if_true]

/-- Every statement is written as by an emitter that is told the loops and switches around each
`break`. A `break` of a loop gets its line exactly unless it is in a loop over a range, and only
such loops are between this one and a switch. -/
theorem break_written_iff (around : List Kind) (n : Node) (desk : Desk)
    (inside : desk.context.switchDepth = 0 ↔ keepsBreak around = true) :
    emitStmt n desk = (emitterWithin writtenBreak n.height around).stmt n desk ∧
      ∀ loop outer, isLoop loop = true →
        (writtenBreak (loop :: outer) = Script.line "break" ↔
          ¬∃ ranges rest, loop :: outer =
            List.replicate (ranges + 1) .cxxForRangeStmt ++ .switchStmt :: rest) := by
  refine ⟨(emitter_writes_within n.height around n).2 desk inside, fun loop outer hl => ?_⟩
  rw [writtenBreak_eq_line_iff, ← Bool.not_eq_false, keepsBreak_eq_false_iff]
  refine not_congr ⟨?_, ?_⟩
  · rintro ⟨ranges, rest, h⟩
    cases ranges with
    | zero =>
        cases h
        cases hl
    | succ ranges => exact ⟨ranges, rest, h⟩
  · rintro ⟨ranges, rest, h⟩
    exact ⟨ranges + 1, rest, h⟩

/-- The switch `switch (0) { case 1: for (val : vals) break; for (;;) break; }`. -/
def leavingSwitch : Node :=
  let number (text : String) : Node :=
    ⟨{ kind := .integerLiteral, value := some (.text text) }, [], []⟩
  let none : Node := ⟨{ kind := .null }, [], []⟩
  let leave : Node := ⟨{ kind := .breakStmt }, [], []⟩
  ⟨{ kind := .switchStmt }, [],
    [number "0",
      ⟨{ kind := .compoundStmt }, [],
        [⟨{ kind := .caseStmt }, [], [number "1", ⟨{ kind := .cxxForRangeStmt }, [], [leave]⟩]⟩,
          ⟨{ kind := .forStmt }, [], [none, none, none, none, leave]⟩]⟩]⟩

/-- Of two loops in an arm, only one keeps its `break`. -/
theorem leavingSwitch_keeps_one :
    keepsBreak [] = true ∧ (emitStmt leavingSwitch {}).result = .ok () ∧
      emitStmt leavingSwitch {} =
        (emitterWithin writtenBreak leavingSwitch.height []).stmt leavingSwitch {} ∧
      (emitStmt leavingSwitch {}).commands.filter (· = .line "break") = [.line "break"] := by
  obtain ⟨told, -⟩ := break_written_iff [] leavingSwitch {} (by decide)
  exact ⟨rfl, rfl, told, rfl⟩

end VFromC.Emit
