import VFromC.Proofs.Emit.Lines
/-!
The lines of the header of a `for` loop.

The clauses of a header are written in the same way as statements and expressions elsewhere, and
some of these end a line. The header stays on one line just if none of its clauses does so: at most
one variable is declared in it, and no clause has a jump or an assignment of an assignment in it.
-/
namespace VFromC.Emit
open VFromC.Syntax VFromC.Output

/-- A line ends in the first clause. Variables that are declared together stand on lines of their
own. -/
def StartEnds (breaks : Prop) (start : Node) : Prop :=
  if start.kind = .declStmt then
    2 ≤ (start.childrenOf .varDecl).length ∨
      ∃ var ∈ start.childrenOf .varDecl, ∃ value ∈ givenValue? var, EndsLine breaks value
  else EndsLine breaks start

/-- A line ends in one of the clauses. -/
def HeaderEnds (breaks : Prop) (start cond step : Node) : Prop :=
  StartEnds breaks start ∨ EndsLine breaks cond ∨ EndsLine breaks step

/-- What is between `for` and the brace. -/
def forClauses (em : Emitter) (start cond step : Node) : Script Unit := do
  forStart em start
  Script.write "; "
  Script.when (cond.kind ≠ .null) (condition em cond)
  Script.write "; "
  em.value step

section Clauses

variable (breaks : Prop)

theorem whole_value_consists (n : Node) : Consists breaks [n] (whole.value n) :=
  value_consists (whole_ends breaks) n

theorem localVariable_ends (var : Node) :
    Ends breaks (∃ value ∈ givenValue? var, EndsLine breaks value) (localVariable whole var) := by
  have given : Consists breaks (givenValue? var).toList (localValue whole var) := by
    unfold localValue
    cases givenValue? var with
    | none => exact consists_write _
    | some value => exact (consists_write _).bind fun _ => whole_value_consists breaks value
  unfold localVariable
  split
  · exact ends_fail _
  · have name : Consists breaks [] (Script.declare .inner var (localName var)) :=
      consists_command (kept_declare .inner var _) id
    have all := (consists_write "static ").when (c := var.isStatic).bind fun _ =>
      name.bind fun _ => given
    exact Ends.of_iff all (by simp)

theorem localVariables_ends (n : Node) :
    Ends breaks (2 ≤ (n.childrenOf .varDecl).length ∨
      ∃ var ∈ n.childrenOf .varDecl, ∃ value ∈ givenValue? var, EndsLine breaks value)
      (localVariables whole n) := by
  have notes : Consists breaks [] (Script.each
      (fun child : Node => Script.note s!"skipping local {child.kind.name}")
      (n.inner.filter (·.kind ≠ .varDecl))) := consists_each fun _ => consists_note _
  have declared := separated_ends fun var (_ : var ∈ n.childrenOf .varDecl) =>
    localVariable_ends breaks var
  exact (Ends.bind notes fun _ => declared).of_iff (by simp)

theorem forStart_ends (start : Node) :
    Ends breaks (StartEnds breaks start) (forStart whole start) := by
  unfold forStart
  split
  · rename_i hk
    rw [StartEnds, if_pos hk]
    exact localVariables_ends breaks start
  · rename_i hk
    rw [StartEnds, if_neg (by rw [hk]; decide)]
    exact Ends.of_iff (consists_pure ()) (by simp [not_endsLine_null hk])
  · rename_i hk _
    rw [StartEnds, if_neg hk]
    exact (whole_value_consists breaks start).of_iff (by simp)

theorem when_condition_ends (cond : Node) :
    Ends breaks (EndsLine breaks cond)
      (Script.when (cond.kind ≠ .null) (condition whole cond)) := by
  by_cases hk : cond.kind = .null
  · simp only [Script.when, hk, ne_eq, not_true_eq_false, if_false]
    exact Ends.of_iff (consists_pure ()) (by simp [not_endsLine_null hk])
  · have test : Consists breaks [cond] (condition whole cond) :=
      (expr_consists (whole_ends breaks) cond).bind fun _ => (consists_write _).when
    simp only [Script.when, hk, ne_eq, not_false_eq_true, if_true]
    exact test.of_iff (by simp)

theorem forClauses_ends (start cond step : Node) :
    Ends breaks (HeaderEnds breaks start cond step) (forClauses whole start cond step) := by
  have mark : Ends breaks False (Script.write "; ") := (consists_write "; ").of_iff (by simp)
  have last : Ends breaks (EndsLine breaks step) (whole.value step) :=
    (whole_value_consists breaks step).of_iff (by simp)
  have all := (forStart_ends breaks start).bind fun _ => mark.bind fun _ =>
    (when_condition_ends breaks cond).bind fun _ => mark.bind fun _ => last
  exact all.of_iff (by simp only [HeaderEnds, false_or])

end Clauses

section Header

variable {start cond step : Node} {desk : Desk} {draft : Draft}

theorem forHead_eq_clauses (h : ¬(start.kind = .null ∧ cond.kind = .null ∧ step.kind = .null)) :
    forHead whole start cond step = (do
      Script.write "for "
      forClauses whole start cond step
      Script.line " \x7b") := by
  simp only [forHead, if_neg h, forClauses, bind_assoc]

theorem not_headerEnds_of_null {breaks : Prop} (hs : start.kind = .null) (hc : cond.kind = .null)
    (ht : step.kind = .null) : ¬HeaderEnds breaks start cond step := by
  have first : ¬StartEnds breaks start := by
    rw [StartEnds, if_neg (by rw [hs]; decide)]
    exact not_endsLine_null hs
  rintro (h | h | h)
  · exact first h
  · exact not_endsLine_null hc h
  · exact not_endsLine_null ht h

/-- How commands bring the header of a loop onto a draft, where the last one ends the line that the
brace is on. -/
structure HeaderLines (draft : Draft) (breaks : Prop) (start cond step : Node)
    (heading : List Command) (opening : String) : Prop where
  /-- No line is complete before the last one, just if no clause ends a line. -/
  unbroken : (draft.run heading).page.done = draft.page.done ↔ ¬HeaderEnds breaks start cond step
  /-- Then the whole header is one line. -/
  line : (draft.run heading).page.done = draft.page.done → ∃ clauses,
    (draft.run (heading ++ [.line opening])).page =
      { draft.page with
        done := draft.page.done ++ lineText draft.page.indent ("for " ++ clauses ++ "\x7b") }

theorem headerLines_of_clauses {breaks : Prop} {clauses : List Command}
    (fresh : draft.page.pending = "") (adds : ∀ c ∈ clauses, c.Adds)
    (level : ∀ i, levelAfter i clauses = i)
    (ends : (∃ c ∈ clauses, c.Ends) ↔ HeaderEnds breaks start cond step) :
    HeaderLines draft breaks start cond step (.write "for " :: clauses) " \x7b" := by
  let begun := draft.apply (.write "for ")
  have pending : begun.page.pending = "for " := by
    change draft.page.pending ++ "for " = "for "
    rw [fresh, String.empty_append]
  have ink : begun.page.HasInk := by
    rw [Page.HasInk, pending]
    decide
  have quiet : (begun.run clauses).page.done = draft.page.done ↔ ∀ c ∈ clauses, ¬c.Ends :=
    done_run_eq_iff adds ink
  refine ⟨?_, fun same => ?_⟩
  · simp only [← ends, not_exists, not_and]
    exact quiet
  · change (begun.run clauses).page.done = _ at same
    obtain ⟨text, added⟩ := run_of_not_ends (quiet.mp same)
    have indent : (begun.run clauses).page.indent = draft.page.indent := by
      rw [indent_run, level]
      rfl
    have brace : " \x7b" = " " ++ "\x7b" := rfl
    refine ⟨text ++ " ", ?_⟩
    change (begun.run (clauses ++ [.line " \x7b"])).page = _
    rw [Draft.run_append]
    have ended : (begun.run clauses).page.writeLine " \x7b" = _ :=
      Page.writeLine_eq same indent fresh " \x7b"
    rw [(added begun).2, pending, brace] at ended
    simp only [String.append_assoc] at ended ⊢
    exact ended

theorem headerLines_endless (breaks : Prop) (hs : start.kind = .null) (hc : cond.kind = .null)
    (ht : step.kind = .null) (fresh : draft.page.pending = "") :
    HeaderLines draft breaks start cond step [] "for \x7b" := by
  have text : draft.page.pending ++ "for \x7b" = "for " ++ "" ++ "\x7b" := by
    rw [fresh]
    rfl
  refine ⟨iff_of_true rfl (not_headerEnds_of_null hs hc ht), fun _ => ⟨"", ?_⟩⟩
  change draft.page.writeLine "for \x7b" = _
  rw [Page.writeLine_eq rfl rfl fresh, text]

theorem forHead_lines (ok : (forHead whole start cond step desk).result = .ok ())
    (fresh : draft.page.pending = "") :
    ∃ heading opening,
      (forHead whole start cond step desk).commands = heading ++ [.line opening] ∧
        HeaderLines draft (desk.context.switchDepth = 0) start cond step heading opening := by
  by_cases none : start.kind = .null ∧ cond.kind = .null ∧ step.kind = .null
  · refine ⟨[], "for \x7b", ?_, headerLines_endless _ none.1 none.2.1 none.2.2 fresh⟩
    rw [forHead, if_pos none]
    rfl
  · obtain ⟨kept, ends⟩ := forClauses_ends (desk.context.switchDepth = 0) start cond step
    rw [forHead_eq_clauses none] at ok ⊢
    obtain ⟨_, _, rest, first⟩ := (kept_write "for ").bind_ok ok
    obtain ⟨_, clauses, _, second⟩ := kept.bind_ok rest
    refine ⟨_, _, ?_, headerLines_of_clauses fresh (kept desk).2.1 ((kept desk).2.2 _ clauses)
      (ends desk Iff.rfl _ clauses)⟩
    rw [first, second]
    rfl

theorem forStatement_inner {n : Node} (ok : (forStatement whole n desk).result = .ok ()) :
    ∃ start var cond step body tail, n.inner = start :: var :: cond :: step :: body :: tail := by
  rcases hi : n.inner with _ | ⟨start, _ | ⟨var, _ | ⟨cond, _ | ⟨step, _ | ⟨body, tail⟩⟩⟩⟩⟩
  case cons.cons.cons.cons.cons => exact ⟨start, var, cond, step, body, tail, rfl⟩
  all_goals
    simp [forStatement, childAt, hi, Script.fail_bind, Script.fail] at ok

end Header

/-- The commands of a loop start with its header, which is one line just if none of its clauses ends
a line. -/
theorem for_header_unbroken_iff (n : Node) (desk : Desk) (draft : Draft) (hk : n.kind = .forStmt)
    (ok : (emitStmt n desk).result = .ok ()) (fresh : draft.page.pending = "") :
    ∃ start var cond step body tail heading opening,
      n.inner = start :: var :: cond :: step :: body :: tail ∧
      (forHead whole start cond step desk).commands = heading ++ [.line opening] ∧
      (emitStmt n desk).commands =
        heading ++ .line opening :: ((loopBody whole body desk).commands ++ [.line "\x7d"]) ∧
      HeaderLines draft (desk.context.switchDepth = 0) start cond step heading opening := by
  have loop : emitStmt n = forStatement whole n := by
    rw [emitStmt_eq]
    simp only [statement, hk]
  rw [loop] at ok ⊢
  obtain ⟨start, var, cond, step, body, tail, hi⟩ := forStatement_inner ok
  have parts : forStatement whole n = (do
      forHead whole start cond step
      loopBody whole body
      Script.line "\x7d") := by
    simp only [forStatement, childAt, hi, List.getElem?_cons_zero, List.getElem?_cons_succ,
      pure_bind]
  rw [parts] at ok ⊢
  have head : Kept (forHead whole start cond step) :=
    forHead_related (n := n) congruence_kept (fun m _ => whole_kept m) (by simp [hi]) (by simp [hi])
      (by simp [hi])
  have inside : Kept (loopBody whole body) :=
    loopBody_related (n := n) congruence_kept (fun m _ => whole_kept m) (by simp [hi])
  obtain ⟨_, headed, rest, first⟩ := head.bind_ok ok
  obtain ⟨_, _, _, second⟩ := inside.bind_ok rest
  obtain ⟨heading, opening, commands, lines⟩ := forHead_lines headed fresh
  refine ⟨start, var, cond, step, body, tail, heading, opening, hi, commands, ?_, lines⟩
  rw [first, second, commands, List.append_assoc]
  rfl

/-- The statement `for (int i = 0, j = 1; i < j; i++) {}`. -/
def twoCounters : Node :=
  let counter (name value : String) : Node :=
    ⟨{ kind := .varDecl, name, type := { spelling := "int" }, init := "c" }, [],
      [⟨{ kind := .integerLiteral, value := some (.text value) }, [], []⟩]⟩
  let named (name : String) : Node :=
    ⟨{ kind := .declRefExpr, reference := some { kind := .varDecl, name } }, [], []⟩
  ⟨{ kind := .forStmt }, [],
    [⟨{ kind := .declStmt }, [], [counter "i" "0", counter "j" "1"]⟩,
      ⟨{ kind := .null }, [], []⟩,
      ⟨{ kind := .binaryOperator, opcode := "<" }, [], [named "i", named "j"]⟩,
      ⟨{ kind := .unaryOperator, opcode := "++" }, [], [named "i"]⟩,
      ⟨{ kind := .compoundStmt }, [], []⟩]⟩

/-- The first counter gets a line of its own, before the header is at its end. -/
theorem twoCounters_header_broken :
    (emitStmt twoCounters {}).result = .ok () ∧
    (∃ heading opening rest,
      (emitStmt twoCounters {}).commands = heading ++ .line opening :: rest ∧
      (({} : Draft).run heading).page.done ≠ "") ∧
    (({} : Draft).run (emitStmt twoCounters {}).commands).page.done =
      "for i := 0\nj := 1; i < j; i++ \x7b\n\x7d\n" := by
  have ok : (emitStmt twoCounters {}).result = .ok () := rfl
  obtain ⟨start, var, cond, step, body, tail, heading, opening, hi, -, commands, lines⟩ :=
    for_header_unbroken_iff twoCounters {} {} rfl ok rfl
  have two (breaks : Prop) : StartEnds breaks start := by
    injection hi with first
    rw [← first, StartEnds, if_pos rfl]
    exact .inl (by decide)
  refine ⟨ok, ⟨heading, opening, _, commands, fun same => ?_⟩, by decide +kernel⟩
  exact absurd (.inl (two _)) (lines.unbroken.mp same)

end VFromC.Emit
