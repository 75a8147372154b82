import VFromC.Proofs.Batch.Growth
import VFromC.Proofs.Decl.Braces
import VFromC.Proofs.Decl.Modes
import VFromC.Proofs.Syntax.Prepare
/-!
The texts that a batch produces have balanced braces.

After each declaration the page is closed, and so is every text that was moved away. Resolving the
jumps and writing the head of the unit do not open anything.
-/
namespace VFromC.Syntax.Node

theorem HasNoBrace.of_alike {m n : Node} (h : n.HasNoBrace) (same : m.Alike n) :
    m.HasNoBrace := by
  obtain ⟨_, _, _, same⟩ := same
  change HasNoBrace ⟨m.info, [], []⟩
  rw [same]
  exact h

theorem BraceFree.prepare {root m : Node} (h : root.BraceFree) (hm : m ∈ root.prepare.inner) :
    m.BraceFree := by
  have free {k : Node} (hk : k.Below root.prepare) : k.HasNoBrace := by
    obtain ⟨k', below, same⟩ := below_of_below_prepare hk
    exact (h.2 k' below).of_alike same
  exact ⟨free (below_of_mem_inner hm), fun k hk => free (hk.trans (below_of_mem_inner hm))⟩

end VFromC.Syntax.Node

namespace VFromC.Decl
open VFromC.Syntax VFromC.Output VFromC.Emit VFromC.Text

section Visits

variable {v : Visit}

mutual

theorem free_of_mem_visit {next : Option Node} (hn : NextFree next) :
    ∀ {n : Node}, n.BraceFree → v ∈ visit next n → v.decl.BraceFree ∧ NextFree v.next
  | ⟨info, filler, inner⟩, free, hv => by
      rw [visit] at hv
      split at hv
      · exact free_of_mem_visits (fun m hm => free.inner hm) hv
      · rw [List.mem_singleton.mp hv]
        exact ⟨free, hn⟩

theorem free_of_mem_visits :
    ∀ {decls : List Node}, (∀ n ∈ decls, n.BraceFree) → v ∈ visits decls →
      v.decl.BraceFree ∧ NextFree v.next
  | [], _, hv => absurd hv List.not_mem_nil
  | n :: rest, free, hv => by
      obtain ⟨first, others⟩ := List.forall_mem_cons.mp free
      rw [visits] at hv
      rcases List.mem_append.mp hv with hv | hv
      · exact free_of_mem_visit (fun later h => (others later (List.mem_of_mem_head? h)).1.name)
          first hv
      · exact free_of_mem_visits others hv

end

end Visits

section Drafts

/-- No line is pending, and every brace that was opened is closed, on the page and in each text that
was moved away. -/
inductive Closed : Draft → Prop
  | at_rest {text : String} {labels : Labels} {journal : Journal} {place : Nat}
      {taken : List (String × String)} (page : Leads 0 0 (braces text)) (free : labels.BraceFree)
      (texts : ∀ entry ∈ taken, Leads 0 0 (braces entry.2)) :
      Closed (Draft.restAt text labels journal place taken)

/-- The outcome leaves a closed draft closed, unless it is a failure, and moves only closed texts
away. -/
structure GoesOn (d : Draft) (w : Written Unit) : Prop where
  symbols : w.desk.symbols.BraceFree
  texts : ∀ entry ∈ (d.run w.commands).taken, Leads 0 0 (braces entry.2)
  closed : w.result = .ok () → Closed (d.run w.commands)

variable {d : Draft} {desk : Desk}

theorem Closed.texts (hd : Closed d) : ∀ entry ∈ d.taken, Leads 0 0 (braces entry.2) := by
  obtain ⟨_, _, texts⟩ := hd
  exact texts

theorem Closed.finish (hd : Closed d) {body : String} (h : d.finish = .ok body) :
    Leads 0 0 (braces body) := by
  obtain ⟨page, free, _⟩ := hd
  rw [Draft.finish, restAt_finish] at h
  rw [braces_resolveAll free.1 free.2 h]
  exact page

theorem not_take_of_isTame {c : Command} (h : c.IsTame) (name : String) : c ≠ .take name := by
  rintro rfl
  exact h

theorem goesOn_of_nests {s : Script Unit} (hs : Nests 0 0 s) (hr : Rests Command.Adds s)
    (known : desk.symbols.BraceFree) (hmain : desk.context.inMain = false) (hd : Closed d) :
    GoesOn d (s desk) := by
  obtain ⟨symbols, tame, leads⟩ := hs desk known
  refine ⟨symbols, ?_, fun ok => ?_⟩
  · rw [taken_run d fun c hc => not_take_of_isTame (tame c hc)]
    exact hd.texts
  · obtain ⟨_, _, level⟩ := hr.1 desk hmain ok
    obtain ⟨page, free, texts⟩ := hd
    obtain ⟨added, labels', journal', same, free', run⟩ :=
      restAt_run_braces tame (level 0) (hr.2 desk ok) free _
    rw [run]
    refine .at_rest ?_ free' texts
    rw [braces_append, same]
    exact page.append (leads () ok)

end Drafts

section Globals

variable {u : SourceUnit} {n : Node} {d : Draft} {desk : Desk}

theorem Silent.nests {s : Script Unit} (h : Silent s) {i : Nat} : Nests i i s := by
  intro desk known
  obtain ⟨same, notes⟩ := h desk
  have quiet : bracesOf (s desk).commands = [] := by
    refine List.flatMap_eq_nil_iff.mpr fun c hc => ?_
    obtain ⟨e, rfl⟩ := notes c hc
    rfl
  refine ⟨by rwa [same], fun c hc => ?_, fun _ _ => by rw [quiet]; exact leads_nil⟩
  obtain ⟨e, rfl⟩ := notes c hc
  trivial

theorem definition_rests (n : Node) : Rests Command.Adds (definition n) := by
  unfold definition
  split
  · split
    · exact constantText_rests ..
    · exact variableText_rests ..
  · exact variableText_rests ..

theorem recordGlobal_goesOn {name type : String} (free : n.BraceFree)
    (known : desk.symbols.BraceFree) (hmain : desk.context.inMain = false) (hd : Closed d) :
    GoesOn d (recordGlobal u n name type (definition n) desk) := by
  obtain ⟨symbols, tame, leads⟩ := definition_nests (i := 0) free desk known
  have rests := definition_rests n
  rcases hs : definition n desk with ⟨commands, next, e | ⟨⟩⟩
  · rw [recordGlobal_apply_error hs]
    rw [hs] at symbols tame
    refine ⟨symbols, ?_, fun h => by cases h⟩
    have untaken : ∀ c ∈ Command.mark :: commands, ∀ name, c ≠ .take name :=
      List.forall_mem_cons.mpr ⟨fun _ => nofun, fun c hc => not_take_of_isTame (tame c hc)⟩
    dsimp only
    rw [taken_run d untaken]
    exact hd.texts
  · have ok : (definition n desk).result = .ok () := by rw [hs]
    obtain ⟨_, _, level⟩ := rests.1 desk hmain ok
    have pending := rests.2 desk ok
    have leads := leads () ok
    rw [hs] at symbols tame level pending leads
    obtain ⟨page, free, texts⟩ := hd
    obtain ⟨added, labels', journal', same, free', run⟩ :=
      restAt_run_braces tame (level 0) pending free _
    have closed : Leads 0 0 (braces (added ++ "\n")) := by
      rw [braces_append, same]
      exact leads.append leads_nil
    rw [recordGlobal_apply_ok hs]
    suffices Closed (Draft.run _ _) from ⟨symbols, this.texts, fun _ => this⟩
    split
    · rw [restAt_run_taken run]
      exact .at_rest page free' (List.forall_mem_append.mpr
        ⟨texts, List.forall_mem_singleton.mpr closed⟩)
    · rw [List.append_nil, restAt_run_marked run]
      refine .at_rest ?_ free' texts
      rw [braces_append]
      exact page.append closed

theorem globalDecl_goesOn (free : n.BraceFree) (known : desk.symbols.BraceFree)
    (hmain : desk.context.inMain = false) (hd : Closed d) : GoesOn d (globalDecl u n desk) := by
  change GoesOn d (judgedGlobal u n desk.symbols desk)
  cases hw : isWritten u desk.symbols n with
  | true =>
      rw [judgedGlobal_of_isWritten hw]
      exact recordGlobal_goesOn free known hmain hd
  | false =>
      have silent := silent_of_not_isWritten hw
      exact goesOn_of_nests silent.nests silent.rests known hmain hd

end Globals

section Units

variable {u : SourceUnit} {d : Draft} {desk : Desk}

theorem visit_goesOn {v : Visit} (hg : isGroup v.decl.info = false) (free : v.decl.BraceFree)
    (hn : NextFree v.next) (known : desk.symbols.BraceFree) (hmain : desk.context.inMain = false)
    (hd : Closed d) : GoesOn d (v.script u desk) := by
  rw [Visit.script]
  rcases hb : v.decl.info.isBuiltin with _ | _
  · by_cases hk : v.decl.kind = .varDecl
    · rw [topLevel_global hb hk]
      exact globalDecl_goesOn free known hmain hd
    · exact goesOn_of_nests (topLevel_nests free hn hg hk) (topLevel_rests_adds hg hk) known hmain
        hd
  · obtain ⟨text, ht⟩ := topLevel_of_isBuiltin v.next hb
    rw [ht u]
    exact goesOn_of_nests (nests_note text) (rests_note text) known hmain hd

theorem visits_goOn {vs : List Visit}
    (hvs : ∀ v ∈ vs, isGroup v.decl.info = false ∧ v.decl.BraceFree ∧ NextFree v.next)
    (known : desk.symbols.BraceFree) (hmain : desk.context.inMain = false) (hd : Closed d) :
    GoesOn d (Script.each (Visit.script u) vs desk) := by
  induction vs generalizing desk d with
  | nil => exact ⟨known, hd.texts, fun _ => hd⟩
  | cons v rest ih =>
      obtain ⟨⟨hg, free, hn⟩, others⟩ := List.forall_mem_cons.mp hvs
      have step : GoesOn d (v.script u desk) := visit_goesOn hg free hn known hmain hd
      have rests : Rests (fun _ => True) (v.script u) := topLevel_rests hg
      have stays := rests.1 desk hmain
      rw [Script.each]
      rcases hs : v.script u desk with ⟨commands, next, e | ⟨⟩⟩
      · rw [Script.bind_apply_error hs]
        rw [hs] at step
        exact ⟨step.symbols, step.texts, fun h => by cases h⟩
      · rw [Script.bind_apply_ok hs]
        rw [hs] at step stays
        have outside : next.context.inMain = false := by
          rw [(stays rfl).1, hmain]
        obtain ⟨symbols, texts, closed⟩ := ih others step.symbols outside (step.closed rfl)
        rw [← Draft.run_append] at texts closed
        exact ⟨symbols, texts, closed⟩

theorem writeUnit_goesOn {symbols : Symbols} (free : ∀ n ∈ u.root.inner, n.BraceFree)
    (known : symbols.BraceFree) : GoesOn {} (writeUnit u { symbols }) := by
  have empty : Closed {} := .at_rest leads_nil ⟨nofun, nofun⟩ nofun
  rw [writeUnit, topLevels_eq_each]
  exact visits_goOn (fun v hv => ⟨not_isGroup_of_mem_visits _ hv, free_of_mem_visits free hv⟩)
    known rfl empty

end Units

end VFromC.Decl

namespace VFromC
open VFromC.Syntax VFromC.Output VFromC.Emit VFromC.Decl VFromC.Text

section Stored

theorem mem_addTexts {t : Symbols} {texts : List (String × String)} {entry : String × String}
    (h : entry ∈ (t.addTexts texts).globalTexts) : entry ∈ t.globalTexts ∨ entry ∈ texts := by
  induction texts generalizing t with
  | nil => exact .inl h
  | cons first rest ih =>
      rcases ih (t := t.setGlobalText first.1 first.2) h with h | h
      · rcases mem_putEntry h with rfl | h
        · exact .inr List.mem_cons_self
        · exact .inl h
      · exact .inr (List.mem_cons_of_mem _ h)

theorem globalTexts_writeUnit (u : SourceUnit) (symbols : Symbols) :
    (writeUnit u { symbols }).desk.symbols.globalTexts = symbols.globalTexts := by
  obtain ⟨changes, _, _, after, _⟩ := writeUnit_makes u { symbols }
  rw [after, Symbols.globalTexts_replay]

end Stored

namespace Batch

variable {b : Batch} {root : Node} {source : Option String}

theorem unitText_leads {shared : Bool} {body : String} (h : Leads 0 0 (braces body)) :
    Leads 0 0 (braces (unitText shared body)) := by
  have header : braces unitHeader = [] := rfl
  have file : Leads 0 0 (braces fileDeclaration) := leads_open.append leads_close
  unfold unitText
  split
  · rw [braces_append, braces_append, header]
    exact file.append h
  · rw [braces_append, header]
    exact h

/-- A unit leaves behind the symbols of its declarations with the texts that it moved away. -/
theorem symbols_of_render (b : Batch) (root : Node) (source : Option String) :
    let desk := (writeUnit (b.unitOf root source) { symbols := b.symbols }).desk
    (b.render root source).batch.symbols.members = desk.symbols.members ∧
      (b.render root source).batch.symbols.globalTexts =
        (desk.symbols.addTexts (b.moved root source)).globalTexts := by
  intro desk
  have members : (b.walked root source).members = desk.symbols.members := by
    rw [walked, SourceUnit.compose, Symbols.addTexts_eq]
  rcases b.symbols_render root source with after | after
  · rw [after]
    exact ⟨members, rfl⟩
  · rw [after]
    exact ⟨members, rfl⟩

end Batch

/-- When no name of an enumeration has a brace in it, a unit without braces in its strings is
written with balanced braces, and so is each text that it moves away. The texts that are stored
afterwards were stored before or are among these. The names of enumerations have no braces in them
afterwards either, so that the same holds for the next unit. -/
theorem render_balances_braces (b : Batch) (root : Node) (source : Option String)
    (free : root.BraceFree) (known : b.symbols.BraceFree) :
    (∀ text, (b.render root source).result = .ok text → Balanced text) ∧
    (∀ entry ∈ b.moved root source, Balanced entry.2) ∧
    (∀ entry ∈ (b.render root source).batch.symbols.globalTexts,
      entry ∈ b.symbols.globalTexts ∨ entry ∈ b.moved root source) ∧
    (b.render root source).batch.symbols.BraceFree := by
  obtain ⟨symbols, texts, closed⟩ :=
    writeUnit_goesOn (u := b.unitOf root source) (fun _ hm => free.prepare hm) known
  obtain ⟨members, stored⟩ := b.symbols_of_render root source
  refine ⟨fun text ht => ?_, fun entry he => balanced_of_braces (texts entry he),
    fun entry he => ?_, ?_⟩
  · obtain ⟨ok, body, finished, rfl⟩ := Batch.walk_of_render ht
    exact balanced_of_braces (Batch.unitText_leads ((closed ok).finish finished))
  · rw [stored] at he
    rw [← globalTexts_writeUnit (b.unitOf root source) b.symbols]
    exact mem_addTexts he
  · unfold Symbols.BraceFree
    rw [members]
    exact symbols

/-- A unit with a record, a global of that type, and a function that takes one of two ways. -/
def branchingUnit : Node :=
  let place : Place := { file := "a.c" }
  let pair : TypeText := { spelling := "struct pair" }
  let one : Node := ⟨{ kind := .integerLiteral, value := some (.text "1") }, [], []⟩
  let red : Node :=
    ⟨{ kind := .declRefExpr, reference := some ⟨"0x1", .enumConstantDecl, "RED"⟩ }, [], []⟩
  let returned (n : Node) : Node := ⟨{ kind := .returnStmt }, [], [n]⟩
  let field : Node := ⟨{ kind := .fieldDecl, name := "a", type := { spelling := "int" } }, [], []⟩
  let record : Node :=
    ⟨{ kind := .recordDecl, name := "pair", tagUsed := "struct", place }, [], [field]⟩
  let origin : Node := ⟨{ kind := .varDecl, name := "origin", type := pair, place }, [],
    [⟨{ kind := .initListExpr, type := pair }, [], [one]⟩]⟩
  let choice : Node := ⟨{ kind := .ifStmt }, [], [one, returned red, returned one]⟩
  let pick : Node :=
    ⟨{ kind := .functionDecl, name := "pick", type := { spelling := "int ()" }, place }, [],
      [⟨{ kind := .compoundStmt }, [], [choice]⟩]⟩
  ⟨{}, [], [record, origin, pick]⟩

theorem branchingUnit_balances :
    let b : Batch :=
      { symbols := { enums := ["Color"], members := [("Color", ["red"])] }, shared := true }
    let text := "[translated]\nmodule main\n\nstruct Pair \x7b\n\ta int\n\x7d\n\n" ++
      "func pick() int \x7b\n\tif 1 \x7b\n\t\treturn Color.red\n" ++
      "\t\x7d else \x7b\n\t\treturn 1\n\t\x7d\n\x7d\n\n"
    let moved := "[weak]\n__global ( origin = Pair\x7b1\x7d )\n\n"
    branchingUnit.BraceFree ∧ b.symbols.BraceFree ∧
    (b.render branchingUnit none).result = .ok text ∧ Balanced text ∧
    b.moved branchingUnit none = [("origin", moved)] ∧ Balanced moved := by
  intro b text moved
  have free : branchingUnit.BraceFree := by
    simp only [branchingUnit, Node.BraceFree, Node.forall_below_mk_iff, List.forall_mem_cons,
      List.not_mem_nil, false_implies, implies_true, and_true]
    decide
  have known : b.symbols.BraceFree := List.forall_mem_singleton.mpr rfl
  have written : (b.render branchingUnit none).result = .ok text := by
    decide +kernel
  have away : b.moved branchingUnit none = [("origin", moved)] := by
    decide +kernel
  obtain ⟨texts, others, _⟩ := render_balances_braces b branchingUnit none free known
  refine ⟨free, known, written, texts text written, away, others ("origin", moved) ?_⟩
  rw [away]
  exact List.mem_singleton_self _

/-- An enumeration with a brace in its name. -/
def bracedEnum : Node :=
  let place : Place := { file := "a.c" }
  ⟨{}, [], [⟨{ kind := .enumDecl, name := "A\x7b", place }, [],
    [⟨{ kind := .enumConstantDecl, name := "x" }, [], []⟩]⟩]⟩

/-- A function that gives back a member of an enumeration. -/
def memberUse : Node :=
  let place : Place := { file := "b.c" }
  let member : Node :=
    ⟨{ kind := .declRefExpr, reference := some ⟨"0x2", .enumConstantDecl, "x"⟩ }, [], []⟩
  ⟨{}, [], [⟨{ kind := .functionDecl, name := "f", type := { spelling := "int ()" }, place }, [],
    [⟨{ kind := .compoundStmt }, [], [⟨{ kind := .returnStmt }, [], [member]⟩]⟩]⟩]⟩

/-- The brace in the name of an enumeration is written with its members in later units, which need
not have any brace in them. -/
theorem memberUse_stays_open :
    let b := (({} : Batch).render bracedEnum none).batch
    let text := "[translated]\nmodule main\n\nfunc f() int \x7b\n\treturn A\x7b.x\n\x7d\n\n"
    memberUse.BraceFree ∧ (b.render memberUse none).result = .ok text ∧ ¬ Balanced text := by
  intro b text
  refine ⟨?_, by decide +kernel, fun balanced => absurd balanced.2 (by decide +kernel)⟩
  simp only [memberUse, Node.BraceFree, Node.forall_below_mk_iff, List.forall_mem_cons,
    List.not_mem_nil, false_implies, implies_true, and_true]
  decide

end VFromC
