import VFromC.Proofs.Batch.Growth
import VFromC.Proofs.Decl.Jumps
import VFromC.Proofs.Output.Known
/-!
Jumps to labels that come later are resolved as if all labels were known beforehand.
-/
namespace VFromC
open VFromC.Syntax VFromC.Output VFromC.Emit VFromC.Decl

/-- Identifiers of labels have neither underscores nor blanks, names of labels are words, and each
label has one name. -/
structure CleanLabels (root : Node) : Prop where
  label : ∀ n : Node, n.Below root → n.kind = .labelStmt → IsClean n.info.declId ∧ IsWord n.name
  jump : ∀ n : Node, n.Below root → n.kind = .gotoStmt → IsClean n.info.targetLabelId
  oneName : ∀ m n : Node, m.Below root → n.Below root → m.kind = .labelStmt →
    n.kind = .labelStmt → m.info.declId = n.info.declId → m.name = n.name

theorem CleanLabels.prepare {root : Node} (h : CleanLabels root) : CleanLabels root.prepare where
  label n hn hk := by
    obtain ⟨n', hn', same⟩ := Node.below_of_below_prepare hn
    rw [same.declId, same.name]
    exact h.label n' hn' (same.kind ▸ hk)
  jump n hn hk := by
    obtain ⟨n', hn', same⟩ := Node.below_of_below_prepare hn
    rw [same.targetLabelId]
    exact h.jump n' hn' (same.kind ▸ hk)
  oneName m n hm hn hkm hkn hid := by
    obtain ⟨m', hm', samem⟩ := Node.below_of_below_prepare hm
    obtain ⟨n', hn', samen⟩ := Node.below_of_below_prepare hn
    rw [samem.declId, samen.declId] at hid
    rw [samem.name, samen.name]
    exact h.oneName m' n' hm' hn' (samem.kind ▸ hkm) (samen.kind ▸ hkn) hid

section Commands

variable {root : Node} {commands : List Command}

theorem mem_of_mem_labelsOf {id name : String} (h : (id, name) ∈ labelsOf commands) :
    .label id name ∈ commands := by
  obtain ⟨c, hc, hl⟩ := List.mem_filterMap.mp h
  cases c with
  | label => cases hl; exact hc
  | _ => cases hl

theorem oneName_labelsOf (clean : CleanLabels root) (hc : ∀ c ∈ commands, ComesFrom root c) :
    OneName (labelsOf commands) := by
  intro id name name' h h'
  obtain ⟨m, hm, hkm, hidm, rfl⟩ := hc _ (mem_of_mem_labelsOf h)
  obtain ⟨n, hn, hkn, hidn, rfl⟩ := hc _ (mem_of_mem_labelsOf h')
  exact clean.oneName m n hm hn hkm hkn (hidm.trans hidn.symm)

theorem isWord_of_lookup (clean : CleanLabels root) (hc : ∀ c ∈ commands, ComesFrom root c)
    {id name : String} (h : nameIn commands id = some name) : IsWord name := by
  obtain ⟨n, hn, hk, _, rfl⟩ := hc _ (mem_of_mem_labelsOf (mem_of_lookup h))
  exact (clean.label n hn hk).2

theorem agrees_of_comesFrom (clean : CleanLabels root) (hc : ∀ c ∈ commands, ComesFrom root c) :
    ∀ c ∈ commands, Agrees (nameIn commands) c := by
  intro c hm
  cases c with
  | label id name =>
      refine (lookup_eq_some_iff_mem (oneName_labelsOf clean hc)).mpr ?_
      exact List.mem_filterMap.mpr ⟨_, hm, rfl⟩
  | jump id =>
      obtain ⟨n, hn, hk, rfl⟩ := hc _ hm
      exact clean.jump n hn hk
  | _ => trivial

end Commands

theorem error_map_iff {α β : Type} {r : Except Fault α} {f : α → β} {e : Fault} :
    r.map f = .error e ↔ r = .error e := by
  cases r with
  | error => simp [Except.map]
  | ok a => simp [Except.map]

theorem infix_unitText (shared : Bool) (body : String) :
    body.toList <:+: (Batch.unitText shared body).toList := by
  unfold Batch.unitText
  split
  · rw [String.toList_append]
    exact (List.suffix_append _ _).isInfix
  · rw [String.toList_append]
    exact (List.suffix_append _ _).isInfix

theorem hasMark_eq_false_iff {text : String} :
    Labels.hasMark text = false ↔ ¬ Labels.markStart.toList <:+: text.toList := by
  rw [Labels.hasMark, Text.occursIn, ← Text.contains_iff_within, Bool.not_eq_true]

/-- The text of a unit whose walk has a result and some commands, which are carried out on a
draft. -/
def outcome (shared : Bool) (result : Except Fault Unit) (commands : List Command) (d : Draft) :
    Except Fault String :=
  (result.bind fun _ => (d.run commands).finish).map (Batch.unitText shared)

theorem result_renderKnowing (b : Batch) (labels : Labels) (root : Node) (source : Option String) :
    (b.renderKnowing labels root source).result =
      outcome b.shared (writeUnit (b.unitOf root source) { symbols := b.symbols }).result
        (writeUnit (b.unitOf root source) { symbols := b.symbols }).commands { labels } := by
  unfold outcome
  obtain ⟨body, done, finished, same⟩ | ⟨e, failed, same⟩ :=
    b.renderKnowing_cases labels root source
  · rw [same, done, Except.bind, finished]
    rfl
  · rw [same, failed]
    rfl

section Outcome

variable {commands : List Command} {shared : Bool}

theorem outcome_eq_knowing (one : OneName (labelsOf commands))
    (words : ∀ id name, nameIn commands id = some name → IsWord name)
    (agrees : ∀ c ∈ commands, Agrees (nameIn commands) c)
    (free : ∀ text, outcome shared (.ok ()) commands (knowing commands) = .ok text →
      Labels.hasMark text = false) :
    outcome shared (.ok ()) commands {} = outcome shared (.ok ()) commands (knowing commands) := by
  refine congrArg (Except.map (Batch.unitText shared)) (finish_run_eq one words agrees ?_)
  intro body hb inside
  have noMark := free (Batch.unitText shared body)
    (congrArg (Except.map (Batch.unitText shared)) hb)
  exact hasMark_eq_false_iff.mp noMark (inside.trans (infix_unitText shared body))

theorem outcome_knowing_ok (words : ∀ id name, nameIn commands id = some name → IsWord name)
    (agrees : ∀ c ∈ commands, Agrees (nameIn commands) c) {text : String}
    (h : outcome shared (.ok ()) commands (knowing commands) = .ok text) :
    text = Batch.unitText shared
      (({} : Draft).run (commands.map (Command.named (nameIn commands)))).page.finish := by
  obtain ⟨body, hb, rfl⟩ := ok_of_map_ok h
  rw [← finish_run_ok words agrees hb]

theorem outcome_knowing_error_iff (agrees : ∀ c ∈ commands, Agrees (nameIn commands) c)
    {id : String} :
    outcome shared (.ok ()) commands (knowing commands) = .error (.unresolvedLabel id) ↔
      (jumpsOf commands).find? (fun id => (nameIn commands id).isNone) = some id := by
  refine (error_map_iff.trans (finish_run_error_iff agrees)).trans ?_
  simp

end Outcome

/-- Jumps that are resolved when a unit is complete are written as if all labels that the walk over
the unit meets had been known beforehand. The outcome is the same, every jump has the name of its
label, and a label is missing exactly when the walk met a jump to it and no such label. -/
theorem jumps_resolve_as_if_known (b : Batch) (root : Node) (source : Option String)
    (clean : CleanLabels root) :
    let walk := writeUnit (b.unitOf root source) { symbols := b.symbols }
    let known : Labels := { names := labelsOf walk.commands }
    (∀ text, (b.renderKnowing known root source).result = .ok text →
      Labels.hasMark text = false) →
    (b.render root source).result = (b.renderKnowing known root source).result ∧
    (∀ text, (b.render root source).result = .ok text →
      Labels.hasMark text = false ∧
      text = Batch.unitText b.shared
        (({} : Draft).run (walk.commands.map (Command.named (nameIn walk.commands)))).page.finish) ∧
    ∀ id, (b.render root source).result = .error (.unresolvedLabel id) ↔
      walk.result = .ok () ∧
      (jumpsOf walk.commands).find? (fun id => (nameIn walk.commands id).isNone) = some id := by
  intro walk known free
  have traced := writeUnit_traced (b.unitOf root source) { symbols := b.symbols }
  have clean' : CleanLabels (b.unitOf root source).root := clean.prepare
  have agrees := agrees_of_comesFrom clean' traced.1
  have words : ∀ id name, nameIn walk.commands id = some name → IsWord name :=
    fun _ _ h => isWord_of_lookup clean' traced.1 h
  have learning : (b.render root source).result = outcome b.shared walk.result walk.commands {} :=
    result_renderKnowing b {} root source
  have knows : (b.renderKnowing known root source).result =
      outcome b.shared walk.result walk.commands (knowing walk.commands) :=
    result_renderKnowing b known root source
  rw [learning, knows]
  rw [knows] at free
  rcases hr : walk.result with e | ⟨⟩
  · refine ⟨rfl, nofun, fun id => ⟨fun he => ?_, nofun⟩⟩
    cases he
    exact (traced.2 _ hr).elim
  · rw [hr] at free
    rw [outcome_eq_knowing (oneName_labelsOf clean' traced.1) words agrees free]
    refine ⟨rfl, fun text ht => ⟨free text ht, outcome_knowing_ok words agrees ht⟩, fun id => ?_⟩
    exact (outcome_knowing_error_iff agrees).trans ⟨fun h => ⟨rfl, h⟩, And.right⟩

/-- The main function with a jump to a label that comes later. -/
def jumpingMain : Node :=
  let jump : Node := ⟨{ kind := .gotoStmt, targetLabelId := "0x1" }, [], []⟩
  let label : Node := ⟨{ kind := .labelStmt, declId := "0x1", name := "done" }, [], []⟩
  let body : Node := ⟨{ kind := .compoundStmt }, [], [jump, label]⟩
  ⟨{}, [], [⟨{ kind := .functionDecl, name := "main", place := { file := "main.c" } }, [], [body]⟩]⟩

theorem jumpingMain_parts (n : Node) (h : n.Below jumpingMain) :
    (n.kind = .labelStmt → n.info.declId = "0x1" ∧ n.name = "done") ∧
      (n.kind = .gotoStmt → n.info.targetLabelId = "0x1") := by
  revert n
  simp [jumpingMain, Node.forall_below_mk_iff]

theorem jumpingMain_clean : CleanLabels jumpingMain where
  label n hn hk := by
    obtain ⟨id, name⟩ := (jumpingMain_parts n hn).1 hk
    rw [id, name]
    decide
  jump n hn hk := by
    rw [(jumpingMain_parts n hn).2 hk]
    decide
  oneName m n hm hn hkm hkn _ := by
    rw [((jumpingMain_parts m hm).1 hkm).2, ((jumpingMain_parts n hn).1 hkn).2]

theorem jumpingMain_resolves :
    CleanLabels jumpingMain ∧
    (({} : Batch).render jumpingMain none).result =
      .ok "[translated]\nmodule main\n\nfunc main() \x7b\n\tgoto done\n\tdone:\n\x7d\n\n" := by
  refine ⟨jumpingMain_clean, ?_⟩
  have text : (({} : Batch).renderKnowing
      { names := labelsOf (writeUnit (({} : Batch).unitOf jumpingMain none) {}).commands }
      jumpingMain none).result =
      .ok "[translated]\nmodule main\n\nfunc main() \x7b\n\tgoto done\n\tdone:\n\x7d\n\n" := by
    rfl
  refine (jumps_resolve_as_if_known {} jumpingMain none jumpingMain_clean ?_).1.trans text
  intro t ht
  cases text.symm.trans ht
  decide

end VFromC
