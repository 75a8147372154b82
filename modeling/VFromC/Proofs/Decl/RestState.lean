import VFromC.Proofs.Decl.Related
import VFromC.Proofs.Decl.Rest
/-!
Every declaration ends at rest.
-/
namespace VFromC.Decl
open VFromC.Syntax VFromC.Output VFromC.Emit

theorem Rests.mono {A B : Command → Prop} {s : Script Unit} (h : Rests A s)
    (hAB : ∀ c, A c → B c) : Rests B s := by
  refine ⟨fun desk hmain hr => ?_, h.2⟩
  obtain ⟨same, all, level⟩ := h.1 desk hmain hr
  exact ⟨same, fun c hc => hAB c (all c hc), level⟩

theorem writeExpr_kept (n : Node) : Kept (writeExpr n) :=
  (emitter_kept n.height n).value congruence_kept

theorem writeMemberValue_kept (value : Node) : Kept (writeMemberValue value) :=
  (writeExpr_kept _).within _

theorem kept_bind_closes {s t : Script Unit} (hs : Kept s) (ht : Closes Command.Adds t) :
    Closes Command.Adds (do s; t) :=
  (level_of_kept hs).bind_closes ht

theorem write_bind_closes (text : String) {t : Script Unit} (ht : Closes Command.Adds t) :
    Closes Command.Adds (do Script.write text; t) :=
  kept_bind_closes (kept_write text) ht

section Types

theorem recordText_rests (n : Node) (name : String) : Rests Command.Adds (recordText n name) :=
  (rests_head _).bind <| (rests_each fun text _ => rests_line text).indented.bind <|
    (rests_line _).bind (rests_line _)

mutual

theorem recordDecl_rests (next : Option Node) :
    ∀ n, Rests Command.Adds (recordDecl next n)
  | ⟨info, filler, inner⟩ => by
      rw [recordDecl]
      refine rests_symbols_bind fun known => ?_
      dsimp only
      split
      · exact rests_pure
      · split
        · exact rests_note _
        · split
          · exact rests_pure
          · exact (rests_register _).bind <| (rests_note _).bind <|
              (nestedRecords_rests inner).bind (recordText_rests _ _)

theorem nestedRecords_rests : ∀ inner, Rests Command.Adds (nestedRecords inner)
  | [] => rests_pure
  | n :: rest => by
      rw [nestedRecords]
      exact (Rests.when fun _ => recordDecl_rests none n).bind (nestedRecords_rests rest)

end

theorem aliasDecl_rests (n : Node) : Rests Command.Adds (aliasDecl n) := by
  refine rests_symbols_bind fun known => ?_
  dsimp only
  iterate 4
    split
    · exact rests_pure
  exact (rests_register _).bind <| (rests_head _).bind (rests_line _)

end Types

section Enums

theorem enumMember_rests (member : Node) : Rests Command.Adds (enumMember member) := by
  refine (write_bind_closes _ (kept_bind_closes ?_ closes_endLine)).rests
  refine congruence_kept.forSome (g := givenMember) fun value _ => ?_
  exact (kept_write _).bind fun _ => writeMemberValue_kept value

theorem constValue_kept (previous : Option String) (member : Node) :
    Kept (constValue previous member) :=
  constValue_related congruence_kept (fun m _ => whole_kept m) previous

theorem constMembers_rests (previous : Option String) (members : List Node) :
    Rests Command.Adds (constMembers previous members) := by
  induction members generalizing previous with
  | nil => exact rests_pure
  | cons member rest ih =>
      have head : Rests Command.Adds (do
          Script.declare .constant member (Ident.spellMember member.name)
          Script.write " = "
          constValue previous member
          Script.endLine) :=
        (kept_bind_closes (kept_declare _ _ _) (write_bind_closes _
          (kept_bind_closes (constValue_kept previous member) closes_endLine))).rests
      have both := (rests_register (A := Command.Adds) (·.addConst member.name)).bind
        (head.bind (ih (some (Ident.spellMember member.name))))
      simpa only [constMembers, bind_assoc] using both

theorem enumDecl_rests (n : Node) (next : Option Node) : Rests Command.Adds (enumDecl n next) := by
  refine rests_symbols_bind fun known => ?_
  dsimp only
  split
  · exact rests_pure
  · split
    · exact (rests_line _).bind <| (constMembers_rests _ _).indented.bind <|
        (rests_line _).bind (rests_line _)
    · split
      · exact rests_pure
      · have members := rests_each fun member (_ : member ∈ n.childrenOf .enumConstantDecl) =>
          enumMember_rests member
        exact (rests_head _).bind <| members.indented.bind <| (rests_line _).bind <|
          (rests_line _).bind <| (rests_note _).bind (rests_register _)

end Enums

section Functions

theorem leaveMain_rests {A : Command → Prop} :
    Rests A (Script.setContext fun c => { c with inMain := false }) := by
  refine ⟨fun desk hmain _ => ⟨?_, fun _ h => absurd h List.not_mem_nil, fun _ => rfl⟩,
    fun _ _ _ hp => hp⟩
  change ({ desk.context with inMain := false } : Context) = desk.context
  rw [← hmain]

/-- What stands between the two changes of context of a function. -/
def functionInside (n body : Node) : Script Unit := do
  functionSignature n
  Script.line " \x7b"
  statements (emitter body.height) body.inner
  Script.line "\x7d"

theorem functionBody_eq (n body : Node) :
    functionBody n body = (do
      Script.setContext fun c => { c with inMain := n.name = "main" }
      functionInside n body
      Script.setContext fun c => { c with inMain := false }) := by
  simp only [functionBody, functionInside, bind_assoc]

theorem functionSignature_kept (n : Node) : Kept (functionSignature n) :=
  functionSignature_related congruence_kept.toCongruence (kept_declare .function n _)
    fun param _ => kept_declare .parameter param _

theorem functionInside_kept (n body : Node) : Kept (functionInside n body) := by
  have middle : Kept (statements (emitter body.height) body.inner) :=
    statements_related congruence_kept fun m _ => emitter_kept _ m
  exact (functionSignature_kept n).bind fun _ => (kept_line _).bind fun _ =>
    middle.bind fun _ => kept_line _

theorem functionInside_closes (n body : Node) : Closes Command.Adds (functionInside n body) := by
  have middle : Kept (statements (emitter body.height) body.inner) :=
    statements_related congruence_kept fun m _ => emitter_kept _ m
  exact kept_bind_closes (functionSignature_kept n)
    (kept_bind_closes (kept_line _) (kept_bind_closes middle (closes_line _)))

theorem functionBody_rests (n body : Node) : Rests Command.Adds (functionBody n body) := by
  rw [functionBody_eq]
  refine ⟨fun desk hmain hr => ?_, fun desk hr draft hp => ?_⟩
  · obtain ⟨⟨⟩, _, hr₁, hd₁, hc₁⟩ := bind_ok hr
    obtain ⟨⟨⟩, hr₂, _, hd₂, hc₂⟩ := bind_ok hr₁
    obtain ⟨same, adds, level⟩ := functionInside_kept n body
      { desk with context := { desk.context with inMain := n.name = "main" } }
    rw [hd₁, hc₁, hd₂, hc₂]
    simp only [Script.setContext, List.nil_append, List.append_nil] at hr₂ ⊢
    rw [same]
    exact ⟨by rw [← hmain], adds, level () hr₂⟩
  · obtain ⟨⟨⟩, _, hr₁, _, hc₁⟩ := bind_ok hr
    obtain ⟨⟨⟩, hr₂, _, _, hc₂⟩ := bind_ok hr₁
    rw [hc₁, hc₂]
    simp only [Script.setContext, List.nil_append, List.append_nil] at hr₂ ⊢
    exact (functionInside_closes n body).2 _ hr₂ draft

theorem functionText_rests (n : Node) : Rests Command.Adds (functionText n) := by
  refine (Rests.when fun _ => rests_line _).bind <| (Rests.when fun _ => rests_line _).bind <|
    (rests_register _).bind <| Rests.bind ?_ (rests_line _)
  unfold functionOutline
  split
  · exact functionBody_rests n _
  · exact (kept_bind_closes (functionSignature_kept n) (closes_line _)).rests

theorem functionDecl_rests (u : SourceUnit) (n : Node) : Rests Command.Adds (functionDecl u n) := by
  refine leaveMain_rests.bind (rests_symbols_bind fun known => ?_)
  split
  · exact rests_pure
  · split
    · exact rests_note _
    · split
      · exact rests_pure
      · exact functionText_rests n

end Functions

section Variables

theorem givenText_kept (n : Node) (type : String) (value : Node) :
    Kept (givenText n type value) :=
  givenText_related congruence_kept n type (whole_kept value)

theorem variableText_rests (n : Node) (name type : String) (value : Option Node) :
    Rests Command.Adds (variableText n name type value) := by
  refine (rests_line _).bind (write_bind_closes _ (kept_bind_closes (kept_declare _ _ _) ?_)).rests
  cases value with
  | none => exact closes_line _
  | some value =>
      exact write_bind_closes _ (kept_bind_closes (givenText_kept n type value) (closes_line _))

theorem constantText_rests (n : Node) (name : String) (value : Node) :
    Rests Command.Adds (constantText n name value) :=
  (rests_register _).bind <| (rests_line _).bind <| (rests_line _).bind <|
    Rests.bind (Rests.indented
      (kept_bind_closes (kept_declare _ _ _) (write_bind_closes _
        (kept_bind_closes (writeExpr_kept value) closes_endLine))).rests)
      (rests_line _)

theorem recordGlobal_rests (u : SourceUnit) (n : Node) (name type : String) {text : Script Unit}
    (h : Rests Command.Adds text) : Rests (fun _ => True) (recordGlobal u n name type text) := by
  have mark : Rests (fun _ => True) (Script.command .mark) :=
    (closes_command trivial (fun _ => rfl) pending_apply_mark).rests
  have take : Rests (fun _ => True) (Script.command (.take name)) :=
    (closes_command trivial (fun _ => rfl) (pending_apply_take name)).rests
  exact mark.bind <| (h.mono fun _ _ => trivial).bind <|
    ((rests_line _).mono fun _ _ => trivial).bind <| (Rests.when fun _ => take).bind
      (rests_register _)

/-- Nothing is written and nothing entered; something may be noted. -/
def Silent (s : Script Unit) : Prop :=
  ∀ desk, (s desk).desk = desk ∧ ∀ c ∈ (s desk).commands, ∃ e, c = .note e

theorem silent_pure : Silent (pure ()) :=
  fun _ => ⟨rfl, fun _ h => absurd h List.not_mem_nil⟩

theorem silent_fail (e : Fault) : Silent (Script.fail e) :=
  fun _ => ⟨rfl, fun _ h => absurd h List.not_mem_nil⟩

theorem silent_note (text : String) : Silent (Script.note text) :=
  fun _ => ⟨rfl, List.forall_mem_singleton.mpr ⟨_, rfl⟩⟩

/-- The scripts of two units for one global: both pass it over, or both write the same text. -/
inductive GlobalPair (u₁ u₂ : SourceUnit) (n : Node) : Script Unit → Script Unit → Prop
  | silent {s : Script Unit} (h : Silent s) : GlobalPair u₁ u₂ n s s
  | written (type : String) {text : Script Unit} (h : Rests Command.Adds text) :
      GlobalPair u₁ u₂ n (recordGlobal u₁ n (Ident.spell n.name) type text)
        (recordGlobal u₂ n (Ident.spell n.name) type text)

variable {u₁ u₂ : SourceUnit} {n : Node}

theorem GlobalPair.ite {c : Prop} [Decidable c] {s₁ s₂ t₁ t₂ : Script Unit}
    (hs : GlobalPair u₁ u₂ n s₁ s₂) (ht : GlobalPair u₁ u₂ n t₁ t₂) :
    GlobalPair u₁ u₂ n (if c then s₁ else t₁) (if c then s₂ else t₂) := by
  by_cases h : c
  · rwa [if_pos h, if_pos h]
  · rwa [if_neg h, if_neg h]

theorem writeVariable_pair (hs : u₁.source = u₂.source) (type : String) (value : Option Node) :
    GlobalPair u₁ u₂ n (writeVariable u₁ n (Ident.spell n.name) type value)
      (writeVariable u₂ n (Ident.spell n.name) type value) := by
  have hm : u₁.mentions n.name = u₂.mentions n.name := by simp only [SourceUnit.mentions, hs]
  unfold writeVariable
  rw [hm]
  exact .ite (.silent (silent_note _)) <| .ite (.silent silent_pure) <|
    .ite (.silent silent_pure) (.written type (variableText_rests n _ type value))

theorem writeGlobal_pair (hs : u₁.source = u₂.source) (type : Spelling.VType) :
    GlobalPair u₁ u₂ n (writeGlobal u₁ n (Ident.spell n.name) type)
      (writeGlobal u₂ n (Ident.spell n.name) type) := by
  unfold writeGlobal
  split
  · exact .ite (.written type.name (constantText_rests ..)) (writeVariable_pair hs type.name _)
  · exact writeVariable_pair hs type.name _

/-- Two units that agree on which declarations give way agree on which globals they write. -/
theorem judgedGlobal_pair (hs : u₁.source = u₂.source) (hg : givesWay u₁ n = givesWay u₂ n)
    (known : Symbols) : GlobalPair u₁ u₂ n (judgedGlobal u₁ n known) (judgedGlobal u₂ n known) := by
  unfold judgedGlobal
  rw [hg]
  refine .ite (.silent silent_pure) ?_
  split
  · exact .silent (silent_fail _)
  · exact .silent (silent_note _)
  · exact .ite (.silent silent_pure) <| .ite (.silent (silent_fail _)) (writeGlobal_pair hs _)

theorem Silent.rests {s : Script Unit} (h : Silent s) : Rests Command.Adds s := by
  refine ⟨fun desk _ _ => ?_, fun desk _ draft hp => ?_⟩
  · obtain ⟨same, notes⟩ := h desk
    refine ⟨by rw [same], fun c hc => ?_, fun level => levelAfter_notes level notes⟩
    obtain ⟨e, rfl⟩ := notes c hc
    trivial
  · obtain ⟨entries, he⟩ := run_notes (h desk).2
    rwa [he]

theorem globalDecl_rests (u : SourceUnit) (n : Node) : Rests (fun _ => True) (globalDecl u n) := by
  refine rests_symbols_bind fun known => ?_
  generalize hs : judgedGlobal u n known = s
  have pair : GlobalPair u u n s s := hs ▸ judgedGlobal_pair rfl rfl known
  cases pair with
  | silent h => exact h.rests.mono fun _ _ => trivial
  | written type h => exact recordGlobal_rests u n _ type h

end Variables

theorem topLevel_of_isBuiltin (next : Option Node) {n : Node} (h : n.info.isBuiltin = true) :
    ∃ text, ∀ u, topLevel u next n = Script.note text := by
  obtain ⟨info, filler, inner⟩ := n
  exact ⟨_, fun u => by rw [topLevel, if_pos h]⟩

theorem topLevel_global {u : SourceUnit} {next : Option Node} {n : Node}
    (hb : n.info.isBuiltin = false) (hk : n.kind = .varDecl) :
    topLevel u next n = globalDecl u n := by
  obtain ⟨info, filler, inner⟩ := n
  have hk : info.kind = .varDecl := hk
  simp [topLevel, hk, show info.isBuiltin = false from hb]

theorem topLevel_rests_adds {u : SourceUnit} {next : Option Node} {n : Node}
    (hg : isGroup n.info = false) (hk : n.kind ≠ .varDecl) :
    Rests Command.Adds (topLevel u next n) := by
  obtain ⟨info, filler, inner⟩ := n
  rw [topLevel]
  split
  · exact rests_note _
  · split
    · exact aliasDecl_rests _
    · exact functionDecl_rests u _
    · exact recordDecl_rests next _
    · exact absurd ‹info.kind = .varDecl› hk
    · exact enumDecl_rests _ next
    iterate 5 exact rests_pure
    · simp_all [isGroup]
    · simp_all [isGroup]
    · split
      · exact rests_note _
      · exact rests_fail _

theorem topLevel_rests {u : SourceUnit} {next : Option Node} {n : Node}
    (hg : isGroup n.info = false) : Rests (fun _ => True) (topLevel u next n) := by
  rcases hb : n.info.isBuiltin with _ | _
  · by_cases hk : n.kind = .varDecl
    · rw [topLevel_global hb hk]
      exact globalDecl_rests u n
    · exact (topLevel_rests_adds hg hk).mono fun _ _ => trivial
  · obtain ⟨text, ht⟩ := topLevel_of_isBuiltin next hb
    rw [ht u]
    exact (rests_note text).mono fun _ _ => trivial

theorem visits_rest (u : SourceUnit) (decls : List Node) (k : Nat) :
    Rests (fun _ => True) (Script.each (Visit.script u) ((visits decls).take k)) :=
  rests_each fun _ hv =>
    topLevel_rests (not_isGroup_of_mem_visits decls (List.mem_of_mem_take hv))

/-- The parts of a tree are written within a frame, whatever they are and whatever the desk and the
draft are at the start. So the depth of switches is one more at the end of a switch than outside of
it, and after each declaration of a unit everything is at rest. -/
theorem every_part_keeps_the_frame :
    (∀ n : Node, Framed (emitStmt n) ∧ Framed (emitExpr n) ∧ Framed (block whole n) ∧
      (∀ children, Framed (statements whole children)) ∧ Framed (switchStatement whole n) ∧
      Framed (localVariables whole n) ∧ Framed (cxxExpression whole n)) ∧
    (∀ owner condition arms (desk : Desk),
      let inside := { desk with context := (Surroundings.switch owner).enter desk.context }
      (matchArms whole owner condition arms inside).desk.context.switchDepth =
        desk.context.switchDepth + 1) ∧
    ∀ (u : SourceUnit) (symbols : Symbols) (labels : Labels),
      writeUnit u { symbols } = firstVisits u symbols (visits u.root.inner).length ∧
      ∀ k, (firstVisits u symbols k).result = .ok () →
        (firstVisits u symbols k).desk.context = {} ∧
        (({ labels } : Draft).run (firstVisits u symbols k).commands).page.indent = 0 ∧
        (({ labels } : Draft).run (firstVisits u symbols k).commands).page.pending = "" := by
  refine ⟨fun n => ?_, fun owner condition arms desk => ?_,
    fun u symbols labels => ⟨?_, fun k hr => ?_⟩⟩
  · have here := whole_kept n
    have below : ∀ m, m.Below n → Related _ whole whole m := fun m _ => whole_kept m
    exact ⟨here.stmt.framed, here.expr.framed, (block_related congruence_kept here below).framed,
      fun children => (statements_related congruence_kept fun m _ => whole_kept m).framed,
      (switchStatement_related congruence_kept below).framed,
      (localVariables_related congruence_kept below).framed,
      (cxxExpression_related congruence_kept below).framed⟩
  · intro inside
    rw [(matchArms_kept owner condition arms inside).1]
    rfl
  · exact writeUnit_eq_firstVisits u symbols
  · obtain ⟨level, pending⟩ := visits_rest u u.root.inner k
    obtain ⟨same, _, stays⟩ := level { symbols } rfl hr
    exact ⟨same, by rw [indent_run]; exact stays 0, pending _ hr _ rfl⟩

/-- The main function with a switch in it that has one arm, which is left at once. -/
def switchingMain : Node :=
  let one : Node := ⟨{ kind := .integerLiteral, value := some (.text "1") }, [], []⟩
  let leave : Node := ⟨{ kind := .breakStmt }, [], []⟩
  let arm : Node := ⟨{ kind := .caseStmt }, [], [⟨{ kind := .constantExpr }, [], [one]⟩, leave]⟩
  let switch : Node := ⟨{ kind := .switchStmt }, [], [one, ⟨{ kind := .compoundStmt }, [], [arm]⟩]⟩
  ⟨{ kind := .functionDecl, name := "main" }, [], [⟨{ kind := .compoundStmt }, [], [switch]⟩]⟩

theorem switchingMain_keeps_the_frame :
    let u : SourceUnit := ⟨⟨{}, [], [switchingMain]⟩, none, false⟩
    (writeUnit u {}).result = .ok () ∧ (writeUnit u {}).desk.context = {} ∧
      (({} : Draft).run (writeUnit u {}).commands).page.indent = 0 ∧
      (({} : Draft).run (writeUnit u {}).commands).page.pending = "" := by
  intro u
  have walked : (writeUnit u {}).result = .ok () := rfl
  obtain ⟨same, rest⟩ := every_part_keeps_the_frame.2.2 u {} {}
  rw [same] at walked ⊢
  exact ⟨walked, rest 1 walked⟩

end VFromC.Decl
