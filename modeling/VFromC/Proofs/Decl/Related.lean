import VFromC.Proofs.Decl.Visits
import VFromC.Proofs.Emit.Whole
/-!
Relations between scripts that the writing of declarations keeps.
-/
namespace VFromC.Decl
open VFromC.Syntax VFromC.Output VFromC.Emit

/-- A congruence that is also kept by what only declarations do. -/
structure DeclCongruence (R : ∀ {α : Type}, Script α → Script α → Prop) : Prop
    extends EmitterCongruence R where
  register (f : Symbols → Symbols) : R (Script.register f) (Script.register f)
  setContext (f : Context → Context) : R (Script.setContext f) (Script.setContext f)
  named (role : Role) (n : Node) (name : String) :
    R (Script.declare role n name) (Script.declare role n name)
  mark : R (Script.command .mark) (Script.command .mark)
  take (name : String) : R (Script.command (.take name)) (Script.command (.take name))

variable {R : ∀ {α : Type}, Script α → Script α → Prop} {n : Node}

/-- The script is related to itself. -/
abbrev Self (R : ∀ {α : Type}, Script α → Script α → Prop) (s : Script Unit) : Prop := R s s

theorem writeExpr_related (hR : EmitterCongruence R) (h : Related R whole whole n) :
    Self R (writeExpr n) :=
  hR.bind h.expr fun _ => hR.pure ()

section Types

/-- Whatever is entered into the symbols is related to itself. -/
abbrev Registers (R : ∀ {α : Type}, Script α → Script α → Prop) : Prop :=
  ∀ f : Symbols → Symbols, Self R (Script.register f)

/-- Headings are related to themselves. -/
abbrev Heads (R : ∀ {α : Type}, Script α → Script α → Prop) : Prop :=
  ∀ h : Heading, Self R (Script.head h)

theorem recordText_related (hR : Congruence R) (head : Heads R) (n : Node) (name : String) :
    Self R (recordText n name) :=
  hR.bind (head _) fun _ => hR.bind (hR.indented (hR.each fun _ _ => hR.line _)) fun _ =>
    hR.bind (hR.line _) fun _ => hR.line _

mutual

theorem recordDecl_related (hR : Congruence R) (head : Heads R) (register : Registers R)
    (next : Option Node) : ∀ n, Self R (recordDecl next n)
  | ⟨info, filler, inner⟩ => by
      rw [recordDecl]
      refine hR.bind hR.symbols fun known => ?_
      dsimp only
      split
      · exact hR.pure ()
      · split
        · exact hR.note _
        · split
          · exact hR.pure ()
          · exact hR.bind (register _) fun _ => hR.bind (hR.note _) fun _ =>
              hR.bind (nestedRecords_related hR head register inner) fun _ =>
                recordText_related hR head _ _

theorem nestedRecords_related (hR : Congruence R) (head : Heads R) (register : Registers R) :
    ∀ inner, Self R (nestedRecords inner)
  | [] => hR.pure ()
  | n :: rest => by
      rw [nestedRecords]
      exact hR.bind (hR.when _ (recordDecl_related hR head register none n)) fun _ =>
        nestedRecords_related hR head register rest

end

theorem aliasDecl_related (hR : Congruence R) (head : Heads R) (register : Registers R)
    (n : Node) : Self R (aliasDecl n) := by
  refine hR.bind hR.symbols fun known => ?_
  dsimp only
  iterate 4
    split
    · exact hR.pure ()
  exact hR.bind (register _) fun _ => hR.bind (head _) fun _ => hR.line _

end Types

section Enums

theorem keepsPlace_member : Surroundings.member.KeepsPlace where
  enter _ _ _ := rfl
  leave _ _ _ _ := rfl

theorem writeMemberValue_related (hR : EmitterCongruence R) {value : Node}
    (here : Related R whole whole value) (below : ∀ m, m.Below value → Related R whole whole m) :
    Self R (writeMemberValue value) := by
  refine hR.within keepsPlace_member ?_
  cases hc : value.firstChild? with
  | none => exact writeExpr_related hR here
  | some child => exact writeExpr_related hR (below child (Node.below_of_firstChild? hc))

theorem below_of_memberValue? {member value : Node} (h : memberValue? member = some value) :
    value.Below member :=
  Node.below_of_mem_childrenOf (List.mem_of_mem_head? (Option.mem_def.mpr h))

theorem memberValue_related (hR : EmitterCongruence R) {member value : Node}
    (below : ∀ m, m.Below member → Related R whole whole m) (h : memberValue? member = some value) :
    Self R (writeMemberValue value) :=
  have hv := below_of_memberValue? h
  writeMemberValue_related hR (below value hv) fun m hm => below m (hm.trans hv)

theorem enumMember_related (hR : EmitterCongruence R) {member : Node}
    (below : ∀ m, m.Below member → Related R whole whole m) : Self R (enumMember member) := by
  refine hR.bind (hR.write _) fun _ => hR.bind (hR.forSome fun value hv => ?_) fun _ => hR.endLine
  exact hR.bind (hR.write _) fun _ => memberValue_related hR below hv

theorem constValue_related (hR : EmitterCongruence R) {member : Node}
    (below : ∀ m, m.Below member → Related R whole whole m) (previous : Option String) :
    Self R (constValue previous member) := by
  unfold constValue
  split
  · exact memberValue_related hR below ‹_›
  · exact hR.write _
  · exact hR.write _

theorem constMembers_related (hR : DeclCongruence R) {members : List Node}
    (below : ∀ member ∈ members, ∀ m, m.Below member → Related R whole whole m)
    (previous : Option String) : Self R (constMembers previous members) := by
  induction members generalizing previous with
  | nil => exact hR.pure ()
  | cons member rest ih =>
      obtain ⟨first, others⟩ := List.forall_mem_cons.mp below
      exact hR.bind (hR.register _) fun _ => hR.bind (hR.named _ _ _) fun _ =>
        hR.bind (hR.write _) fun _ => hR.bind (constValue_related hR.toEmitterCongruence first previous) fun _ =>
          hR.bind hR.endLine fun _ => ih others _

theorem enumDecl_related (hR : DeclCongruence R) (head : Heads R) (next : Option Node)
    (below : ∀ m, m.Below n → Related R whole whole m) : Self R (enumDecl n next) := by
  have members : ∀ member ∈ n.childrenOf .enumConstantDecl, ∀ m, m.Below member →
      Related R whole whole m :=
    fun member hmem m hm => below m (hm.trans (Node.below_of_mem_childrenOf hmem))
  refine hR.bind hR.symbols fun known => ?_
  dsimp only
  split
  · exact hR.pure ()
  · split
    · exact hR.bind (hR.line _) fun _ =>
        hR.bind (hR.indented (constMembers_related hR members none)) fun _ =>
          hR.bind (hR.line _) fun _ => hR.line _
    · split
      · exact hR.pure ()
      · exact hR.bind (head _) fun _ =>
          hR.bind (hR.indented (hR.each fun member hm =>
            enumMember_related hR.toEmitterCongruence (members member hm)))
            fun _ => hR.bind (hR.line _) fun _ => hR.bind (hR.line _) fun _ =>
              hR.bind (hR.note _) fun _ => hR.register _

end Enums

theorem functionSignature_related (hR : Congruence R)
    (own : Self R (Script.declare .function n (functionName n.name)))
    (parameter : ∀ (param : Node) (position : Nat),
      Self R (Script.declare .parameter param (parameterName param position))) :
    Self R (functionSignature n) := by
  refine hR.bind (hR.write _) fun _ => hR.bind own fun _ => ?_
  split
  · exact hR.write _
  · refine hR.bind (hR.write _) fun _ => hR.bind ?_ fun _ => hR.write _
    exact hR.separated (hR.write _) fun _ _ => hR.bind (parameter ..) fun _ => hR.write _

theorem functionDecl_related (hR : DeclCongruence R) (u : SourceUnit)
    (below : ∀ m, m.Below n → Related R whole whole m) : Self R (functionDecl u n) := by
  have signature := functionSignature_related hR.toCongruence (hR.named .function n _)
    fun param _ => hR.named .parameter param _
  refine hR.bind (hR.setContext _) fun _ => hR.bind hR.symbols fun known => ?_
  split
  · exact hR.pure ()
  · split
    · exact hR.note _
    · split
      · exact hR.pure ()
      · refine hR.bind (hR.when _ (hR.line _)) fun _ => hR.bind (hR.when _ (hR.line _)) fun _ =>
          hR.bind (hR.register _) fun _ => hR.bind ?_ fun _ => hR.line _
        cases hb : (n.childrenOf .compoundStmt).head? with
        | none => exact hR.bind signature fun _ => hR.line _
        | some body =>
            have hbody : body.Below n :=
              Node.below_of_mem_childrenOf (List.mem_of_mem_head? (Option.mem_def.mpr hb))
            refine hR.bind (hR.setContext _) fun _ =>
              hR.bind signature fun _ => hR.bind (hR.line _) fun _ =>
              hR.bind ?_ fun _ => hR.bind (hR.line _) fun _ => hR.setContext _
            rw [statements_emitter_eq]
            exact statements_related hR.toEmitterCongruence fun m hm =>
              below m ((Node.below_of_mem_inner hm).trans hbody)

section Variables

theorem constantText_related (hR : DeclCongruence R) (n : Node) (name : String) {value : Node}
    (h : Related R whole whole value) : Self R (constantText n name value) :=
  hR.bind (hR.register _) fun _ => hR.bind (hR.line _) fun _ => hR.bind (hR.line _) fun _ =>
    hR.bind (hR.indented (hR.bind (hR.named ..) fun _ => hR.bind (hR.write _) fun _ =>
      hR.bind (writeExpr_related hR.toEmitterCongruence h) fun _ => hR.endLine)) fun _ => hR.line _

theorem givenText_related (hR : EmitterCongruence R) (n : Node) (type : String) {value : Node}
    (h : Related R whole whole value) : Self R (givenText n type value) := by
  unfold givenText
  split
  · exact writeExpr_related hR h
  · exact hR.bind (hR.write _) fun _ => hR.bind (writeExpr_related hR h) fun _ => hR.write _

theorem variableText_related (hR : DeclCongruence R) (n : Node) (name type : String)
    {value : Option Node} (h : ∀ v, value = some v → Related R whole whole v) :
    Self R (variableText n name type value) := by
  refine hR.bind (hR.line _) fun _ => hR.bind (hR.write _) fun _ =>
    hR.bind (hR.named ..) fun _ => ?_
  cases value with
  | none => exact hR.line _
  | some value =>
      exact hR.bind (hR.write _) fun _ =>
        hR.bind (givenText_related hR.toEmitterCongruence n type (h value rfl)) fun _ => hR.line _

theorem recordGlobal_related (hR : DeclCongruence R) (u : SourceUnit) (n : Node)
    (name type : String) {text : Script Unit} (h : Self R text) :
    Self R (recordGlobal u n name type text) :=
  hR.bind hR.mark fun _ => hR.bind h fun _ => hR.bind (hR.line _) fun _ =>
    hR.bind (hR.when _ (hR.take name)) fun _ => hR.register _

theorem writeVariable_related (hR : DeclCongruence R) (u : SourceUnit) (n : Node)
    (name type : String) {value : Option Node}
    (h : ∀ v, value = some v → Related R whole whole v) :
    Self R (writeVariable u n name type value) := by
  unfold writeVariable
  split
  · exact hR.note _
  · split
    · exact hR.pure ()
    · split
      · exact hR.pure ()
      · exact recordGlobal_related hR u n name type (variableText_related hR n name type h)

theorem isOfTree_of_checkGlobal {known : Symbols} {name type : String} {e : Fault}
    (h : known.checkGlobal name type = .error e) : IsOfTree e := by
  unfold Symbols.checkGlobal at h
  split at h
  · cases h
  · split at h
    · cases h; trivial
    · split at h <;> cases h

theorem globalDecl_related (hR : DeclCongruence R) (u : SourceUnit)
    (below : ∀ m, m.Below n → Related R whole whole m) : Self R (globalDecl u n) := by
  refine hR.bind hR.symbols fun known => ?_
  simp only [judgedGlobal]
  split
  · exact hR.pure ()
  · split
    · exact hR.fail (isOfTree_of_checkGlobal ‹_›)
    · exact hR.note _
    · split
      · exact hR.pure ()
      · split
        · exact hR.fail trivial
        · unfold writeGlobal
          split
          · rename_i value hv
            have hvalue := below value (Node.below_of_mem_inner (List.mem_of_find?_eq_some hv))
            split
            · exact recordGlobal_related hR u n _ _ (constantText_related hR n _ hvalue)
            · refine writeVariable_related hR u n _ _ ?_
              rintro v ⟨⟩
              exact hvalue
          · exact writeVariable_related hR u n _ _ nofun

end Variables

mutual

theorem topLevel_related (hR : DeclCongruence R) (head : Heads R) (u : SourceUnit)
    (next : Option Node) :
    ∀ n, (∀ m, m.Below n → Related R whole whole m) → Self R (topLevel u next n)
  | ⟨info, filler, inner⟩, below => by
      rw [topLevel]
      split
      · exact hR.note _
      · split
        · exact aliasDecl_related hR.toCongruence head hR.register _
        · exact functionDecl_related hR u below
        · exact recordDecl_related hR.toCongruence head hR.register next _
        · exact globalDecl_related hR u below
        · exact enumDecl_related hR head next below
        iterate 5 exact hR.pure ()
        iterate 2
          exact topLevels_related hR head u inner fun n hn m hm =>
            below m (hm.trans (Node.below_of_mem_inner hn))
        · split
          · exact hR.note _
          · exact hR.fail trivial

theorem topLevels_related (hR : DeclCongruence R) (head : Heads R) (u : SourceUnit) :
    ∀ decls, (∀ n ∈ decls, ∀ m, m.Below n → Related R whole whole m) → Self R (topLevels u decls)
  | [], _ => hR.pure ()
  | n :: rest, below => by
      obtain ⟨first, others⟩ := List.forall_mem_cons.mp below
      exact hR.bind (topLevel_related hR head u rest.head? n first) fun _ =>
        topLevels_related hR head u rest others

end

end VFromC.Decl
