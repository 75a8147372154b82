import VFromC.Proofs.Decl.Globals
import VFromC.Proofs.Emit.Braces
/-!
Declarations close the braces they open.
-/
namespace VFromC.Decl
open VFromC.Syntax VFromC.Output VFromC.Emit VFromC.Text

variable {n : Node} {i : Nat}

theorem opens_append {s t : String} (hs : braces s = []) (ht : braces t = ['\x7b']) :
    braces (s ++ t) = ['\x7b'] := by
  rw [braces_append, hs, ht]
  rfl

theorem writeExpr_nests (free : n.BraceFree) : Nests i i (writeExpr n) :=
  ((emitter_even n.height free).expr i).bind fun _ => nests_pure ()

section Types

/-- What follows a declaration has no brace in its name. -/
def NextFree (next : Option Node) : Prop := ∀ later, next = some later → braces later.name = []

theorem nextFree_none : NextFree none := nofun

theorem braces_tagName {next : Option Node} (free : n.HasNoBrace) (hn : NextFree next) :
    braces (tagName n next) = [] := by
  unfold tagName
  split
  · split
    · exact hn _ rfl
    · exact free.name
  · exact free.name

theorem fieldLines_free (free : n.BraceFree) : ∀ text ∈ fieldLines n, braces text = [] := by
  intro text ht
  obtain ⟨field, hf, rfl⟩ := List.mem_map.mp ht
  have hfield := (free.below (Node.below_of_mem_childrenOf (List.mem_filter.mp hf).1)).1
  exact free_append (free_append (Ident.braces_spell hfield.name) rfl)
    (Spelling.braces_typeOf hfield.spelling)

theorem recordText_nests (free : n.BraceFree) {name : String} (hn : braces name = []) :
    Nests i i (recordText n name) := by
  have keyword : braces (if n.info.tagUsed = "union" then "union " else "struct ") = [] := by
    split <;> rfl
  refine (nests_head (leads_opens ?_)).bind fun _ => Nests.bind (Nests.indented
    (nests_each fun text ht => nests_plainLine (fieldLines_free free text ht))) fun _ =>
      (nests_closes rfl).bind fun _ => nests_plainLine rfl
  simp only [Heading.text, decide_eq_true_eq]
  exact opens_append (free_append keyword (Ident.braces_typeName hn)) rfl

mutual

theorem recordDecl_nests {next : Option Node} (hn : NextFree next) :
    ∀ {n : Node}, n.BraceFree → Nests i i (recordDecl next n)
  | ⟨info, filler, inner⟩, free => by
      have enters : Nests i i (Script.register (·.addType (tagName ⟨info, filler, inner⟩ next))) :=
        nests_register fun _ h => h
      rw [recordDecl]
      refine nests_symbols_bind fun known _ => ?_
      dsimp only
      split
      · exact nests_pure ()
      · split
        · exact nests_note _
        · split
          · exact nests_pure ()
          · exact enters.bind fun _ => (nests_note _).bind fun _ =>
              (nestedRecords_nests fun m hm => free.inner hm).bind fun _ =>
                recordText_nests free (braces_tagName free.1 hn)

theorem nestedRecords_nests :
    ∀ {inner : List Node}, (∀ m ∈ inner, m.BraceFree) → Nests i i (nestedRecords inner)
  | [], _ => nests_pure ()
  | n :: rest, free => by
      obtain ⟨first, others⟩ := List.forall_mem_cons.mp free
      rw [nestedRecords]
      exact (recordDecl_nests nextFree_none first).when.bind fun _ => nestedRecords_nests others

end

theorem aliasDecl_nests (free : n.HasNoBrace) : Nests i i (aliasDecl n) := by
  have enters : Nests i i (Script.register (·.addType n.name)) := nests_register fun _ h => h
  have text : braces (Heading.aliased n.name (Spelling.typeOf n.spelling)).text = [] :=
    free_append (free_append (free_append rfl (Ident.braces_typeName free.name)) rfl)
      (Spelling.braces_typeOf free.spelling)
  refine nests_symbols_bind fun known _ => ?_
  dsimp only
  iterate 4
    split
    · exact nests_pure ()
  exact enters.bind fun _ => (nests_head (leads_plain text)).bind fun _ =>
    nests_plainLine rfl

end Types

section Enums

variable {member : Node}

theorem writeMemberValue_nests {value : Node} (free : value.BraceFree) :
    Nests i i (writeMemberValue value) := by
  refine Nests.within (writeExpr_nests ?_) _
  rcases hc : value.firstChild? with _ | child
  · exact free
  · exact free.below (Node.below_of_firstChild? hc)

theorem memberValue_free {value : Node} (free : member.BraceFree)
    (h : memberValue? member = some value) : value.BraceFree :=
  free.below (Node.below_of_mem_childrenOf (List.mem_of_mem_head? h))

theorem enumMember_nests (free : member.BraceFree) : Nests i i (enumMember member) := by
  refine (nests_plain (Ident.braces_spellMember free.1.name)).bind fun _ =>
    (nests_forSome fun value hv => ?_).bind fun _ => nests_endLine
  exact (nests_plain rfl).bind fun _ =>
    writeMemberValue_nests (memberValue_free free hv)

theorem constMembers_nests {previous : Option String} {members : List Node}
    (hp : ∀ before, previous = some before → braces before = [])
    (free : ∀ member ∈ members, member.BraceFree) : Nests i i (constMembers previous members) := by
  induction members generalizing previous with
  | nil => exact nests_pure ()
  | cons member rest ih =>
      obtain ⟨first, others⟩ := List.forall_mem_cons.mp free
      have name : braces (Ident.spellMember member.name) = [] :=
        Ident.braces_spellMember first.1.name
      have value : Nests i i (constValue previous member) := by
        unfold constValue
        split
        · exact writeMemberValue_nests (memberValue_free first ‹_›)
        · exact nests_plain (free_append (hp _ rfl) rfl)
        · exact nests_plain rfl
      have enters : Nests i i (Script.register (·.addConst member.name)) :=
        nests_register fun _ h => h
      refine enters.bind fun _ => (nests_declare name).bind fun _ => (nests_plain rfl).bind fun _ => ?_
      refine value.bind fun _ => nests_endLine.bind fun _ => ih ?_ others
      rintro _ ⟨⟩
      exact name

theorem namedEnum_nests (free : n.BraceFree) {name : String} (hn : braces name = []) :
    Nests i i (namedEnum n name) := by
  have enters : Nests i i (Script.register (·.addEnum name (memberNames n))) := by
    refine nests_register fun t ht entry he => ?_
    rcases mem_putEntry he with rfl | he
    · exact hn
    · exact ht entry he
  have head : braces (Heading.enum name).text = ['\x7b'] := opens_append (free_append rfl hn) rfl
  refine (nests_head (leads_opens head)).bind fun _ => Nests.bind (Nests.indented
    (nests_each fun member hm => ?_)) fun _ => (nests_closes rfl).bind fun _ =>
      (nests_plainLine rfl).bind fun _ => (nests_note _).bind fun _ => enters
  exact enumMember_nests (free.below (Node.below_of_mem_childrenOf hm))

theorem enumDecl_nests {next : Option Node} (free : n.BraceFree) (hn : NextFree next) :
    Nests i i (enumDecl n next) := by
  refine nests_symbols_bind fun known _ => ?_
  dsimp only
  split
  · exact nests_pure ()
  · split
    · refine (nests_plainLine rfl).bind fun _ => Nests.bind (Nests.indented
        (constMembers_nests nofun fun member hm => ?_)) fun _ =>
          (nests_plainLine rfl).bind fun _ => nests_plainLine rfl
      exact free.below (Node.below_of_mem_childrenOf hm)
    · split
      · exact nests_pure ()
      · exact namedEnum_nests free (Ident.braces_capitalized (braces_tagName free.1 hn))

end Enums

section Functions

theorem parameter_nests {param : Node × Nat} (free : param.1.HasNoBrace) :
    Nests i i (parameter param) := by
  have name : braces (parameterName param.1 param.2) = [] := by
    unfold parameterName
    split
    · exact free_append rfl (braces_ofList (Node.toDigits_free param.2))
    · exact Ident.braces_spell (Ident.braces_lowered free.name)
  exact (nests_declare name).bind fun _ =>
    nests_plain (free_append rfl (Spelling.braces_typeOf free.spelling))

theorem braces_resultType {spelling : String} (h : braces spelling = []) :
    braces (resultType spelling) = [] := by
  have text : braces (resultText spelling) = [] := by
    rw [resultText, braces_trimmed]
    exact braces_ofList ((braces_eq_nil.mp h).sublist (List.takeWhile_sublist _))
  unfold resultType
  split
  · rfl
  · exact Spelling.braces_typeOf text

theorem functionSignature_nests (free : n.BraceFree) : Nests i i (functionSignature n) := by
  have name : braces (functionName n.name) = [] :=
    Ident.braces_spell (Ident.braces_lowered free.1.name)
  refine (nests_plain rfl).bind fun _ => (nests_declare name).bind fun _ => ?_
  split
  · exact nests_plain rfl
  · refine (nests_plain rfl).bind fun _ => Nests.bind (j := i) ?_ fun _ =>
      nests_plain ?_
    · refine nests_separated (nests_plain rfl) fun param hp => parameter_nests ?_
      have child : param.1 ∈ n.childrenOf .parmVarDecl :=
        (List.mem_zipIdx' hp).2 ▸ List.getElem_mem _
      exact (free.below (Node.below_of_mem_childrenOf child)).1
    · refine braces_ofList (BraceFree.sublist ?_ (dropEndWhile_sublist _ _))
      exact braces_eq_nil.mp (free_append rfl (braces_resultType free.1.spelling))

theorem functionOutline_nests (free : n.BraceFree) {body : Option Node}
    (hb : ∀ b, body = some b → b.BraceFree) : Nests i i (functionOutline n body) := by
  cases body with
  | none => exact (functionSignature_nests free).bind fun _ => nests_plainLine rfl
  | some body =>
      refine (nests_setContext _).bind fun _ => (functionSignature_nests free).bind fun _ =>
        (nests_opens rfl).bind fun _ => Nests.bind (statements_nests fun m hm => ?_)
          fun _ => (nests_closes rfl).bind fun _ => nests_setContext _
      exact emitter_even _ ((hb body rfl).inner hm)

theorem functionDecl_nests (u : SourceUnit) (free : n.BraceFree) :
    Nests i i (functionDecl u n) := by
  have name : braces s!"[c:\"{n.name}\"]" = [] := free_append (free_append rfl free.1.name) rfl
  have enters : Nests i i (Script.register (·.addFunction n.name)) := nests_register fun _ h => h
  refine (nests_setContext _).bind fun _ => nests_symbols_bind fun known _ => ?_
  split
  · exact nests_pure ()
  · split
    · exact nests_note _
    · split
      · exact nests_pure ()
      · refine (nests_plainLine rfl).when.bind fun _ =>
          (nests_plainLine name).when.bind fun _ => enters.bind fun _ =>
            (functionOutline_nests free fun body hb => ?_).bind fun _ =>
              nests_plainLine rfl
        exact free.below (Node.below_of_mem_childrenOf (List.mem_of_mem_head? hb))

end Functions

section Variables

theorem givenText_nests {type : String} (ht : braces type = []) {value : Node}
    (free : value.BraceFree) : Nests i i (givenText n type value) := by
  unfold givenText
  split
  · exact writeExpr_nests free
  · exact (nests_plain (free_append ht rfl)).bind fun _ =>
      (writeExpr_nests free).bind fun _ => nests_plain rfl

theorem constantText_nests {name : String} (hn : braces name = []) {value : Node}
    (free : value.BraceFree) : Nests i i (constantText n name value) := by
  have enters : Nests i i (Script.register (·.addConst name)) := nests_register fun _ h => h
  have head : braces s!"[export:\"{name}\"]" = [] := free_append (free_append rfl hn) rfl
  refine enters.bind fun _ => (nests_plainLine head).bind fun _ =>
    (nests_plainLine rfl).bind fun _ => Nests.bind (Nests.indented ?_) fun _ =>
      nests_plainLine rfl
  exact (nests_declare hn).bind fun _ => (nests_plain rfl).bind fun _ =>
    (writeExpr_nests free).bind fun _ => nests_endLine

theorem variableText_nests {name type : String} (hn : braces name = []) (ht : braces type = [])
    {value : Option Node} (free : ∀ v, value = some v → v.BraceFree) :
    Nests i i (variableText n name type value) := by
  have storage : braces (storageMark n value) = [] := by
    unfold storageMark
    split <;> rfl
  refine (nests_plainLine storage).bind fun _ => (nests_plain rfl).bind
    fun _ => (nests_declare hn).bind fun _ => ?_
  cases value with
  | none => exact nests_plainLine (free_append (free_append rfl ht) rfl)
  | some value =>
      exact (nests_plain rfl).bind fun _ => (givenText_nests ht (free value rfl)).bind
        fun _ => nests_plainLine rfl

theorem definition_nests (free : n.BraceFree) : Nests i i (definition n) := by
  have name : braces (Ident.spell n.name) = [] := Ident.braces_spell free.1.name
  have type : braces (Spelling.typeOf n.spelling) = [] := Spelling.braces_typeOf free.1.spelling
  unfold definition
  cases hi : initializer? n with
  | none => exact variableText_nests name type nofun
  | some value =>
      have hvalue : value.BraceFree := free.inner (List.mem_of_find?_eq_some hi)
      dsimp only
      split
      · exact constantText_nests name hvalue
      · refine variableText_nests name type ?_
        rintro _ ⟨⟩
        exact hvalue

end Variables

/-- Globals apart, which can be taken from the page again. -/
theorem topLevel_nests {u : SourceUnit} {next : Option Node} (free : n.BraceFree)
    (hn : NextFree next) (hg : isGroup n.info = false) (hk : n.kind ≠ .varDecl) :
    Nests i i (topLevel u next n) := by
  obtain ⟨info, filler, inner⟩ := n
  rw [topLevel]
  split
  · exact nests_note _
  · split
    · exact aliasDecl_nests free.1
    · exact functionDecl_nests u free
    · exact recordDecl_nests hn free
    · exact absurd ‹info.kind = .varDecl› hk
    · exact enumDecl_nests free hn
    iterate 5 exact nests_pure ()
    · simp_all [isGroup]
    · simp_all [isGroup]
    · split
      · exact nests_note _
      · exact nests_fail _

end VFromC.Decl
