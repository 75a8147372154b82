import VFromC.Proofs.Decl.Globals
import VFromC.Proofs.Decl.Names
import VFromC.Proofs.Emit.Places
/-!
The trees that are written for a declaration stand outside of every switch and index, so that all
references to members of enumerations are written as their places in these trees say.
-/
namespace VFromC.Decl
open VFromC.Syntax VFromC.Output VFromC.Emit

/-- A tree that is written for a declaration. -/
inductive Tree where
  | statement (n : Node)
  | value (n : Node)

def Tree.script (em : Emitter) : Tree → Script Unit
  | .statement n => em.stmt n
  | .value n => em.value n

def Tree.root : Tree → Node
  | .statement n | .value n => n

/-- The trees of a declaration: the statements of a function, the initializer of a global and the
values of the members of an enumeration. -/
def trees (n : Node) : List Tree :=
  match n.kind with
  | .functionDecl =>
      match (n.childrenOf .compoundStmt).head? with
      | some body => body.inner.map .statement
      | none => []
  | .varDecl => (initializer? n).toList.map .value
  | .enumDecl =>
      (n.childrenOf .enumConstantDecl).flatMap fun member =>
        (memberValue? member).toList.map fun value => .value (value.firstChild?.getD value)
  | _ => []

/-- Each reference to a member of an enumeration is written as part of one of the trees, and as its
place in that tree says. -/
def Covered (known : Symbols) (ts : List Tree) (commands : List Command) : Prop :=
  ∀ before ref text after, commands = before ++ .refer ref text :: after →
    ref.kind = .enumConstantDecl →
    ∃ tree ∈ ts, WrittenAt known {} tree.root ref text ∧
      ∃ desk front back, desk.symbols.members = known.members ∧
        (tree.script (wholeAt {}) desk).commands = front ++ .refer ref text :: back ∧
        front <:+ before ∧ back <+: after

section Covered

variable {known known' : Symbols} {ts : List Tree} {c₁ c₂ : List Command}

theorem Covered.congr (h : Covered known ts c₁) (same : known.members = known'.members) :
    Covered known' ts c₁ := by
  intro before ref text after split isMember
  obtain ⟨tree, ht, written, desk, front, back, symbols, rest⟩ :=
    h before ref text after split isMember
  exact ⟨tree, ht, written.congr same, desk, front, back, symbols.trans same, rest⟩

theorem covered_of_plain (h : ∀ c ∈ c₁, IsPlain c) : Covered known ts c₁ := by
  intro before ref text after split _
  have plain := h (.refer ref text) (by rw [split]; simp)
  exact plain.elim

theorem Covered.append (h₁ : Covered known ts c₁) (h₂ : Covered known ts c₂) :
    Covered known ts (c₁ ++ c₂) := by
  intro before ref text after split isMember
  rcases List.append_eq_append_iff.mp split with ⟨more, hb, hc⟩ | ⟨more, hc, ha⟩
  · -- The reference stands in the second part.
    obtain ⟨tree, ht, written, desk, front, back, same, here, hf, hk⟩ :=
      h₂ more ref text after hc isMember
    exact ⟨tree, ht, written, desk, front, back, same, here, hf.trans ⟨c₁, hb.symm⟩, hk⟩
  · cases more with
    | nil =>
        obtain ⟨tree, ht, written, desk, front, back, same, here, hf, hk⟩ :=
          h₂ [] ref text after ha.symm isMember
        exact ⟨tree, ht, written, desk, front, back, same, here, hf.trans (List.nil_suffix ..), hk⟩
    | cons c more =>
        obtain ⟨rfl, rfl⟩ := List.cons.inj ha
        obtain ⟨tree, ht, written, desk, front, back, same, here, hf, hk⟩ :=
          h₁ before ref text more hc isMember
        exact ⟨tree, ht, written, desk, front, back, same, here, hf,
          hk.trans (List.prefix_append ..)⟩

end Covered

/-- The desk is outside of every switch and index. -/
abbrev Outside (desk : Desk) : Prop := desk.IsAt desk.symbols {}

variable {α β : Type} {ts : List Tree}

/-- Outside of every switch and index, all references to members of the script are part of the
trees; it stays outside and keeps the members that are known. -/
def Covers (ts : List Tree) (s : Script α) : Prop :=
  ∀ desk, Outside desk → Covered desk.symbols ts (s desk).commands ∧
    Outside (s desk).desk ∧ (s desk).desk.symbols.members = desk.symbols.members

/-- The same of a script that may enter members. -/
def CoversOnce (ts : List Tree) (s : Script α) : Prop :=
  ∀ desk, Outside desk → Covered desk.symbols ts (s desk).commands

theorem Covers.once {s : Script α} (h : Covers ts s) : CoversOnce ts s :=
  fun desk outside => (h desk outside).1

theorem CoversOnce.ite {c : Prop} [Decidable c] {s t : Script α} (hs : CoversOnce ts s)
    (ht : CoversOnce ts t) : CoversOnce ts (if c then s else t) := by
  split
  · exact hs
  · exact ht

theorem coversOnce_of_plain {s : Script α} (h : ∀ desk, Says IsPlain (s desk)) : CoversOnce ts s :=
  fun desk _ => covered_of_plain (h desk)

theorem covers_quiet {s : Script α} (hc : ∀ desk, (s desk).commands = [])
    (ho : ∀ desk, Outside desk → Outside (s desk).desk)
    (hm : ∀ desk, (s desk).desk.symbols.members = desk.symbols.members) : Covers ts s := by
  intro desk outside
  rw [hc]
  exact ⟨covered_of_plain (fun _ h => absurd h List.not_mem_nil), ho desk outside, hm desk⟩

theorem covers_command {c : Command} (h : IsPlain c) : Covers ts (Script.command c) :=
  fun _ outside => ⟨covered_of_plain (List.forall_mem_singleton.mpr h), outside, rfl⟩

theorem covers_declare (role : Role) (n : Node) (name : String) :
    Covers ts (Script.declare role n name) := by
  intro desk outside
  refine ⟨?_, outside, rfl⟩
  intro before ref text after split
  cases before with
  | nil => cases split
  | cons c before => simp [Script.declare, Script.command] at split

theorem covers_register {f : Symbols → Symbols} (h : ∀ t, (f t).members = t.members) :
    Covers ts (Script.register f) :=
  covers_quiet (fun _ => rfl) (fun _ outside => ⟨rfl, outside.inIndex, outside.switchEnum⟩)
    fun desk => h desk.symbols

theorem Covers.bind {s : Script α} {f : α → Script β} (hs : Covers ts s)
    (hf : ∀ a, Covers ts (f a)) : Covers ts (s >>= f) := by
  intro desk outside
  obtain ⟨covered, outside', same⟩ := hs desk outside
  rcases hr : s desk with ⟨commands, next, e | a⟩
  · rw [hr] at covered outside' same
    rw [Script.bind_apply_error hr]
    exact ⟨covered, outside', same⟩
  · rw [hr] at covered outside' same
    obtain ⟨covered', outside'', same'⟩ := hf a next outside'
    rw [Script.bind_apply_ok hr]
    exact ⟨covered.append (covered'.congr same), outside'', same'.trans same⟩

theorem covers_congruence (ts : List Tree) :
    Congruence fun {α : Type} (s _ : Script α) => Covers ts s where
  pure _ := covers_quiet (fun _ => rfl) (fun _ => id) fun _ => rfl
  fail _ := covers_quiet (fun _ => rfl) (fun _ => id) fun _ => rfl
  bind := Covers.bind
  text {c} h := by
    refine covers_command ?_
    cases c with
    | write | line | endLine | note => trivial
    | _ => cases h
  symbols := covers_quiet (fun _ => rfl) (fun _ => id) fun _ => rfl
  context _ h := (covers_quiet (fun _ => rfl) (fun _ => id) fun _ => rfl).bind h
  indented h :=
    (covers_command (c := .deeper) trivial).bind fun _ => h.bind fun _ =>
      covers_command (c := .shallower) trivial
  within {_ _ _ around} keeps h := by
    intro desk outside
    have entered : Outside { desk with context := around.enter desk.context } :=
      ⟨rfl, (keeps.enter_eq _).2.trans outside.inIndex,
        (keeps.enter_eq _).1.trans outside.switchEnum⟩
    obtain ⟨covered, outside', same⟩ := h _ entered
    exact ⟨covered, ⟨rfl, (keeps.leave_eq ..).2.trans outside'.inIndex,
      (keeps.leave_eq ..).1.trans outside'.switchEnum⟩, same⟩

/-- A tree is written as its place says: it stands outside of every switch and index. -/
theorem covers_tree {tree : Tree} (h : tree ∈ ts) : Covers ts (tree.script whole) := by
  intro desk outside
  have same : SameAt desk.symbols {} (tree.script whole) (tree.script (wholeAt {})) := by
    cases tree with
    | statement n => exact (whole_sameAt desk.symbols {} n).stmt
    | value n => exact (whole_sameAt desk.symbols {} n).value (sameAt_congruence desk.symbols {})
  have writes : WritesAt desk.symbols {} tree.root (tree.script (wholeAt {})) := by
    have hR := writesAt_congruence desk.symbols {} tree.root
    cases tree with
    | statement n => exact (wholeAt_writesAt desk.symbols {} n).stmt
    | value n => exact (wholeAt_writesAt desk.symbols {} n).value hR
  obtain ⟨commands, result, here, there⟩ := same desk outside none false
  obtain ⟨_, written⟩ := writes (desk.placed none false) rfl
  rw [there] at written
  rw [here]
  refine ⟨?_, outside, rfl⟩
  rintro before ref text after rfl isMember
  refine ⟨tree, h, written ref text (by simp) isMember, desk.placed none false, before, after,
    rfl, ?_, List.suffix_refl _, List.prefix_refl _⟩
  rw [there]

section Combined

variable {s : Script Unit}

theorem covers_pure (a : α) : Covers ts (pure a) := (covers_congruence ts).pure a

theorem covers_write (text : String) : Covers ts (Script.write text) := covers_command trivial

theorem covers_line (text : String) : Covers ts (Script.line text) := covers_command trivial

theorem covers_head (h : Heading) : Covers ts (Script.head h) := covers_command trivial

theorem covers_endLine : Covers ts Script.endLine := covers_command trivial

theorem covers_note (text : String) : Covers ts (Script.note text) := covers_command trivial

theorem covers_symbols : Covers ts Script.symbols := (covers_congruence ts).symbols

theorem Covers.indented (h : Covers ts s) : Covers ts (Script.indented s) :=
  (covers_congruence ts).indented (t := s) h

theorem Covers.when (c : Prop) [Decidable c] (h : Covers ts s) : Covers ts (Script.when c s) :=
  (covers_congruence ts).when c (t := s) h

theorem covers_forSome {f : α → Script Unit} {o : Option α}
    (h : ∀ a, o = some a → Covers ts (f a)) : Covers ts (Script.forSome f o) :=
  (covers_congruence ts).forSome (g := f) h

theorem covers_each {f : α → Script Unit} {l : List α} (h : ∀ a ∈ l, Covers ts (f a)) :
    Covers ts (Script.each f l) :=
  (covers_congruence ts).each (g := f) h

end Combined

section Enums

theorem covers_writeMemberValue {value : Node} (h : .value (value.firstChild?.getD value) ∈ ts) :
    Covers ts (writeMemberValue value) :=
  (covers_congruence ts).within keepsPlace_member (t := writeExpr (value.firstChild?.getD value))
    (covers_tree h)

/-- The values of the members are among the trees. -/
def HasValues (ts : List Tree) (members : List Node) : Prop :=
  ∀ member ∈ members, ∀ value, memberValue? member = some value →
    .value (value.firstChild?.getD value) ∈ ts

theorem covers_enumMember {member : Node}
    (h : ∀ value, memberValue? member = some value → .value (value.firstChild?.getD value) ∈ ts) :
    Covers ts (enumMember member) := by
  refine (covers_write _).bind fun _ => (covers_forSome fun value hv => ?_).bind fun _ =>
    covers_endLine
  exact (covers_write _).bind fun _ => covers_writeMemberValue (h value hv)

theorem covers_constValue {previous : Option String} {member : Node}
    (h : ∀ value, memberValue? member = some value → .value (value.firstChild?.getD value) ∈ ts) :
    Covers ts (constValue previous member) := by
  unfold constValue
  split
  · exact covers_writeMemberValue (h _ ‹_›)
  · exact covers_write _
  · exact covers_write _

theorem covers_constMembers {previous : Option String} {members : List Node}
    (h : HasValues ts members) : Covers ts (constMembers previous members) := by
  induction members generalizing previous with
  | nil => exact covers_pure ()
  | cons member rest ih =>
      obtain ⟨first, others⟩ := List.forall_mem_cons.mp h
      have known : Covers ts (Script.register (·.addConst member.name)) :=
        covers_register fun _ => rfl
      refine known.bind fun _ => (covers_declare _ _ _).bind fun _ => (covers_write _).bind fun _ => ?_
      exact (covers_constValue first).bind fun _ => covers_endLine.bind fun _ => ih others

/-- An enumeration with a name is entered into the symbols when all of it is written. -/
theorem coversOnce_namedEnum {n : Node} {name : String}
    (h : HasValues ts (n.childrenOf .enumConstantDecl)) : CoversOnce ts (namedEnum n name) := by
  have members : Covers ts (Script.each enumMember (n.childrenOf .enumConstantDecl)) :=
    covers_each fun member hm => covers_enumMember (h member hm)
  let text : Script Unit := do
    Script.head (.enum name)
    Script.indented (Script.each enumMember (n.childrenOf .enumConstantDecl))
    Script.line "\x7d"
    Script.line ""
    Script.note s!"enum {name} with {(memberNames n).length} members"
  have written : Covers ts text :=
    (covers_head _).bind fun _ => members.indented.bind fun _ => (covers_line _).bind fun _ =>
      (covers_line _).bind fun _ => covers_note _
  have entered :
      namedEnum n name = (do text; Script.register (·.addEnum name (memberNames n))) := by
    simp only [namedEnum, text, bind_assoc]
  intro desk outside
  have same : (namedEnum n name desk).commands = (text desk).commands := by
    rw [entered, Script.bind_apply]
    split
    · exact List.append_nil _
    · rfl
  rw [same]
  exact written.once desk outside

theorem coversOnce_enumDecl {n : Node} {next : Option Node}
    (h : HasValues ts (n.childrenOf .enumConstantDecl)) : CoversOnce ts (enumDecl n next) := by
  intro desk outside
  have judged : enumDecl n next desk = (if tagName n next = "boolean" then pure ()
      else if tagName n next = "" then constEnum n
      else if desk.symbols.hasEnum (Ident.capitalized (tagName n next)) then pure ()
      else namedEnum n (Ident.capitalized (tagName n next)) : Script Unit) desk := rfl
  rw [judged]
  refine CoversOnce.ite (covers_pure ()).once (.ite ?_ (.ite (covers_pure ()).once ?_)) desk outside
  · exact Covers.once <| (covers_line _).bind fun _ =>
      (covers_constMembers h).indented.bind fun _ => (covers_line _).bind fun _ => covers_line _
  · exact coversOnce_namedEnum h

end Enums

section Functions

theorem covers_setContext {f : Context → Context}
    (h : ∀ c, (f c).inIndex = c.inIndex ∧ (f c).switchEnum = c.switchEnum) :
    Covers ts (Script.setContext f) :=
  covers_quiet (fun _ => rfl) (fun desk outside => ⟨rfl, (h desk.context).1.trans outside.inIndex,
    (h desk.context).2.trans outside.switchEnum⟩) fun _ => rfl

theorem covers_functionSignature (n : Node) : Covers ts (functionSignature n) :=
  functionSignature_related (covers_congruence ts) (covers_declare _ _ _)
    fun _ _ => covers_declare _ _ _

theorem covers_functionBody {n body : Node} (h : ∀ m ∈ body.inner, .statement m ∈ ts) :
    Covers ts (functionBody n body) := by
  have enter : Covers ts (Script.setContext fun c => { c with inMain := n.name = "main" }) :=
    covers_setContext fun _ => ⟨rfl, rfl⟩
  have leave : Covers ts (Script.setContext fun c => { c with inMain := false }) :=
    covers_setContext fun _ => ⟨rfl, rfl⟩
  refine enter.bind fun _ => (covers_functionSignature n).bind fun _ => ?_
  refine (covers_line _).bind fun _ => ?_
  refine Covers.bind ?_ fun _ => (covers_line _).bind fun _ => leave
  rw [statements_emitter_eq]
  exact (covers_each fun m hm => covers_tree (h m hm)).indented

theorem covers_functionDecl {u : SourceUnit} {n : Node}
    (h : ∀ body, (n.childrenOf .compoundStmt).head? = some body →
      ∀ m ∈ body.inner, .statement m ∈ ts) : Covers ts (functionDecl u n) := by
  have leave : Covers ts (Script.setContext fun c => { c with inMain := false }) :=
    covers_setContext fun _ => ⟨rfl, rfl⟩
  refine leave.bind fun _ => covers_symbols.bind fun known => ?_
  split
  · exact covers_pure ()
  · split
    · exact covers_note _
    · split
      · exact covers_pure ()
      · have entered : Covers ts (Script.register (·.addFunction n.name)) :=
          covers_register fun _ => rfl
        refine ((covers_line _).when _).bind fun _ => ((covers_line _).when _).bind fun _ => ?_
        refine entered.bind fun _ => Covers.bind ?_ fun _ => covers_line _
        cases hb : (n.childrenOf .compoundStmt).head? with
        | none => exact (covers_functionSignature n).bind fun _ => covers_line _
        | some body => exact covers_functionBody (h body hb)

end Functions

section Variables

variable {n : Node}

theorem covers_constantText {name : String} {value : Node} (h : .value value ∈ ts) :
    Covers ts (constantText n name value) := by
  have known : Covers ts (Script.register (·.addConst name)) := covers_register fun _ => rfl
  have inner : Covers ts (do
      Script.declare .global n name
      Script.write " = "
      writeExpr value
      Script.endLine) :=
    (covers_declare _ _ _).bind fun _ => (covers_write _).bind fun _ =>
      (covers_tree h).bind fun _ => covers_endLine
  exact known.bind fun _ => (covers_line _).bind fun _ => (covers_line _).bind fun _ =>
    inner.indented.bind fun _ => covers_line _

theorem covers_givenText {type : String} {value : Node} (h : .value value ∈ ts) :
    Covers ts (givenText n type value) := by
  unfold givenText
  split
  · exact covers_tree h
  · exact (covers_write _).bind fun _ => (covers_tree h).bind fun _ => covers_write _

theorem covers_variableText {name type : String} {value : Option Node}
    (h : ∀ v, value = some v → .value v ∈ ts) : Covers ts (variableText n name type value) := by
  refine (covers_line _).bind fun _ => (covers_write _).bind fun _ =>
    (covers_declare _ _ _).bind fun _ => ?_
  cases value with
  | none => exact covers_line _
  | some value =>
      exact (covers_write _).bind fun _ => (covers_givenText (h value rfl)).bind fun _ =>
        covers_line _

theorem covers_definition (h : ∀ value, initializer? n = some value → .value value ∈ ts) :
    Covers ts (definition n) := by
  unfold definition
  cases hi : initializer? n with
  | none => exact covers_variableText nofun
  | some value =>
      dsimp only
      split
      · exact covers_constantText (h value hi)
      · refine covers_variableText ?_
        rintro _ ⟨⟩
        exact h value hi

theorem covers_globalDecl {u : SourceUnit}
    (h : ∀ value, initializer? n = some value → .value value ∈ ts) :
    Covers ts (globalDecl u n) := by
  refine covers_symbols.bind fun known => ?_
  cases hw : isWritten u known n with
  | true =>
      have entered : Covers ts (Script.register
          (·.addGlobal ⟨Ident.spell n.name, Spelling.typeOf n.spelling, n.isExtern⟩)) :=
        covers_register fun _ => rfl
      have take : Covers ts (Script.command (.take (Ident.spell n.name))) := covers_command trivial
      have mark : Covers ts (Script.command .mark) := covers_command trivial
      rw [judgedGlobal_of_isWritten hw]
      exact mark.bind fun _ => (covers_definition h).bind fun _ => (covers_line _).bind fun _ =>
        (take.when _).bind fun _ => entered
  | false =>
      intro desk outside
      obtain ⟨same, notes⟩ := silent_of_not_isWritten hw desk
      rw [same]
      refine ⟨covered_of_plain fun c hc => ?_, outside, rfl⟩
      obtain ⟨e, rfl⟩ := notes c hc
      trivial

end Variables

theorem topLevel_coversOnce {u : SourceUnit} {next : Option Node} {n : Node}
    (hg : isGroup n.info = false) : CoversOnce (trees n) (topLevel u next n) := by
  obtain ⟨info, filler, inner⟩ := n
  have plain := says_congruence (P := IsPlain) fun _ h => isPlain_of_isLayout h
  have heads (h : Heading) (desk : Desk) : Says IsPlain (Script.head h desk) :=
    says_command trivial desk
  rw [topLevel]
  split
  · exact (covers_note _).once
  · split
    · exact coversOnce_of_plain (aliasDecl_related plain heads says_register _)
    · rename_i hk
      refine (covers_functionDecl fun body hb m hm => ?_).once
      simpa [trees, Node.kind, hk, hb] using hm
    · exact coversOnce_of_plain (recordDecl_related plain heads says_register next _)
    · rename_i hk
      refine (covers_globalDecl fun value hv => ?_).once
      simp [trees, Node.kind, hk, hv]
    · rename_i hk
      refine coversOnce_enumDecl fun member hm value hv => ?_
      simp only [trees, Node.kind, hk]
      exact List.mem_flatMap.mpr ⟨member, hm, by simp [hv]⟩
    iterate 5 exact (covers_pure ()).once
    · simp_all [isGroup]
    · simp_all [isGroup]
    · split
      · exact (covers_note _).once
      · exact coversOnce_of_plain fun _ => says_quiet rfl

theorem passage_covered {u : SourceUnit} {symbols : Symbols} {k : Nat} {v : Visit}
    (hv : (visits u.root.inner)[k]? = some v) (done : (firstVisits u symbols k).result = .ok ()) :
    Covered (firstVisits u symbols k).desk.symbols (trees v.decl) (passage u symbols k) := by
  have group : isGroup v.decl.info = false :=
    not_isGroup_of_mem_visits u.root.inner (List.mem_of_getElem? hv)
  have context : (firstVisits u symbols k).desk.context = {} :=
    ((visits_rest u u.root.inner k).1 { symbols } rfl done).1
  have outside : Outside (firstVisits u symbols k).desk :=
    ⟨rfl, by rw [context], by rw [context]; rfl⟩
  rw [passage_eq hv]
  exact topLevel_coversOnce group _ outside

/-- Wherever a tree stands, it is written as its place says, whatever the context of the desk says
about the place. In a unit, each reference to a member of an enumeration stands in one of the trees
of a declaration and is written as its place there says, with the members known at that moment. -/
theorem members_written_by_place :
    (∀ (known : Symbols) (p : Setting) (n : Node),
      SameAt known p (emitExpr n) ((wholeAt p).expr n) ∧
        SameAt known p (emitStmt n) ((wholeAt p).stmt n)) ∧
    ∀ (u : SourceUnit) (symbols : Symbols) (k : Nat) (v : Visit),
      (visits u.root.inner)[k]? = some v → (firstVisits u symbols k).result = .ok () →
      Covered (firstVisits u symbols k).desk.symbols (trees v.decl) (passage u symbols k) := by
  refine ⟨fun known p n => ?_, fun u symbols k v hv done => passage_covered hv done⟩
  obtain ⟨expr, stmt⟩ := whole_sameAt known p n
  exact ⟨expr, stmt⟩

/-- A function that switches over a color and looks it up in a table on the way. -/
def coloring : Node :=
  let red : Node :=
    ⟨{ kind := .declRefExpr, reference := some ⟨"0x1", .enumConstantDecl, "RED"⟩ }, [], []⟩
  let named (name spelling : String) : Node :=
    ⟨{ kind := .declRefExpr, type := { spelling }, reference := some ⟨"0x2", .varDecl, name⟩ },
      [], []⟩
  let looked : Node := ⟨{ kind := .arraySubscriptExpr }, [], [named "table" "int [4]", red]⟩
  let arm : Node := ⟨{ kind := .caseStmt }, [], [red, looked]⟩
  let switch : Node := ⟨{ kind := .switchStmt }, [],
    [named "color" "enum Color", ⟨{ kind := .compoundStmt }, [], [arm, red]⟩]⟩
  ⟨{ kind := .functionDecl, name := "paint" }, [],
    [⟨{ kind := .compoundStmt }, [], [switch, red]⟩]⟩

theorem coloring_written_by_place :
    let u : SourceUnit := ⟨⟨{}, [], [coloring]⟩, none, false⟩
    let symbols : Symbols := { enums := ["Color"], members := [("Color", ["red"])] }
    let red : Reference := ⟨"0x1", .enumConstantDecl, "RED"⟩
    Covered symbols (trees coloring) (passage u symbols 0) ∧
      (passage u symbols 0).filterMap (fun c => match c with
        | .refer ref text => if ref = red then some text else none
        | _ => none) = [".red", "int(Color.red)", ".red", "Color.red"] := by
  intro u symbols red
  exact ⟨members_written_by_place.2 u symbols 0 ⟨coloring, none⟩ rfl rfl, by decide +kernel⟩

end VFromC.Decl
