import VFromC.Proofs.Decl.Changes
import VFromC.Proofs.Decl.Passages
import VFromC.Proofs.Emit.Names
/-!
How names are written in each passage of a unit, and when a name becomes known.
-/
namespace VFromC.Decl
open VFromC.Syntax VFromC.Output VFromC.Emit

variable {α β : Type} {P : Command → Prop}

/-- The commands satisfy `P`. -/
def Says (P : Command → Prop) (w : Written α) : Prop := ∀ c ∈ w.commands, P c

theorem says_quiet {w : Written α} (h : w.commands = []) : Says P w := by
  intro c hc
  rw [h] at hc
  cases hc

theorem says_command {c : Command} (h : P c) (desk : Desk) : Says P (Script.command c desk) :=
  List.forall_mem_singleton.mpr h

theorem says_symbols (desk : Desk) : Says P (Script.symbols desk) := says_quiet rfl

theorem says_register (f : Symbols → Symbols) (desk : Desk) : Says P (Script.register f desk) :=
  says_quiet rfl

theorem says_setContext (f : Context → Context) (desk : Desk) :
    Says P (Script.setContext f desk) :=
  says_quiet rfl

theorem Says.bind {s : Script α} {f : α → Script β} {desk : Desk} (first : Says P (s desk))
    (second : ∀ a, (s desk).result = .ok a → Says P (f a (s desk).desk)) :
    Says P ((s >>= f) desk) := by
  rcases hr : s desk with ⟨commands, next, e | a⟩
  · rw [hr] at first
    rw [Script.bind_apply_error hr]
    exact first
  · rw [hr] at first second
    rw [Script.bind_apply_ok hr]
    exact List.forall_mem_append.mpr ⟨first, second a rfl⟩

theorem Says.bind_of_kept {s : Script α} {f : α → Script β} {desk : Desk} (hs : Kept s)
    (first : Says P (s desk)) (second : ∀ a, Says P (f a desk)) : Says P ((s >>= f) desk) := by
  refine first.bind fun a _ => ?_
  rw [(hs desk).1]
  exact second a

/-- No name is declared or referred to. -/
def IsPlain : Command → Prop
  | .declare .. | .refer .. => False
  | _ => True

/-- Texts and the indentation of texts. -/
def IsLayout : Command → Prop
  | .deeper | .shallower => True
  | c => IsText c

theorem isPlain_of_isLayout {c : Command} (h : IsLayout c) : IsPlain c := by
  cases c with
  | declare | refer => exact h
  | _ => trivial

theorem says_congruence (hP : ∀ c, IsLayout c → P c) :
    Congruence fun {α : Type} (s _ : Script α) => ∀ desk, Says P (s desk) where
  pure _ _ := says_quiet rfl
  fail _ _ := says_quiet rfl
  bind hs hf desk := (hs desk).bind fun a _ => hf a _
  text {c} h := by
    refine says_command (hP c ?_)
    cases c with
    | write | line | endLine | note => trivial
    | _ => cases h
  symbols _ := says_quiet rfl
  context _ h desk := (says_quiet rfl : Says P (Script.context desk)).bind fun c _ => h c _
  indented h desk :=
    (says_command (hP .deeper trivial) desk).bind fun _ _ => (h _).bind fun _ _ =>
      says_command (hP .shallower trivial) _
  within {_ _ _ around} _ h desk := h { desk with context := around.enter desk.context }

/-- The constant of a visit that a command declares. -/
def Visit.constant? (v : Visit) : Command → Option String
  | .declare .constant what _ => some what.name
  | .declare .global _ s => if isConstant v.decl then some s else none
  | _ => none

/-- The constants of a visit that some of its commands declare. -/
def Visit.constantsIn (v : Visit) (commands : List Command) : List String :=
  commands.filterMap v.constant?

/-- How a visit writes a name when it starts with some symbols and has declared some constants.
Globals are declared with their letters kept and all else small, except for members of
enumerations. What is known is referred to with its letters kept, the first constants of the visit
itself included. -/
def Visit.Spells (v : Visit) (symbols : Symbols) (own : List String) : Command → Prop
  | .declare role what s =>
      (role = .global → v.decl.kind = .varDecl ∧ what = v.decl.identity) ∧
        (what.kind ≠ .enumConstantDecl → what.name ≠ "" →
          s = spelled (role = .global) what.name)
  | .refer what s =>
      what.kind ≠ .enumConstantDecl → own <+: constantNames v ∧
        s = spelled (symbols.knows what.name || own.contains what.name) what.name
  | _ => True

/-- Each command is written by the constants that are declared before it. -/
def Visit.SpellsFrom (v : Visit) (symbols : Symbols) : List String → List Command → Prop
  | _, [] => True
  | own, c :: rest =>
      v.Spells symbols own c ∧ v.SpellsFrom symbols (own ++ (v.constant? c).toList) rest

/-- The command is written by some constants and declares no other one. -/
def Visit.SpellsBy (v : Visit) (symbols : Symbols) (own : List String) (c : Command) : Prop :=
  v.Spells symbols own c ∧ v.constant? c = none

variable {v : Visit} {symbols : Symbols} {own : List String} {desk : Desk}

theorem spellsBy_of_isPlain (c : Command) (h : IsPlain c) : v.SpellsBy symbols own c := by
  cases c with
  | declare | refer => exact h.elim
  | _ => exact ⟨trivial, rfl⟩

theorem spellsBy_of_isLayout (c : Command) (h : IsLayout c) : v.SpellsBy symbols own c :=
  spellsBy_of_isPlain c (isPlain_of_isLayout h)

theorem spellsBy_of_isSpelled {c : Command} {now : Symbols} (h : IsSpelled now c)
    (first : own <+: constantNames v)
    (hk : ∀ name, now.knows name = (symbols.knows name || own.contains name)) :
    v.SpellsBy symbols own c := by
  cases c with
  | declare role what s =>
      obtain ⟨rfl, rfl⟩ := h
      exact ⟨⟨fun global => (by cases global), fun _ _ => rfl⟩, rfl⟩
  | refer what s =>
      refine ⟨fun other => ⟨first, ?_⟩, rfl⟩
      rw [h other, hk]
  | _ => exact ⟨trivial, rfl⟩

theorem says_plain {c : Command} (h : IsPlain c) (desk : Desk) :
    Says (v.SpellsBy symbols own) (Script.command c desk) :=
  says_command (spellsBy_of_isPlain c h) desk

/-- Where the symbols know just what is known besides the constants, names are written by them. -/
theorem says_of_spells {s : Script α} (h : Spells s) (first : own <+: constantNames v)
    (hk : ∀ name, desk.symbols.knows name = (symbols.knows name || own.contains name)) :
    Says (v.SpellsBy symbols own) (s desk) :=
  fun c hc => spellsBy_of_isSpelled ((h desk).2 c hc) first hk

/-- Where nothing has been entered, names are written by the symbols of the start. -/
theorem says_of_spells_alone {s : Script α} (h : Spells s)
    (hk : ∀ name, desk.symbols.knows name = symbols.knows name) :
    Says (v.SpellsBy symbols []) (s desk) :=
  says_of_spells h List.nil_prefix fun name => (hk name).trans (Bool.or_false _).symm

section Positions

theorem spellsFrom_append {c₁ c₂ : List Command} :
    v.SpellsFrom symbols own (c₁ ++ c₂) ↔
      v.SpellsFrom symbols own c₁ ∧ v.SpellsFrom symbols (own ++ v.constantsIn c₁) c₂ := by
  induction c₁ generalizing own with
  | nil => simp [Visit.SpellsFrom, Visit.constantsIn]
  | cons c rest ih =>
      have names : own ++ v.constantsIn (c :: rest) =
          own ++ (v.constant? c).toList ++ v.constantsIn rest := by
        rw [Visit.constantsIn, Visit.constantsIn, List.filterMap_cons]
        cases v.constant? c <;> simp
      rw [List.cons_append, Visit.SpellsFrom, Visit.SpellsFrom, ih, names, and_assoc]

theorem spells_of_spellsFrom {commands before after : List Command} {c : Command}
    (h : v.SpellsFrom symbols own commands) (split : commands = before ++ c :: after) :
    v.Spells symbols (own ++ v.constantsIn before) c := by
  rw [split, spellsFrom_append] at h
  exact h.2.1

theorem constantsIn_of_spellsBy {w : Written α} (h : Says (v.SpellsBy symbols own) w) :
    v.constantsIn w.commands = [] :=
  List.filterMap_eq_nil_iff.mpr fun c hc => (h c hc).2

theorem spellsFrom_of_spellsBy {w : Written α} (h : Says (v.SpellsBy symbols own) w) :
    v.SpellsFrom symbols own w.commands := by
  obtain ⟨commands, next, result⟩ := w
  have each : ∀ c ∈ commands, v.SpellsBy symbols own c := h
  clear h
  induction commands with
  | nil => trivial
  | cons c rest ih =>
      obtain ⟨⟨first, none⟩, others⟩ := List.forall_mem_cons.mp each
      refine ⟨first, ?_⟩
      rw [none, Option.toList_none, List.append_nil]
      exact ih others

theorem spellsFrom_bind {s : Script α} {f : α → Script β}
    (first : v.SpellsFrom symbols own (s desk).commands)
    (second : ∀ a, (s desk).result = .ok a →
      v.SpellsFrom symbols (own ++ v.constantsIn (s desk).commands)
        (f a (s desk).desk).commands) :
    v.SpellsFrom symbols own ((s >>= f) desk).commands := by
  rcases hr : s desk with ⟨commands, next, e | a⟩
  · rw [hr] at first
    rw [Script.bind_apply_error hr]
    exact first
  · rw [hr] at first second
    rw [Script.bind_apply_ok hr]
    exact spellsFrom_append.mpr ⟨first, second a rfl⟩

theorem Says.then {s : Script α} {f : α → Script β}
    (first : Says (v.SpellsBy symbols own) (s desk))
    (second : ∀ a, (s desk).result = .ok a →
      v.SpellsFrom symbols own (f a (s desk).desk).commands) :
    v.SpellsFrom symbols own ((s >>= f) desk).commands := by
  refine spellsFrom_bind (spellsFrom_of_spellsBy first) fun a ha => ?_
  rw [constantsIn_of_spellsBy first, List.append_nil]
  exact second a ha

theorem spellsFrom_indented {s : Script Unit} (h : v.SpellsFrom symbols own (s desk).commands) :
    v.SpellsFrom symbols own (Script.indented s desk).commands := by
  refine (says_plain (c := .deeper) (by trivial) desk).then fun _ _ => ?_
  exact spellsFrom_bind h fun _ _ =>
    spellsFrom_of_spellsBy (says_plain (c := .shallower) (by trivial) _)

end Positions

theorem whole_spells (n : Node) :
    Related (fun {α : Type} (s _ : Script α) => Spells s) whole whole n :=
  whole_related_of_emitter fun depth => emitter_spells depth n

section Functions

theorem says_functionSignature (desk : Desk) :
    Says (v.SpellsBy symbols own) (functionSignature v.decl desk) := by
  refine functionSignature_related (says_congruence spellsBy_of_isLayout) ?_ ?_ desk
  · exact fun desk =>
      says_command ⟨⟨fun global => (by cases global), fun _ _ => rfl⟩, rfl⟩ desk
  · refine fun param position desk =>
      says_command ⟨⟨fun global => (by cases global), ?_⟩, rfl⟩ desk
    exact fun _ named => if_neg named

theorem says_functionInside (body : Node)
    (hk : ∀ name, desk.symbols.knows name = symbols.knows name) :
    Says (v.SpellsBy symbols []) (functionInside v.decl body desk) := by
  have middle : Spells (statements (emitter body.height) body.inner) :=
    statements_related congruence_spells fun m _ => emitter_spells _ m
  refine (says_functionSignature desk).bind_of_kept (functionSignature_kept _) fun _ => ?_
  refine (says_plain (by trivial) desk).bind_of_kept (kept_line _) fun _ => ?_
  exact (says_of_spells_alone middle hk).bind fun _ _ => says_plain (by trivial) _

theorem says_functionOutline (body : Option Node)
    (hk : ∀ name, desk.symbols.knows name = symbols.knows name) :
    Says (v.SpellsBy symbols []) (functionOutline v.decl body desk) := by
  cases body with
  | none =>
      refine (says_functionSignature desk).bind_of_kept (functionSignature_kept _) fun _ => ?_
      exact says_plain (by trivial) desk
  | some body =>
      rw [functionOutline, functionBody_eq]
      refine (says_setContext _ desk).bind fun _ _ => Says.bind ?_ fun _ _ => says_setContext _ _
      exact says_functionInside body hk

theorem says_when_line {condition : Prop} [Decidable condition] (text : String) (desk : Desk) :
    Says (v.SpellsBy symbols own) (Script.when condition (Script.line text) desk) :=
  holds_ite (Says _) (fun _ => says_plain (by trivial) desk) fun _ => says_quiet rfl

theorem says_functionDecl (u : SourceUnit) (desk : Desk) :
    Says (v.SpellsBy desk.symbols []) (functionDecl u v.decl desk) := by
  refine (says_setContext _ desk).bind fun _ _ => (says_symbols _).bind fun _ _ => ?_
  refine holds_ite (Says _) (fun _ => says_quiet rfl) fun _ => ?_
  refine holds_ite (Says _) (fun _ => says_plain (by trivial) _) fun _ => ?_
  refine holds_ite (Says _) (fun _ => says_quiet rfl) fun _ => ?_
  refine (says_when_line _ _).bind_of_kept (kept_when (kept_line _)) fun _ => ?_
  refine (says_when_line _ _).bind_of_kept (kept_when (kept_line _)) fun _ => ?_
  refine (says_register _ _).bind fun _ _ => ?_
  exact (says_functionOutline _ fun _ => rfl).bind fun _ _ => says_plain (by trivial) _

end Functions

section Enums

theorem knows_addConst (t : Symbols) (added name : String) :
    (t.addConst added).knows name = (t.knows name || name == added) := by
  have same : (t.addConst added).hasConst name = (t.hasConst name || name == added) := by
    rw [Bool.eq_iff_iff]
    simp [Symbols.hasConst, Symbols.addConst, mem_insertName, or_comm]
  rw [Symbols.knows, same, Symbols.knows]
  change (t.hasConst name || name == added || t.hasGlobal (Ident.spell name)) = _
  rw [Bool.or_right_comm]

theorem knows_entered {t : Symbols}
    (known : ∀ name, t.knows name = (symbols.knows name || own.contains name))
    (added name : String) :
    (t.addConst added).knows name = (symbols.knows name || (own ++ [added]).contains name) := by
  rw [knows_addConst, known]
  simp [Bool.or_assoc, beq_eq_decide]

/-- Each constant is entered before its value is written. -/
theorem spellsFrom_constMembers {members : List Node}
    (kinds : ∀ member ∈ members, member.kind = .enumConstantDecl)
    (known : ∀ name, desk.symbols.knows name = (symbols.knows name || own.contains name))
    (first : own ++ members.map Node.name <+: constantNames v) (previous : Option String) :
    v.SpellsFrom symbols own (constMembers previous members desk).commands := by
  induction members generalizing own previous desk with
  | nil => trivial
  | cons member rest ih =>
      obtain ⟨isMember, others⟩ := List.forall_mem_cons.mp kinds
      have known' := knows_entered known member.name
      have first' : (own ++ [member.name]) ++ rest.map Node.name <+: constantNames v := by
        simpa using first
      have value : Spells (constValue previous member) :=
        constValue_related congruence_spells (fun m _ => whole_spells m) previous
      have declared : v.SpellsFrom symbols own
          [.declare .constant member.identity (Ident.spellMember member.name)] :=
        ⟨⟨fun global => (by cases global), fun other => absurd isMember other⟩, trivial⟩
      refine (says_register _ desk).then fun _ _ => ?_
      refine spellsFrom_bind declared fun _ _ => ?_
      refine (says_plain (by trivial) _).then fun _ _ => ?_
      refine Says.then (says_of_spells value ((List.prefix_append _ _).trans first') known')
        fun _ _ => ?_
      refine (says_plain (by trivial) _).then fun _ _ => ?_
      refine ih others (fun name => ?_) first' _
      change (constValue previous member _).desk.symbols.knows name = _
      rw [((constValue_kept previous member) _).1]
      exact known' name

theorem spellsFrom_enumDecl (hk : v.decl.kind = .enumDecl) (desk : Desk) :
    v.SpellsFrom desk.symbols [] (enumDecl v.decl v.next desk).commands := by
  refine (says_symbols desk).then fun _ _ => ?_
  refine holds_ite (fun w => v.SpellsFrom desk.symbols [] w.commands) (fun _ => trivial) fun _ => ?_
  refine holds_ite (fun w => v.SpellsFrom desk.symbols [] w.commands)
    (fun unnamed => ?_) fun _ => ?_
  · refine (says_plain (by trivial) desk).then fun _ _ => ?_
    have kinds : ∀ member ∈ v.decl.childrenOf .enumConstantDecl,
        member.kind = .enumConstantDecl :=
      fun member hm => of_decide_eq_true (List.mem_filter.mp hm).2
    have members : v.SpellsFrom desk.symbols []
        (constMembers none (v.decl.childrenOf .enumConstantDecl) desk).commands := by
      refine spellsFrom_constMembers kinds (fun _ => (Bool.or_false _).symm) ?_ none
      rw [constantNames_of_enum hk unnamed]
      exact List.prefix_rfl
    refine spellsFrom_bind (spellsFrom_indented members) fun _ _ => ?_
    exact (says_plain (by trivial) _).then fun _ _ =>
      spellsFrom_of_spellsBy (says_plain (by trivial) _)
  · have members : Spells (Script.indented
        (Script.each enumMember (v.decl.childrenOf .enumConstantDecl))) :=
      congruence_spells.indented (t := pure ()) <| congruence_spells.each (g := enumMember)
        fun member _ => enumMember_related congruence_spells fun m _ => whole_spells m
    refine spellsFrom_of_spellsBy (holds_ite (Says _) (fun _ => says_quiet rfl) fun _ => ?_)
    refine (says_plain (by trivial) desk).bind_of_kept (kept_head _) fun _ => ?_
    refine (says_of_spells_alone members fun _ => rfl).bind fun _ _ => ?_
    refine (says_plain (by trivial) _).bind_of_kept (kept_line _) fun _ => ?_
    refine (says_plain (by trivial) _).bind_of_kept (kept_line _) fun _ => ?_
    exact (says_plain (by trivial) _).bind_of_kept (kept_note _) fun _ => says_register _ _

end Enums

section Globals

theorem says_variableText (hk : v.decl.kind = .varDecl) (varies : isConstant v.decl = false)
    (type : String) (value : Option Node) :
    Says (v.SpellsBy desk.symbols [])
      (variableText v.decl (Ident.spell v.decl.name) type value desk) := by
  have declared : v.SpellsBy desk.symbols []
      (.declare .global v.decl.identity (Ident.spell v.decl.name)) := by
    refine ⟨⟨fun _ => ⟨hk, rfl⟩, fun _ _ => rfl⟩, ?_⟩
    rw [Visit.constant?, varies]
    rfl
  refine (says_plain (by trivial) desk).bind_of_kept (kept_line _) fun _ => ?_
  refine (says_plain (by trivial) desk).bind_of_kept (kept_write _) fun _ => ?_
  refine Says.bind_of_kept (kept_declare _ _ _) (says_command declared desk) fun _ => ?_
  cases value with
  | none => exact says_plain (by trivial) desk
  | some value =>
      have given : Spells (givenText v.decl type value) :=
        givenText_related congruence_spells v.decl type (whole_spells value)
      refine (says_plain (by trivial) desk).bind_of_kept (kept_write _) fun _ => ?_
      exact (says_of_spells_alone given fun _ => rfl).bind fun _ _ => says_plain (by trivial) _

/-- The constant is known already in its own value. -/
theorem spellsFrom_constantText (hk : v.decl.kind = .varDecl) (constant : isConstant v.decl = true)
    (value : Node) :
    v.SpellsFrom desk.symbols []
      (constantText v.decl (Ident.spell v.decl.name) value desk).commands := by
  have before (name : String) :
      desk.symbols.knows name = (desk.symbols.knows name || [].contains name) :=
    (Bool.or_false _).symm
  have known := knows_entered before (Ident.spell v.decl.name)
  have first : [Ident.spell v.decl.name] <+: constantNames v := by
    rw [constantNames_of_global hk, if_pos constant]
  have given : Spells (writeExpr value) := writeExpr_related congruence_spells (whole_spells value)
  have declared : v.SpellsFrom desk.symbols []
      [.declare .global v.decl.identity (Ident.spell v.decl.name)] :=
    ⟨⟨fun _ => ⟨hk, rfl⟩, fun _ _ => rfl⟩, trivial⟩
  have entered : v.constantsIn [.declare .global v.decl.identity (Ident.spell v.decl.name)] =
      [Ident.spell v.decl.name] := by
    simp [Visit.constantsIn, Visit.constant?, constant]
  rw [constantText_apply]
  refine (says_plain (by trivial) _).then fun _ _ => (says_plain (by trivial) _).then fun _ _ => ?_
  refine spellsFrom_bind (spellsFrom_indented ?_) fun _ _ =>
    spellsFrom_of_spellsBy (says_plain (by trivial) _)
  refine spellsFrom_bind declared fun _ _ => ?_
  change v.SpellsFrom desk.symbols ([] ++ v.constantsIn
    [.declare .global v.decl.identity (Ident.spell v.decl.name)]) _
  rw [entered]
  refine (says_plain (by trivial) _).then fun _ _ => ?_
  exact Says.then (says_of_spells given first known) fun _ _ =>
    spellsFrom_of_spellsBy (says_plain (by trivial) _)

theorem spellsFrom_definition (hk : v.decl.kind = .varDecl) (desk : Desk) :
    v.SpellsFrom desk.symbols [] (definition v.decl desk).commands := by
  unfold definition
  cases hi : initializer? v.decl with
  | none =>
      have varies : isConstant v.decl = false := by simp [isConstant, hi]
      exact spellsFrom_of_spellsBy (says_variableText hk varies _ none)
  | some value =>
      refine holds_ite (fun w => v.SpellsFrom desk.symbols [] w.commands) ?_ ?_
      · exact fun constant => spellsFrom_constantText hk constant value
      · exact fun varies => spellsFrom_of_spellsBy
          (says_variableText hk (Bool.not_eq_true _ ▸ varies) _ (some value))

theorem spellsFrom_globalDecl (u : SourceUnit) (hk : v.decl.kind = .varDecl) (desk : Desk) :
    v.SpellsFrom desk.symbols [] (globalDecl u v.decl desk).commands := by
  change v.SpellsFrom desk.symbols [] (judgedGlobal u v.decl desk.symbols desk).commands
  cases hw : isWritten u desk.symbols v.decl with
  | false =>
      refine spellsFrom_of_spellsBy fun c hc => ?_
      obtain ⟨e, rfl⟩ := ((silent_of_not_isWritten hw) desk).2 c hc
      exact spellsBy_of_isPlain _ trivial
  | true =>
      rw [judgedGlobal_of_isWritten hw]
      refine (says_plain (c := .mark) (by trivial) desk).then fun _ _ => ?_
      refine spellsFrom_bind (spellsFrom_definition hk desk) fun _ _ => ?_
      refine spellsFrom_of_spellsBy
        ((says_plain (by trivial) _).bind_of_kept (kept_line _) fun _ => ?_)
      refine Says.bind ?_ fun _ _ => says_register _ _
      exact holds_ite (Says _) (fun _ => says_plain (by trivial) _) fun _ => says_quiet rfl

end Globals

/-- Wherever the script starts, it writes names as the visit does. -/
def Visit.SpelledBy (v : Visit) (s : Script Unit) : Prop :=
  ∀ desk, v.SpellsFrom desk.symbols [] (s desk).commands

/-- Each visit writes names by the symbols it starts with and the constants it has declared. -/
theorem visit_spelled (u : SourceUnit) (hg : isGroup v.decl.info = false) :
    v.SpelledBy (v.script u) := by
  have plain (symbols : Symbols) : Congruence fun {α : Type} (s _ : Script α) =>
      ∀ desk, Says (v.SpellsBy symbols []) (s desk) :=
    says_congruence spellsBy_of_isLayout
  have heads {symbols : Symbols} (h : Heading) (desk : Desk) :
      Says (v.SpellsBy symbols []) (Script.head h desk) :=
    says_plain (by trivial) desk
  obtain ⟨⟨info, filler, inner⟩, next⟩ := v
  rw [Visit.script, topLevel]
  split
  · exact fun desk => spellsFrom_of_spellsBy (says_plain (by trivial) desk)
  · split
    · exact fun desk => spellsFrom_of_spellsBy
        (aliasDecl_related (plain desk.symbols) heads says_register _ desk)
    · exact fun desk => spellsFrom_of_spellsBy (says_functionDecl u desk)
    · exact fun desk => spellsFrom_of_spellsBy
        (recordDecl_related (plain desk.symbols) heads says_register next _ desk)
    · exact spellsFrom_globalDecl u ‹_›
    · exact spellsFrom_enumDecl ‹_›
    iterate 5 exact fun _ => trivial
    · simp_all [isGroup]
    · simp_all [isGroup]
    · split
      · exact fun desk => spellsFrom_of_spellsBy (says_plain (by trivial) desk)
      · exact fun _ => trivial

end VFromC.Decl
