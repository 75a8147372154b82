import VFromC.Proofs.Decl.Globals
import VFromC.Proofs.Decl.Modes
import VFromC.Proofs.Symbols.History
/-!
How the declarations of a unit change the symbols.
-/
namespace VFromC.Decl
open VFromC.Syntax VFromC.Output VFromC.Emit

def takenName? : Command → Option String
  | .take name => some name
  | _ => none

/-- The globals whose texts are moved away. -/
def takenNames (commands : List Command) : List String := commands.filterMap takenName?

variable {α β : Type} {shared : Bool} {P : Change → Prop} {symbols : Symbols}

/-- What is to hold of all that a script writes is shown for each branch. -/
theorem holds_ite (holds : Written α → Prop) {condition : Prop} [Decidable condition]
    {s t : Script α} {desk : Desk} (hs : condition → holds (s desk))
    (ht : ¬ condition → holds (t desk)) :
    holds ((if condition then s else t : Script α) desk) := by
  by_cases h : condition
  · rw [if_pos h]
    exact hs h
  · rw [if_neg h]
    exact ht h

/-- What has become of a script comes with permitted changes of the symbols that satisfy `P`. If
texts of globals are moved away, they are those of the globals that are entered, in order. -/
def Made (shared : Bool) (P : Change → Prop) (symbols : Symbols) (w : Written α) : Prop :=
  ∃ changes, (∀ c ∈ changes, P c) ∧ symbols.PermitsAll changes ∧
    w.desk.symbols = symbols.replay changes ∧
    takenNames w.commands = if shared then globalsEntered changes else []

theorem takenNames_of_adds {commands : List Command} (h : ∀ c ∈ commands, c.Adds) :
    takenNames commands = [] := by
  refine List.filterMap_eq_nil_iff.mpr fun c hc => ?_
  cases c with
  | take name => exact (h _ hc).elim
  | _ => rfl

theorem made_nothing {w : Written α} (same : w.desk.symbols = symbols)
    (adds : ∀ c ∈ w.commands, c.Adds) : Made shared P symbols w := by
  refine ⟨[], fun _ h => absurd h List.not_mem_nil, trivial, same, ?_⟩
  rw [takenNames_of_adds adds]
  cases shared <;> rfl

theorem made_of_kept {s : Script α} (hs : Kept s) (desk : Desk) :
    Made shared P desk.symbols (s desk) :=
  have ⟨same, adds, _⟩ := hs desk
  made_nothing (by rw [same]) adds

theorem made_of_silent {s : Script Unit} (hs : Silent s) (desk : Desk) :
    Made shared P desk.symbols (s desk) := by
  obtain ⟨same, notes⟩ := hs desk
  refine made_nothing (by rw [same]) fun c hc => ?_
  obtain ⟨e, rfl⟩ := notes c hc
  trivial

/-- A change that is no global is made by entering it. -/
theorem made_register {c : Change} {f : Symbols → Symbols} {desk : Desk} (hc : P c)
    (permitted : desk.symbols.Permits c) (hf : f desk.symbols = desk.symbols.change c)
    (other : c.global? = none) : Made shared P desk.symbols (Script.register f desk) := by
  refine ⟨[c], List.forall_mem_singleton.mpr hc, ⟨permitted, trivial⟩, hf, ?_⟩
  have none : globalsEntered [c] = [] := by
    rw [globalsEntered, List.filterMap_cons_none other, List.filterMap_nil]
  rw [none]
  cases shared <;> rfl

theorem Made.bind {s : Script α} {f : α → Script β} {desk : Desk}
    (first : Made shared P desk.symbols (s desk))
    (second : ∀ a, (s desk).result = .ok a →
      Made shared P (s desk).desk.symbols (f a (s desk).desk)) :
    Made shared P desk.symbols ((s >>= f) desk) := by
  rcases hr : s desk with ⟨commands, next, e | a⟩
  · rw [Script.bind_apply_error hr]
    rw [hr] at first
    exact first
  · rw [Script.bind_apply_ok hr]
    rw [hr] at first second
    obtain ⟨changes₁, own₁, permitted₁, after₁, taken₁⟩ := first
    obtain ⟨changes₂, own₂, permitted₂, after₂, taken₂⟩ := second a rfl
    dsimp only at after₁ taken₁ permitted₂ after₂ taken₂ ⊢
    refine ⟨changes₁ ++ changes₂, List.forall_mem_append.mpr ⟨own₁, own₂⟩,
      permitted₁.append (after₁ ▸ permitted₂), ?_, ?_⟩
    · rw [after₂, after₁, Symbols.replay_append]
    · rw [takenNames, List.filterMap_append]
      change takenNames commands ++ takenNames _ = _
      rw [taken₁, taken₂]
      cases shared with
      | false => rfl
      | true => exact (List.filterMap_append ..).symm

/-- A script that changes nothing may come first. -/
theorem Made.bind_of_kept {s : Script α} {f : α → Script β} {desk : Desk} (hs : Kept s)
    (second : ∀ a, Made shared P desk.symbols (f a desk)) :
    Made shared P desk.symbols ((s >>= f) desk) := by
  refine (made_of_kept hs desk).bind fun a _ => ?_
  rw [(hs desk).1]
  exact second a

theorem made_symbols_bind {f : Symbols → Script β} {desk : Desk}
    (h : Made shared P desk.symbols (f desk.symbols desk)) :
    Made shared P desk.symbols ((Script.symbols >>= f) desk) := h

theorem made_pure (desk : Desk) (a : α) :
    Made shared P desk.symbols ((pure a : Script α) desk) :=
  made_nothing rfl fun _ h => absurd h List.not_mem_nil

theorem Made.indented {s : Script Unit} {desk : Desk} (h : Made shared P desk.symbols (s desk)) :
    Made shared P desk.symbols (Script.indented s desk) := by
  have step (c : Command) (hc : c.Adds) (desk : Desk) :
      Made shared P desk.symbols (Script.command c desk) :=
    made_nothing rfl (List.forall_mem_singleton.mpr hc)
  exact (step .deeper trivial desk).bind fun _ _ => h.bind fun _ _ => step .shallower trivial _

theorem Made.mono {Q : Change → Prop} {w : Written α} (h : Made shared P symbols w)
    (hPQ : ∀ c, P c → Q c) : Made shared Q symbols w := by
  obtain ⟨changes, own, rest⟩ := h
  exact ⟨changes, fun c hc => hPQ c (own c hc), rest⟩

/-- The constants that a declaration enters: a global that is written as one, and the members of an
enumeration without a name. -/
def constantNames (v : Visit) : List String :=
  if v.decl.kind = .varDecl then (if isConstant v.decl then [Ident.spell v.decl.name] else [])
  else if v.decl.kind = .enumDecl ∧ tagName v.decl v.next = "" then
    (v.decl.childrenOf .enumConstantDecl).map Node.name
  else []

theorem constantNames_of_global {v : Visit} (hk : v.decl.kind = .varDecl) :
    constantNames v = if isConstant v.decl then [Ident.spell v.decl.name] else [] := by
  rw [constantNames, if_pos hk]

theorem constantNames_of_enum {v : Visit} (hk : v.decl.kind = .enumDecl)
    (unnamed : tagName v.decl v.next = "") :
    constantNames v = (v.decl.childrenOf .enumConstantDecl).map Node.name := by
  have other : v.decl.kind ≠ .varDecl := by
    rw [hk]
    decide
  rw [constantNames, if_neg other, if_pos ⟨hk, unnamed⟩]

/-- The change is one that the visit may make. Only constants and globals are traced. -/
def Visit.Enters (v : Visit) : Change → Prop
  | .const name => name ∈ constantNames v
  | .global g => v.decl.kind = .varDecl ∧
      g = ⟨Ident.spell v.decl.name, Spelling.typeOf v.decl.spelling, v.decl.isExtern⟩
  | _ => True

section Types

theorem kept_note (text : String) : Kept (Script.note text) := congruence_kept.note text

theorem recordText_kept (n : Node) (name : String) : Kept (recordText n name) :=
  recordText_related congruence_kept.toCongruence kept_head n name

mutual

theorem recordDecl_made (hP : ∀ name, P (.type name)) (next : Option Node) :
    ∀ (n : Node) (desk : Desk), Made shared P desk.symbols (recordDecl next n desk)
  | ⟨info, filler, inner⟩, desk => by
      rw [recordDecl]
      refine made_symbols_bind
        (holds_ite (Made shared P desk.symbols) (fun _ => made_pure desk ()) fun _ => ?_)
      refine holds_ite (Made shared P desk.symbols)
        (fun _ => made_of_kept (kept_note _) desk) fun _ => ?_
      refine holds_ite (Made shared P desk.symbols) (fun _ => made_pure desk ()) fun _ => ?_
      refine (made_register (hP _) trivial rfl rfl).bind fun _ _ => ?_
      refine Made.bind_of_kept (kept_note _) fun _ => ?_
      exact (nestedRecords_made hP inner _).bind fun _ _ => made_of_kept (recordText_kept _ _) _

theorem nestedRecords_made (hP : ∀ name, P (.type name)) :
    ∀ (inner : List Node) (desk : Desk), Made shared P desk.symbols (nestedRecords inner desk)
  | [], desk => made_pure desk ()
  | n :: rest, desk => by
      rw [nestedRecords]
      refine Made.bind ?_ fun _ _ => nestedRecords_made hP rest _
      exact holds_ite (Made shared P desk.symbols) (fun _ => recordDecl_made hP none n desk)
        fun _ => made_pure desk ()

end

theorem aliasDecl_made (hP : ∀ name, P (.type name)) (n : Node) (desk : Desk) :
    Made shared P desk.symbols (aliasDecl n desk) := by
  refine made_symbols_bind ?_
  iterate 4 refine holds_ite (Made shared P desk.symbols) (fun _ => made_pure desk ()) fun _ => ?_
  refine (made_register (hP _) trivial rfl rfl).bind fun _ _ => ?_
  exact Made.bind_of_kept (kept_head _) fun _ => made_of_kept (kept_line _) _

end Types

section Enums

theorem enumMember_kept (member : Node) : Kept (enumMember member) :=
  enumMember_related congruence_kept fun m _ => whole_kept m

theorem namedEnum_made (hP : ∀ name members, P (.enum name members)) (n : Node) {name : String}
    {desk : Desk} (h : desk.symbols.hasEnum name = false) :
    Made shared P desk.symbols (namedEnum n name desk) := by
  have members : Kept (Script.indented (Script.each enumMember (n.childrenOf .enumConstantDecl))) :=
    Kept.indented (congruence_kept.each (g := enumMember) fun member _ => enumMember_kept member)
  refine Made.bind_of_kept (kept_head _) fun _ => Made.bind_of_kept members fun _ => ?_
  refine Made.bind_of_kept (kept_line _) fun _ => Made.bind_of_kept (kept_line _) fun _ => ?_
  exact Made.bind_of_kept (kept_note _) fun _ => made_register (hP name (memberNames n)) h rfl rfl

theorem constMembers_made {members : List Node} (hP : ∀ m ∈ members, P (.const m.name))
    (previous : Option String) (desk : Desk) :
    Made shared P desk.symbols (constMembers previous members desk) := by
  induction members generalizing previous desk with
  | nil => exact made_pure desk ()
  | cons member rest ih =>
      obtain ⟨first, others⟩ := List.forall_mem_cons.mp hP
      refine (made_register first trivial rfl rfl).bind fun _ _ => ?_
      refine Made.bind_of_kept (kept_declare _ _ _) fun _ =>
        Made.bind_of_kept (kept_write _) fun _ => ?_
      refine Made.bind_of_kept (constValue_kept previous member) fun _ => ?_
      exact Made.bind_of_kept kept_endLine fun _ => ih others _ _

theorem enumDecl_made (hP : ∀ name members, P (.enum name members)) {n : Node}
    {next : Option Node} (hc : tagName n next = "" → ∀ m ∈ n.childrenOf .enumConstantDecl,
      P (.const m.name)) (desk : Desk) : Made shared P desk.symbols (enumDecl n next desk) := by
  refine made_symbols_bind ?_
  refine holds_ite (Made shared P desk.symbols) (fun _ => made_pure desk ()) fun _ => ?_
  refine holds_ite (Made shared P desk.symbols) (fun unnamed => ?_) fun _ => ?_
  · refine Made.bind_of_kept (kept_line _) fun _ => ?_
    refine (constMembers_made (hc unnamed) none desk).indented.bind fun _ _ => ?_
    exact Made.bind_of_kept (kept_line _) fun _ => made_of_kept (kept_line _) _
  · exact holds_ite (Made shared P desk.symbols) (fun _ => made_pure desk ()) fun new =>
      namedEnum_made hP n (by simpa using new)

end Enums

section Functions

theorem functionOutline_made (n : Node) (body : Option Node) (desk : Desk) :
    Made shared P desk.symbols (functionOutline n body desk) := by
  cases body with
  | none =>
      exact made_of_kept ((functionSignature_kept n).bind fun _ => kept_line _) desk
  | some body =>
      rw [functionOutline, functionBody_eq]
      have setting (f : Context → Context) (desk : Desk) :
          Made shared P desk.symbols (Script.setContext f desk) :=
        made_pure desk ()
      exact (setting _ desk).bind fun _ _ =>
        (made_of_kept (functionInside_kept n body) _).bind fun _ _ => setting _ _

theorem kept_when {condition : Prop} [Decidable condition] {s : Script Unit} (h : Kept s) :
    Kept (Script.when condition s) :=
  congruence_kept.when (t := s) condition h

theorem functionDecl_made (hP : ∀ name, P (.function name)) (u : SourceUnit) (n : Node)
    (desk : Desk) : Made shared P desk.symbols (functionDecl u n desk) := by
  have outside : Made shared P desk.symbols
      (Script.setContext (fun c => { c with inMain := false }) desk) :=
    made_pure desk ()
  refine outside.bind fun _ _ => made_symbols_bind ?_
  refine holds_ite (Made shared P _) (fun _ => made_pure _ ()) fun _ => ?_
  refine holds_ite (Made shared P _) (fun _ => made_of_kept (kept_note _) _) fun _ => ?_
  refine holds_ite (Made shared P _) (fun _ => made_pure _ ()) fun _ => ?_
  refine Made.bind_of_kept (kept_when (kept_line _)) fun _ => ?_
  refine Made.bind_of_kept (kept_when (kept_line _)) fun _ => ?_
  refine (made_register (hP n.name) trivial rfl rfl).bind fun _ _ => ?_
  exact (functionOutline_made n _ _).bind fun _ _ => made_of_kept (kept_line _) _

end Functions

section Variables

theorem variableText_kept (n : Node) (name type : String) (value : Option Node) :
    Kept (variableText n name type value) := by
  refine (kept_line _).bind fun _ => (kept_write _).bind fun _ => ?_
  refine (kept_declare _ _ _).bind fun _ => ?_
  cases value with
  | none => exact kept_line _
  | some value =>
      exact (kept_write _).bind fun _ => (givenText_kept n type value).bind fun _ => kept_line _

/-- What is written of a constant once its name is entered. -/
def constantBlock (n : Node) (name : String) (value : Node) : Script Unit := do
  Script.line s!"[export:\"{name}\"]"
  Script.line "const ("
  Script.indented do
    Script.declare .global n name
    Script.write " = "
    writeExpr value
    Script.endLine
  Script.line ")"

theorem constantBlock_kept (n : Node) (name : String) (value : Node) :
    Kept (constantBlock n name value) :=
  (kept_line _).bind fun _ => (kept_line _).bind fun _ =>
    (Kept.indented ((kept_declare _ _ _).bind fun _ => (kept_write _).bind fun _ =>
      (writeExpr_kept value).bind fun _ => kept_endLine)).bind fun _ => kept_line _

theorem constantText_apply (n : Node) (name : String) (value : Node) (desk : Desk) :
    constantText n name value desk =
      constantBlock n name value { desk with symbols := desk.symbols.addConst name } := rfl

/-- The symbols once a global is written, before it is entered itself. -/
def withConstant (n : Node) (symbols : Symbols) : Symbols :=
  if isConstant n then symbols.addConst (Ident.spell n.name) else symbols

theorem definition_frame (n : Node) (desk : Desk) :
    (definition n desk).desk = { desk with symbols := withConstant n desk.symbols } ∧
      ∀ c ∈ (definition n desk).commands, c.Adds := by
  unfold definition withConstant
  cases hi : initializer? n with
  | none =>
      have plain : isConstant n = false := by simp [isConstant, hi]
      obtain ⟨same, adds, _⟩ := variableText_kept n (Ident.spell n.name)
        (Spelling.typeOf n.spelling) none desk
      rw [plain]
      exact ⟨same, adds⟩
  | some value =>
      dsimp only
      cases hc : isConstant n with
      | false =>
          obtain ⟨same, adds, _⟩ := variableText_kept n (Ident.spell n.name)
            (Spelling.typeOf n.spelling) (some value) desk
          exact ⟨same, adds⟩
      | true =>
          simp only [if_true, constantText_apply]
          obtain ⟨same, adds, _⟩ := constantBlock_kept n (Ident.spell n.name) value
            { desk with symbols := desk.symbols.addConst (Ident.spell n.name) }
          exact ⟨same, adds⟩

theorem definition_made {n : Node} (hc : isConstant n = true → P (.const (Ident.spell n.name)))
    (desk : Desk) : Made shared P desk.symbols (definition n desk) := by
  obtain ⟨same, adds⟩ := definition_frame n desk
  unfold withConstant at same
  split at same
  · refine ⟨[.const (Ident.spell n.name)], List.forall_mem_singleton.mpr (hc ‹_›),
      ⟨trivial, trivial⟩, by rw [same]; rfl, ?_⟩
    rw [takenNames_of_adds adds]
    cases shared <;> rfl
  · exact made_nothing (by rw [same]) adds

/-- The entry of a global. -/
def globalOf (n : Node) : Global :=
  ⟨Ident.spell n.name, Spelling.typeOf n.spelling, n.isExtern⟩

theorem recordGlobal_made {u : SourceUnit} {n : Node} {desk : Desk}
    (hc : isConstant n = true → P (.const (Ident.spell n.name))) (hg : P (.global (globalOf n)))
    (permitted : desk.symbols.Permits (.global (globalOf n))) :
    Made u.shared P desk.symbols (recordGlobal u n (Ident.spell n.name)
      (Spelling.typeOf n.spelling) (definition n) desk) := by
  have before : Made u.shared P desk.symbols (definition n desk) := definition_made hc desk
  obtain ⟨same, adds⟩ := definition_frame n desk
  rcases hd : definition n desk with ⟨commands, next, e | ⟨⟩⟩
  · rw [recordGlobal_apply_error hd]
    rw [hd] at before
    exact before
  · rw [recordGlobal_apply_ok hd]
    rw [hd] at before same adds
    obtain ⟨changes, own, permits, after, taken⟩ := before
    dsimp only at same after taken adds
    refine ⟨changes ++ [.global (globalOf n)],
      List.forall_mem_append.mpr ⟨own, List.forall_mem_singleton.mpr hg⟩,
      permits.append ⟨?_, trivial⟩, ?_, ?_⟩
    · -- The name of the constant does not change what is said of the global.
      rw [← after, same]
      unfold withConstant
      split <;> exact permitted
    · rw [Symbols.replay_append, ← after]
      rfl
    · have none := takenNames_of_adds adds
      rw [none] at taken
      change takenNames (commands ++ [.line ""] ++ _) = _
      simp only [takenNames, globalsEntered, List.filterMap_append] at none taken ⊢
      rw [none]
      cases hs : u.shared with
      | false => rfl
      | true =>
          rw [hs, if_pos rfl] at taken
          simp only [if_true, ← taken]
          rfl

end Variables

theorem globalDecl_made (u : SourceUnit) {n : Node}
    (hc : isConstant n = true → P (.const (Ident.spell n.name))) (hg : P (.global (globalOf n)))
    (desk : Desk) : Made u.shared P desk.symbols (globalDecl u n desk) := by
  change Made u.shared P desk.symbols (judgedGlobal u n desk.symbols desk)
  cases hw : isWritten u desk.symbols n with
  | false => exact made_of_silent (silent_of_not_isWritten hw) desk
  | true =>
      rw [judgedGlobal_of_isWritten hw]
      exact recordGlobal_made hc hg (checkGlobal_of_isWritten hw)

/-- Wherever the script starts, it makes changes that satisfy `P`. -/
def Makes (shared : Bool) (P : Change → Prop) (s : Script α) : Prop :=
  ∀ desk, Made shared P desk.symbols (s desk)

/-- One visit changes the symbols only by what it may enter. -/
theorem visit_makes (u : SourceUnit) {v : Visit} (hg : isGroup v.decl.info = false) :
    Makes u.shared v.Enters (v.script u) := by
  obtain ⟨⟨info, filler, inner⟩, next⟩ := v
  rw [Visit.script, topLevel]
  split
  · exact made_of_kept (kept_note _)
  · split
    · exact aliasDecl_made (fun _ => trivial) _
    · exact functionDecl_made (fun _ => trivial) u _
    · exact recordDecl_made (fun _ => trivial) next _
    · rename_i hk
      refine globalDecl_made u (fun constant => ?_) ⟨hk, rfl⟩
      change _ ∈ constantNames _
      rw [constantNames_of_global hk, if_pos constant]
      exact List.mem_singleton_self _
    · rename_i hk
      refine enumDecl_made (fun _ _ => trivial) fun unnamed m hm => ?_
      change _ ∈ constantNames _
      rw [constantNames_of_enum hk unnamed]
      exact List.mem_map_of_mem hm
    iterate 5 exact fun desk => made_pure desk ()
    · simp_all [isGroup]
    · simp_all [isGroup]
    · split
      · exact made_of_kept (kept_note _)
      · exact fun _ => made_nothing rfl fun _ h => absurd h List.not_mem_nil

theorem makes_each {f : β → Script Unit} {l : List β} (h : ∀ b ∈ l, Makes shared P (f b)) :
    Makes shared P (Script.each f l) := by
  induction l with
  | nil => exact fun desk => made_pure desk ()
  | cons b rest ih =>
      obtain ⟨first, others⟩ := List.forall_mem_cons.mp h
      exact fun desk => (first desk).bind fun _ _ => ih others _

theorem visits_make (u : SourceUnit) {vs : List Visit}
    (h : ∀ v ∈ vs, isGroup v.decl.info = false) :
    Makes u.shared (fun c => ∃ v ∈ vs, v.Enters c) (Script.each (Visit.script u) vs) :=
  makes_each fun v hv desk => (visit_makes u (h v hv) desk).mono fun _ hc => ⟨v, hv, hc⟩

theorem writeUnit_makes (u : SourceUnit) :
    Makes u.shared (fun c => ∃ v ∈ visits u.root.inner, v.Enters c) (writeUnit u) := by
  rw [writeUnit, topLevels_eq_each]
  exact visits_make u fun _ hv => not_isGroup_of_mem_visits _ hv

/-- What follows in a walk changes the symbols that were reached before. -/
theorem made_after {s : Script α} {f : α → Script β} (hf : ∀ a, Makes shared P (f a))
    (desk : Desk) : ∃ changes, (s desk).desk.symbols.PermitsAll changes ∧
      ((s >>= f) desk).desk.symbols = (s desk).desk.symbols.replay changes := by
  rcases hs : s desk with ⟨commands, next, e | a⟩
  · rw [Script.bind_apply_error hs]
    exact ⟨[], trivial, rfl⟩
  · rw [Script.bind_apply_ok hs]
    obtain ⟨changes, _, permitted, after, _⟩ := hf a next
    exact ⟨changes, permitted, after⟩

/-- Between two points of a walk the symbols change only by permitted changes. -/
theorem firstVisits_changes (u : SourceUnit) (symbols : Symbols) {i j : Nat} (h : i ≤ j) :
    ∃ changes, (firstVisits u symbols i).desk.symbols.PermitsAll changes ∧
      (firstVisits u symbols j).desk.symbols =
        (firstVisits u symbols i).desk.symbols.replay changes := by
  have split : (visits u.root.inner).take j =
      (visits u.root.inner).take i ++ ((visits u.root.inner).drop i).take (j - i) := by
    rw [← List.take_add, Nat.add_sub_cancel' h]
  have inside : ∀ v ∈ ((visits u.root.inner).drop i).take (j - i), isGroup v.decl.info = false :=
    fun v hv =>
      not_isGroup_of_mem_visits u.root.inner (List.mem_of_mem_drop (List.mem_of_mem_take hv))
  rw [firstVisits, firstVisits, split, each_append]
  exact made_after (fun _ => visits_make u inside) _

end VFromC.Decl
