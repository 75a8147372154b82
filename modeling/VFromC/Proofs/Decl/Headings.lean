import VFromC.Proofs.Decl.Introduced
/-!
The types that a unit declares, and the tables that keep them from being declared again.

Records and aliases are entered under their name in C, enumerations under the name that they get. A
declaration is written only if its entry is not there yet, and an alias only if there is no
enumeration of its capitalized name either.
-/
namespace VFromC

/-- An entry in the tables of types. -/
inductive TypeKey where
  /-- An enumeration, by the name that it gets. -/
  | enum (name : String)
  /-- A record or an alias, by its name in C. -/
  | other (name : String)
deriving DecidableEq

namespace Output

def Heading.key : Heading → TypeKey
  | .record _ tag => .other tag
  | .aliased name _ => .other name
  | .enum name => .enum name

/-- The entries that must not be there when the declaration is written. -/
def Heading.rivals : Heading → List TypeKey
  | .record _ tag => [.other tag]
  | .aliased name _ => [.other name, .enum (Ident.capitalized name)]
  | .enum name => [.enum name]

theorem Heading.key_mem_rivals (h : Heading) : h.key ∈ h.rivals := by
  cases h <;> exact List.mem_cons_self

def heading? : Command → Option Heading
  | .head h => some h
  | _ => none

/-- The types that are declared, in order. -/
def headings (commands : List Command) : List Heading := commands.filterMap heading?

theorem headings_append (c₁ c₂ : List Command) :
    headings (c₁ ++ c₂) = headings c₁ ++ headings c₂ :=
  List.filterMap_append

/-- No type is declared. -/
def IsHeadless (c : Command) : Prop := heading? c = none

theorem headings_of_headless {commands : List Command} (h : ∀ c ∈ commands, IsHeadless c) :
    headings commands = [] :=
  List.filterMap_eq_nil_iff.mpr h

end Output

namespace Symbols
open VFromC.Output

def lists (t : Symbols) : TypeKey → Bool
  | .enum name => t.hasEnum name
  | .other name => t.hasType name

theorem lists_change (t : Symbols) (c : Change) {key : TypeKey} (h : t.lists key = true) :
    (t.change c).lists key = true := by
  have kept {a name : String} {names : List String} (h : names.contains a = true) :
      (insertName name names).contains a = true := by
    rw [List.contains_iff_mem] at h ⊢
    exact mem_insertName.mpr (.inr h)
  cases c with
  | type name =>
      cases key with
      | enum => exact h
      | other => exact kept h
  | enum name members =>
      cases key with
      | enum => exact kept h
      | other => exact h
  | _ => exact h

theorem lists_replay (t : Symbols) (changes : List Change) {key : TypeKey}
    (h : t.lists key = true) : (t.replay changes).lists key = true := by
  induction changes generalizing t with
  | nil => exact h
  | cons c rest ih => exact ih (t.change c) (t.lists_change c h)

theorem lists_addType (t : Symbols) (name : String) : (t.addType name).lists (.other name) = true :=
  List.contains_iff_mem.mpr (mem_insertName.mpr (.inl rfl))

theorem lists_addEnum (t : Symbols) (name : String) (members : List String) :
    (t.addEnum name members).lists (.enum name) = true :=
  List.contains_iff_mem.mpr (mem_insertName.mpr (.inl rfl))

/-- The declaration has no rival in the tables. -/
def Admits (t : Symbols) (h : Heading) : Prop := ∀ key ∈ h.rivals, t.lists key = false

/-- What is entered is no rival of what is admitted. -/
theorem Admits.not_mem {t : Symbols} {h : Heading} {key : TypeKey} (admitted : t.Admits h)
    (listed : t.lists key = true) : key ∉ h.rivals := by
  intro rival
  rw [admitted key rival] at listed
  cases listed

/-- What is admitted later was admitted before. -/
theorem Admits.before {s t : Symbols} {h : Heading} (admitted : t.Admits h)
    (grows : ∀ key, s.lists key = true → t.lists key = true) : s.Admits h := by
  intro key rival
  rw [← Bool.not_eq_true]
  intro listed
  exact admitted.not_mem (grows key listed) rival

end Symbols

namespace Decl
open VFromC.Syntax VFromC.Output VFromC.Emit

/-- Commands that lead from some symbols to others: each type that they declare was admitted before
and is entered afterwards, and none of them is a rival of a later one. -/
structure Headed (before : Symbols) (commands : List Command) (after : Symbols) : Prop where
  grows : ∀ key, before.lists key = true → after.lists key = true
  admitted : ∀ h ∈ headings commands, before.Admits h
  entered : ∀ h ∈ headings commands, after.lists h.key = true
  apart : (headings commands).Pairwise fun earlier later => earlier.key ∉ later.rivals

variable {symbols t₁ t₂ t₃ : Symbols} {c₁ c₂ : List Command}

theorem Headed.append (first : Headed t₁ c₁ t₂) (second : Headed t₂ c₂ t₃) :
    Headed t₁ (c₁ ++ c₂) t₃ where
  grows key h := second.grows key (first.grows key h)
  admitted := by
    rw [headings_append, List.forall_mem_append]
    constructor
    · exact first.admitted
    · intro h hh
      exact (second.admitted h hh).before first.grows
  entered := by
    rw [headings_append, List.forall_mem_append]
    constructor
    · intro h hh
      exact second.grows h.key (first.entered h hh)
    · exact second.entered
  apart := by
    rw [headings_append, List.pairwise_append]
    refine ⟨first.apart, second.apart, ?_⟩
    intro h hh h' hh'
    exact (second.admitted h' hh').not_mem (first.entered h hh)

theorem headed_of_none (grows : ∀ key, t₁.lists key = true → t₂.lists key = true)
    (none : headings c₁ = []) : Headed t₁ c₁ t₂ where
  grows := grows
  admitted := by simp [none]
  entered := by simp [none]
  apart := by simp [none]

theorem headed_of_one {h : Heading} (grows : ∀ key, t₁.lists key = true → t₂.lists key = true)
    (one : headings c₁ = [h]) (admitted : t₁.Admits h) (entered : t₂.lists h.key = true) :
    Headed t₁ c₁ t₂ where
  grows := grows
  admitted := by simpa [one] using admitted
  entered := by simpa [one] using entered
  apart := by simp [one]

/-- If a script has succeeded, it has declared types as it may. -/
def HeadedAt (symbols : Symbols) (w : Written Unit) : Prop :=
  w.result = .ok () → Headed symbols w.commands w.desk.symbols

def HeadedBy (s : Script Unit) : Prop := ∀ desk, HeadedAt desk.symbols (s desk)

theorem HeadedBy.bind {s t : Script Unit} (hs : HeadedBy s) (ht : HeadedBy t) :
    HeadedBy (do s; t) := by
  intro desk hr
  obtain ⟨⟨⟩, hr₁, hr₂, hd, hc⟩ := bind_ok hr
  rw [hd, hc]
  exact (hs desk hr₁).append (ht _ hr₂)

theorem headedAt_pure (desk : Desk) : HeadedAt desk.symbols ((pure () : Script Unit) desk) :=
  fun _ => headed_of_none (fun _ h => h) rfl

theorem headedAt_note (text : String) (desk : Desk) :
    HeadedAt desk.symbols (Script.note text desk) :=
  fun _ => headed_of_none (fun _ h => h) rfl

theorem headedAt_symbols_bind {f : Symbols → Script Unit} {desk : Desk}
    (h : HeadedAt desk.symbols (f desk.symbols desk)) :
    HeadedAt desk.symbols ((Script.symbols >>= f) desk) := h

theorem headedBy_each {α : Type} {f : α → Script Unit} {l : List α}
    (h : ∀ a ∈ l, HeadedBy (f a)) : HeadedBy (Script.each f l) := by
  induction l with
  | nil => exact headedAt_pure
  | cons a rest ih =>
      obtain ⟨first, others⟩ := List.forall_mem_cons.mp h
      exact first.bind (ih others)

theorem grows_of_made {shared : Bool} {P : Change → Prop} {w : Written Unit}
    (h : Made shared P symbols w) (key : TypeKey) (listed : symbols.lists key = true) :
    w.desk.symbols.lists key = true := by
  obtain ⟨changes, _, _, after, _⟩ := h
  rw [after]
  exact symbols.lists_replay changes listed

section Headless

/-- No type is declared by the first script. -/
def Headless {α : Type} (s _ : Script α) : Prop := ∀ desk, Says IsHeadless (s desk)

theorem headless_congruence : DeclCongruence Headless where
  toCongruence := by
    apply says_congruence
    intro c layout
    cases c with
    | head => exact layout.elim
    | _ => rfl
  declare _ := says_command rfl
  reference n := by
    unfold reference
    split
    · exact says_command rfl
    · intro desk
      exact (says_symbols desk).bind fun known _ => (says_quiet rfl).bind fun c _ =>
        says_command (P := IsHeadless) (c := .refer _ (referenceText known c _)) rfl _
  index h desk := h _
  switch _ h desk := h _
  register := says_register
  setContext := says_setContext
  named _ _ _ := says_command rfl
  mark := says_command rfl
  take _ := says_command rfl

theorem whole_headless (n : Node) : Related Headless whole whole n := by
  apply whole_related_of_emitter
  intro depth
  apply emitter_related headless_congruence.toEmitterCongruence (P := fun _ => True)
  · exact fun _ _ => trivial
  · exact fun _ _ _ => says_command rfl
  · exact fun _ _ _ => says_command rfl
  · trivial

theorem headedBy_of_headless {s : Script Unit} (shared : Bool) (headless : Self Headless s)
    (made : Makes shared (fun _ => True) s) : HeadedBy s :=
  fun desk _ => headed_of_none (grows_of_made (made desk)) (headings_of_headless (headless desk))

/-- Where a heading comes first and no other follows, it is the only one. -/
theorem headings_head_bind {h : Heading} {s : Script Unit} (rest : Self Headless s) (desk : Desk) :
    headings ((do Script.head h; s : Script Unit) desk).commands = [h] := by
  have first : Script.head h desk = ⟨[.head h], desk, .ok ()⟩ := rfl
  rw [Script.bind_apply_ok first, headings_append, headings_of_headless (rest desk)]
  rfl

end Headless

section Types

theorem headings_recordText (n : Node) (name : String) (desk : Desk) :
    headings (recordText n name desk).commands = [.record (n.info.tagUsed = "union") name] := by
  have hR := headless_congruence.toCongruence
  apply headings_head_bind
  exact hR.bind (hR.indented (hR.each fun _ _ => hR.line _)) fun _ =>
    hR.bind (hR.line _) fun _ => hR.line _

/-- A type that is entered before what is inside of it, and declared behind that. -/
theorem headedAt_of_record {name text : String} {inside own : Script Unit} {h : Heading}
    {desk : Desk} (key : h.key = .other name) (rivals : h.rivals = [.other name])
    (new : desk.symbols.hasType name = false) (hi : HeadedBy inside) (kept : Kept own)
    (one : ∀ desk, headings (own desk).commands = [h]) :
    HeadedAt desk.symbols ((do
      Script.register (·.addType name)
      Script.note text
      inside
      own) desk) := by
  intro hr
  -- What is inside starts with the name entered.
  let entered : Desk := { desk with symbols := desk.symbols.addType name }
  change ((do inside; own : Script Unit) entered).result = .ok () at hr
  change Headed _ (.note (debug text) :: ((do inside; own : Script Unit) entered).commands)
    ((do inside; own : Script Unit) entered).desk.symbols
  obtain ⟨⟨⟩, done, _, hd, hc⟩ := bind_ok hr
  obtain ⟨grows, admitted, known, apart⟩ := hi entered done
  have listed : entered.symbols.lists (.other name) = true := desk.symbols.lists_addType name
  have before (k : TypeKey) (hk : desk.symbols.lists k = true) : entered.symbols.lists k = true :=
    desk.symbols.lists_change (.type name) hk
  have all : headings (.note (debug text) :: ((do inside; own : Script Unit) entered).commands) =
      headings (inside entered).commands ++ [h] := by
    rw [hc, ← one (inside entered).desk, ← headings_append]
    rfl
  rw [hd, (kept _).1]
  constructor
  · exact fun k hk => grows k (before k hk)
  · rw [all, List.forall_mem_append, List.forall_mem_singleton]
    constructor
    · exact fun h' hh' => (admitted h' hh').before before
    · intro k rival
      rw [rivals, List.mem_singleton] at rival
      rw [rival]
      exact new
  · rw [all, List.forall_mem_append, List.forall_mem_singleton, key]
    exact ⟨known, grows _ listed⟩
  · rw [all, List.pairwise_append]
    refine ⟨apart, List.pairwise_singleton _ _, ?_⟩
    intro h' hh' last hl
    rw [List.mem_singleton.mp hl, rivals, List.mem_singleton]
    intro same
    exact (admitted h' hh').not_mem listed (same ▸ h'.key_mem_rivals)

mutual

theorem recordDecl_headed (next : Option Node) : ∀ n, HeadedBy (recordDecl next n)
  | ⟨info, filler, inner⟩ => by
      intro desk
      rw [recordDecl]
      apply headedAt_symbols_bind
      refine holds_ite (HeadedAt desk.symbols) (fun _ => headedAt_pure desk) fun _ => ?_
      refine holds_ite (HeadedAt desk.symbols) (fun _ => headedAt_note _ desk) fun _ => ?_
      refine holds_ite (HeadedAt desk.symbols) (fun _ => headedAt_pure desk) fun new => ?_
      rw [Bool.or_eq_true, not_or, Bool.not_eq_true] at new
      exact headedAt_of_record rfl rfl (by simpa using new.2) (nestedRecords_headed inner)
        (recordText_kept _ _) (headings_recordText _ _)

theorem nestedRecords_headed : ∀ inner, HeadedBy (nestedRecords inner)
  | [] => headedAt_pure
  | n :: rest => by
      rw [nestedRecords]
      apply HeadedBy.bind _ (nestedRecords_headed rest)
      intro desk
      exact holds_ite (HeadedAt desk.symbols) (fun _ => recordDecl_headed none n desk)
        fun _ => headedAt_pure desk

end

theorem aliasDecl_headed (n : Node) : HeadedBy (aliasDecl n) := by
  intro desk
  apply headedAt_symbols_bind
  refine holds_ite (HeadedAt desk.symbols) (fun _ => headedAt_pure desk) fun _ => ?_
  refine holds_ite (HeadedAt desk.symbols) (fun _ => headedAt_pure desk) fun _ => ?_
  refine holds_ite (HeadedAt desk.symbols) (fun _ => headedAt_pure desk) fun new => ?_
  refine holds_ite (HeadedAt desk.symbols) (fun _ => headedAt_pure desk) fun _ _ => ?_
  have free : desk.symbols.hasType n.name = false ∧
      desk.symbols.hasEnum (Ident.capitalized n.name) = false := by
    simpa using new
  apply headed_of_one (h := .aliased n.name (Spelling.typeOf n.spelling))
  · exact fun _ listed => desk.symbols.lists_change (.type n.name) listed
  · rfl
  · intro key rival
    rcases List.mem_cons.mp rival with rfl | rival
    · exact free.1
    · rw [List.mem_singleton.mp rival]
      exact free.2
  · exact desk.symbols.lists_addType n.name

end Types

section Enums

theorem enumMember_headless (member : Node) : Self Headless (enumMember member) :=
  enumMember_related headless_congruence.toEmitterCongruence fun m _ => whole_headless m

theorem headings_namedEnum (n : Node) (name : String) (desk : Desk) :
    headings (namedEnum n name desk).commands = [.enum name] := by
  have hR := headless_congruence
  apply headings_head_bind
  exact hR.bind (hR.indented (hR.each fun member _ => enumMember_headless member)) fun _ =>
    hR.bind (hR.line _) fun _ => hR.bind (hR.line _) fun _ => hR.bind (hR.note _) fun _ =>
      hR.register _

theorem constEnum_headless (n : Node) : Self Headless (constEnum n) := by
  have hR := headless_congruence
  have members : Self Headless (constMembers none (n.childrenOf .enumConstantDecl)) :=
    constMembers_related hR (fun _ _ m _ => whole_headless m) none
  exact hR.bind (hR.line _) fun _ => hR.bind (hR.indented members) fun _ =>
    hR.bind (hR.line _) fun _ => hR.line _

theorem lists_bind_of_kept {s : Script Unit} {f : Unit → Script Unit} {desk : Desk} {key : TypeKey}
    (hs : Kept s) (second : (f () desk).result = .ok () →
      (f () desk).desk.symbols.lists key = true) :
    ((s >>= f) desk).result = .ok () → ((s >>= f) desk).desk.symbols.lists key = true := by
  intro hr
  obtain ⟨⟨⟩, _, hr, hd, _⟩ := bind_ok hr
  rw [(hs desk).1] at hr hd
  rw [hd]
  exact second hr

theorem namedEnum_headed {n : Node} {name : String} {desk : Desk}
    (new : desk.symbols.hasEnum name = false) :
    HeadedAt desk.symbols (namedEnum n name desk) := by
  intro hr
  have members : Kept (Script.indented (Script.each enumMember (n.childrenOf .enumConstantDecl))) :=
    Kept.indented (congruence_kept.each (g := enumMember) fun member _ => enumMember_kept member)
  have made : Made false (fun _ => True) desk.symbols (namedEnum n name desk) :=
    namedEnum_made (fun _ _ => trivial) n new
  apply headed_of_one (h := .enum name)
  · exact grows_of_made made
  · exact headings_namedEnum n name desk
  · intro key rival
    rw [List.mem_singleton.mp rival]
    exact new
  · revert hr
    apply lists_bind_of_kept (kept_head _)
    apply lists_bind_of_kept members
    apply lists_bind_of_kept (kept_line _)
    apply lists_bind_of_kept (kept_line _)
    apply lists_bind_of_kept (kept_note _)
    exact fun _ => desk.symbols.lists_addEnum name (memberNames n)

theorem enumDecl_headed (n : Node) (next : Option Node) : HeadedBy (enumDecl n next) := by
  intro desk
  by_cases unnamed : tagName n next = ""
  · have made : Made false (fun _ => True) desk.symbols (enumDecl n next desk) :=
      enumDecl_made (fun _ _ => trivial) (fun _ _ _ => trivial) desk
    rw [enumDecl_of_unnamed unnamed] at made ⊢
    exact fun _ => headed_of_none (grows_of_made made)
      (headings_of_headless (constEnum_headless n desk))
  · apply headedAt_symbols_bind
    refine holds_ite (HeadedAt desk.symbols) (fun _ => headedAt_pure desk) fun _ => ?_
    refine holds_ite (HeadedAt desk.symbols) (fun h => absurd h unnamed) fun _ => ?_
    exact holds_ite (HeadedAt desk.symbols) (fun _ => headedAt_pure desk) fun new =>
      namedEnum_headed (by simpa using new)

end Enums

/-- Each visit declares types as it may. -/
theorem visit_headed (u : SourceUnit) {v : Visit} (hg : isGroup v.decl.info = false) :
    HeadedBy (v.script u) := by
  obtain ⟨⟨info, filler, inner⟩, next⟩ := v
  rw [Visit.script, topLevel]
  split
  · exact headedAt_note _
  · split
    · exact aliasDecl_headed _
    · exact headedBy_of_headless u.shared
        (functionDecl_related headless_congruence u fun m _ => whole_headless m)
        (functionDecl_made (fun _ => trivial) u _)
    · exact recordDecl_headed next _
    · exact headedBy_of_headless u.shared
        (globalDecl_related headless_congruence u fun m _ => whole_headless m)
        (globalDecl_made u (fun _ => trivial) trivial)
    · exact enumDecl_headed _ next
    iterate 5 exact headedAt_pure
    · simp_all [isGroup]
    · simp_all [isGroup]
    · split
      · exact headedAt_note _
      · intro r hr
        cases hr

theorem writeUnit_headed (u : SourceUnit) : HeadedBy (writeUnit u) := by
  rw [writeUnit, topLevels_eq_each]
  apply headedBy_each
  intro v hv
  exact visit_headed u (not_isGroup_of_mem_visits _ hv)

end Decl

end VFromC
