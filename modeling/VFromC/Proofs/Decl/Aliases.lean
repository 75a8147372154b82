import VFromC.Proofs.Decl.Headings
import VFromC.Proofs.Decl.Nested
/-!
Aliases behind other declarations.

An alias is passed over if its name, or the enumeration that it stands for, is in the tables of
types. The declaration before it is what enters them last, and one without a name looks ahead to the
alias for its own name.
-/
namespace VFromC.Decl
open VFromC.Syntax VFromC.Output VFromC.Emit VFromC.Text

/-- The entries that keep an alias from being written. -/
def aliasRivals (n : Node) : List TypeKey :=
  [.other n.name, .enum (Ident.capitalized n.name), .enum (Spelling.typeOf n.spelling)]

/-- The text of an alias. -/
def aliasBlock (n : Node) : List Command :=
  [.head (.aliased n.name (Spelling.typeOf n.spelling)), .line ""]

/-- An alias that is written unless one of these entries is there. -/
def isPlainAlias (n : Node) : Bool :=
  n.kind = .typedefDecl && !n.info.isBuiltin && n.name ≠ "" && !Ident.isLibraryType n.name &&
    !begins "__" n.name && !occursIn n.name n.spelling && !isUnnamedTag n.spelling

/-- A record or an enumeration that takes the name of an alias behind it. -/
def isNamedByNext (n : Node) : Bool :=
  !n.info.isBuiltin && n.name = "" &&
    (n.kind = .enumDecl || n.kind = .recordDecl && !n.inner.isEmpty)

/-- The types that are declared have one of the entries. -/
def declaresAny (commands : List Command) (keys : List TypeKey) : Bool :=
  (headings commands).any fun h => keys.contains h.key

section Entries

/-- If a script has succeeded, the entries are those of before and those of the types that it has
declared. -/
def EntersAt (symbols : Symbols) (w : Written Unit) : Prop :=
  w.result = .ok () → ∀ key, w.desk.symbols.lists key = true →
    symbols.lists key = true ∨ ∃ h ∈ headings w.commands, h.key = key

def EntersBy (s : Script Unit) : Prop := ∀ desk, EntersAt desk.symbols (s desk)

theorem entersAt_same {symbols : Symbols} {w : Written Unit}
    (same : ∀ key, w.desk.symbols.lists key = true → symbols.lists key = true) :
    EntersAt symbols w :=
  fun _ key listed => .inl (same key listed)

theorem entersAt_pure (desk : Desk) : EntersAt desk.symbols ((pure () : Script Unit) desk) :=
  entersAt_same fun _ listed => listed

theorem entersAt_note (text : String) (desk : Desk) :
    EntersAt desk.symbols (Script.note text desk) :=
  entersAt_same fun _ listed => listed

theorem EntersBy.bind {s t : Script Unit} (hs : EntersBy s) (ht : EntersBy t) :
    EntersBy (do s; t) := by
  intro desk done key listed
  obtain ⟨⟨⟩, done₁, done₂, after, commands⟩ := bind_ok done
  rw [after] at listed
  rw [commands, headings_append]
  rcases ht _ done₂ key listed with before | ⟨h, hh, same⟩
  · rcases hs desk done₁ key before with before | ⟨h, hh, same⟩
    · exact .inl before
    · exact .inr ⟨h, List.mem_append_left _ hh, same⟩
  · exact .inr ⟨h, List.mem_append_right _ hh, same⟩

theorem entersBy_each {α : Type} {f : α → Script Unit} {l : List α}
    (h : ∀ a ∈ l, EntersBy (f a)) : EntersBy (Script.each f l) := by
  induction l with
  | nil => exact entersAt_pure
  | cons a rest ih =>
      obtain ⟨first, others⟩ := List.forall_mem_cons.mp h
      exact first.bind (ih others)

/-- The change is not one of the tables of types. -/
def KeepsTypes : Change → Prop
  | .type _ => False
  | .enum _ _ => False
  | _ => True

theorem lists_replay_of_keepsTypes {symbols : Symbols} {changes : List Change}
    (h : ∀ c ∈ changes, KeepsTypes c) (key : TypeKey) :
    (symbols.replay changes).lists key = symbols.lists key := by
  induction changes generalizing symbols with
  | nil => rfl
  | cons c rest ih =>
      obtain ⟨first, others⟩ := List.forall_mem_cons.mp h
      have step : (symbols.change c).lists key = symbols.lists key := by
        cases c with
        | type => exact first.elim
        | enum => exact first.elim
        | _ => cases key <;> rfl
      exact (ih others).trans step

theorem entersBy_of_makes (shared : Bool) {s : Script Unit} (h : Makes shared KeepsTypes s) :
    EntersBy s := by
  intro desk
  obtain ⟨changes, own, _, after, _⟩ := h desk
  apply entersAt_same
  intro key listed
  rwa [after, lists_replay_of_keepsTypes own] at listed

theorem aliasDecl_eq (n : Node) (desk : Desk) :
    aliasDecl n desk =
      (if Ident.isLibraryType n.name || occursIn n.name n.spelling || isUnnamedTag n.spelling then
        pure ()
      else if begins "__" n.name then pure ()
      else if desk.symbols.hasType n.name || desk.symbols.hasEnum (Ident.capitalized n.name) then
        pure ()
      else if desk.symbols.hasEnum (Spelling.typeOf n.spelling) then pure ()
      else do
        Script.register (·.addType n.name)
        Script.head (.aliased n.name (Spelling.typeOf n.spelling))
        Script.line "" : Script Unit) desk := rfl

theorem aliasDecl_cases (n : Node) (desk : Desk) :
    aliasDecl n desk = ⟨[], desk, .ok ()⟩ ∨
      aliasDecl n desk =
        ⟨aliasBlock n, { desk with symbols := desk.symbols.addType n.name }, .ok ()⟩ := by
  rw [aliasDecl_eq]
  iterate 4
    split
    · exact .inl rfl
  exact .inr rfl

theorem aliasDecl_enters (n : Node) : EntersBy (aliasDecl n) := by
  intro desk
  rcases aliasDecl_cases n desk with run | run
  · rw [run]
    exact entersAt_same fun _ listed => listed
  · rw [run]
    intro _ key listed
    cases key with
    | enum name => exact .inl listed
    | other name =>
        rcases hasType_addType.mp listed with rfl | before
        · exact .inr ⟨_, List.mem_cons_self, rfl⟩
        · exact .inl before

theorem mem_headings_of_output {commands : List Command} {h : Heading}
    (shown : .head h ∈ output commands) : h ∈ headings commands :=
  List.mem_filterMap.mpr ⟨.head h, List.mem_of_mem_filter shown, rfl⟩

theorem declared_of_block {commands : List Command} {n : Node} {name : String}
    (shown : recordBlock n name ⊆ output commands) :
    ∃ h ∈ headings commands, h.key = .other name :=
  ⟨_, mem_headings_of_output (shown List.mem_cons_self), rfl⟩

theorem recordDecl_enters (next : Option Node) (n : Node) : EntersBy (recordDecl next n) := by
  intro desk
  by_cases shown : isNamedRecord n (tagName n next) = true ∧
      desk.symbols.hasType (tagName n next) = false
  · obtain ⟨written, _, out, nested⟩ :=
      recordDecl_run next shown.1 shown.2 (nestedRecords_written n.inner)
    intro _ key listed
    cases key with
    | enum name =>
        rw [nested.others] at listed
        exact .inl listed
    | other name =>
        rcases (nested.names name).mp listed with known | inside
        · rcases hasType_addType.mp known with rfl | before
          · refine .inr (declared_of_block (n := n) ?_)
            rw [out]
            exact List.subset_append_right _ _
          · exact .inl before
        · obtain ⟨r, hr, rfl⟩ := List.mem_map.mp inside
          refine .inr (declared_of_block (n := r) ?_)
          rw [out]
          intro c hc
          exact List.mem_append_left _ (List.mem_flatMap.mpr ⟨r, hr, hc⟩)
  · obtain ⟨_, _, same⟩ := recordDecl_silent next n desk
      (by simpa only [not_and, Bool.not_eq_false] using shown)
    apply entersAt_same
    rw [same]
    exact fun _ listed => listed

theorem desk_bind_of_kept {s : Script Unit} {f : Unit → Script Unit} {desk : Desk} (hs : Kept s)
    (done : ((s >>= f) desk).result = .ok ()) :
    (f () desk).result = .ok () ∧ ((s >>= f) desk).desk = (f () desk).desk := by
  obtain ⟨⟨⟩, _, done, after, _⟩ := bind_ok done
  rw [(hs desk).1] at done after
  exact ⟨done, after⟩

theorem namedEnum_symbols {n : Node} {name : String} {desk : Desk}
    (done : (namedEnum n name desk).result = .ok ()) :
    (namedEnum n name desk).desk.symbols = desk.symbols.addEnum name (memberNames n) := by
  have members : Kept (Script.indented (Script.each enumMember (n.childrenOf .enumConstantDecl))) :=
    Kept.indented (congruence_kept.each (g := enumMember) fun member _ => enumMember_kept member)
  obtain ⟨done, after⟩ := desk_bind_of_kept (kept_head _) done
  obtain ⟨done, after₁⟩ := desk_bind_of_kept members done
  obtain ⟨done, after₂⟩ := desk_bind_of_kept (kept_line _) done
  obtain ⟨done, after₃⟩ := desk_bind_of_kept (kept_line _) done
  obtain ⟨done, after₄⟩ := desk_bind_of_kept (kept_note _) done
  rw [namedEnum, after, after₁, after₂, after₃, after₄]
  rfl

theorem constEnum_makes (shared : Bool) (n : Node) : Makes shared KeepsTypes (constEnum n) := by
  intro desk
  refine Made.bind_of_kept (kept_line _) fun _ => ?_
  refine (constMembers_made (fun _ _ => trivial) none desk).indented.bind fun _ _ => ?_
  exact Made.bind_of_kept (kept_line _) fun _ => made_of_kept (kept_line _) _

theorem enumDecl_eq (n : Node) (next : Option Node) (desk : Desk) :
    enumDecl n next desk =
      (if tagName n next = "boolean" then pure ()
      else if tagName n next = "" then constEnum n
      else if desk.symbols.hasEnum (Ident.capitalized (tagName n next)) then pure ()
      else namedEnum n (Ident.capitalized (tagName n next)) : Script Unit) desk := rfl

theorem enumDecl_enters (n : Node) (next : Option Node) : EntersBy (enumDecl n next) := by
  intro desk
  rw [enumDecl_eq]
  split
  · exact entersAt_pure desk
  · split
    · exact entersBy_of_makes false (constEnum_makes false n) desk
    · split
      · exact entersAt_pure desk
      · intro done key listed
        rw [namedEnum_symbols done] at listed
        cases key with
        | other name => exact .inl listed
        | enum name =>
            rcases mem_insertName.mp (List.contains_iff_mem.mp listed) with rfl | before
            · exact .inr ⟨_, by rw [headings_namedEnum]; exact List.mem_cons_self, rfl⟩
            · exact .inl (List.contains_iff_mem.mpr before)

theorem visit_enters (u : SourceUnit) {v : Visit} (hg : isGroup v.decl.info = false) :
    EntersBy (v.script u) := by
  obtain ⟨⟨info, filler, inner⟩, next⟩ := v
  rw [Visit.script, topLevel]
  split
  · exact entersAt_note _
  · split
    · exact aliasDecl_enters _
    · exact entersBy_of_makes u.shared (functionDecl_made (fun _ => trivial) u _)
    · exact recordDecl_enters next _
    · exact entersBy_of_makes u.shared (globalDecl_made u (fun _ => trivial) trivial)
    · exact enumDecl_enters _ next
    iterate 5 exact entersAt_pure
    · simp_all [isGroup]
    · simp_all [isGroup]
    · split
      · exact entersAt_note _
      · intro r hr
        cases hr

/-- After a declaration, the entries are those of before and those of the types declared. -/
theorem topLevel_enters (u : SourceUnit) (next : Option Node) (n : Node) :
    EntersBy (topLevel u next n) := by
  rw [topLevel_eq_each]
  apply entersBy_each
  intro v hv
  exact visit_enters u (not_isGroup_of_mem_visit next n hv)

theorem topLevel_headed (u : SourceUnit) (next : Option Node) (n : Node) :
    HeadedBy (topLevel u next n) := by
  rw [topLevel_eq_each]
  apply headedBy_each
  intro v hv
  exact visit_headed u (not_isGroup_of_mem_visit next n hv)

theorem lists_topLevel {u : SourceUnit} {next : Option Node} {n : Node} {desk : Desk}
    (done : (topLevel u next n desk).result = .ok ()) (key : TypeKey) :
    (topLevel u next n desk).desk.symbols.lists key = true ↔
      desk.symbols.lists key = true ∨ ∃ h ∈ headings (topLevel u next n desk).commands,
        h.key = key := by
  constructor
  · exact topLevel_enters u next n desk done key
  · rintro (before | ⟨h, hh, rfl⟩)
    · exact (topLevel_headed u next n desk done).grows key before
    · exact (topLevel_headed u next n desk done).entered h hh

end Entries

section Pairs

variable {u : SourceUnit} {desk : Desk} {prev td : Node}

theorem isPlainAlias_iff {n : Node} : isPlainAlias n = true ↔
    n.kind = .typedefDecl ∧ n.info.isBuiltin = false ∧ n.name ≠ "" ∧
      Ident.isLibraryType n.name = false ∧ begins "__" n.name = false ∧
      occursIn n.name n.spelling = false ∧ isUnnamedTag n.spelling = false := by
  simp only [isPlainAlias, Bool.and_eq_true, Bool.not_eq_true', decide_eq_true_eq, and_assoc]

theorem aliasDecl_of_plain (plain : isPlainAlias td = true) (desk : Desk) :
    aliasDecl td desk =
      if (aliasRivals td).any desk.symbols.lists then ⟨[], desk, .ok ()⟩
      else ⟨aliasBlock td, { desk with symbols := desk.symbols.addType td.name }, .ok ()⟩ := by
  obtain ⟨_, _, _, own, start, other, target⟩ := isPlainAlias_iff.mp plain
  have rivals : (aliasRivals td).any desk.symbols.lists =
      (desk.symbols.hasType td.name || desk.symbols.hasEnum (Ident.capitalized td.name) ||
        desk.symbols.hasEnum (Spelling.typeOf td.spelling)) := by
    simp [aliasRivals, Symbols.lists, Bool.or_assoc]
  rw [aliasDecl_eq, own, start, other, target, rivals]
  cases desk.symbols.hasType td.name || desk.symbols.hasEnum (Ident.capitalized td.name) with
  | true => rfl
  | false =>
      cases desk.symbols.hasEnum (Spelling.typeOf td.spelling) with
      | true => rfl
      | false => rfl

theorem topLevel_alias {next : Option Node} (plain : isPlainAlias td = true) :
    topLevel u next td = aliasDecl td := by
  obtain ⟨kind, origin, _⟩ := isPlainAlias_iff.mp plain
  obtain ⟨info, filler, inner⟩ := td
  simp only [topLevel, show info.isBuiltin = false from origin,
    show info.kind = .typedefDecl from kind]
  rfl

theorem declaresAny_iff {commands : List Command} {keys : List TypeKey} :
    declaresAny commands keys = true ↔ ∃ h ∈ headings commands, h.key ∈ keys := by
  simp only [declaresAny, List.any_eq_true, List.contains_iff_mem]

/-- Where an alias is free before a declaration, an entry against it comes from that declaration. -/
theorem rivals_after {next : Option Node}
    (free : ∀ key ∈ aliasRivals td, desk.symbols.lists key = false)
    (done : (topLevel u next prev desk).result = .ok ()) :
    (aliasRivals td).any (topLevel u next prev desk).desk.symbols.lists =
      declaresAny (topLevel u next prev desk).commands (aliasRivals td) := by
  rw [Bool.eq_iff_iff, List.any_eq_true, declaresAny_iff]
  constructor
  · rintro ⟨key, rival, listed⟩
    rcases (lists_topLevel done key).mp listed with before | ⟨h, hh, rfl⟩
    · rw [free key rival] at before
      cases before
    · exact ⟨h, hh, rival⟩
  · rintro ⟨h, hh, rival⟩
    exact ⟨h.key, rival, (lists_topLevel done h.key).mpr (.inr ⟨h, hh, rfl⟩)⟩

theorem topLevels_pair (plain : isPlainAlias td = true) :
    topLevels u [prev, td] = (do topLevel u (some td) prev; aliasDecl td) := by
  rw [topLevels, topLevels, topLevels, topLevel_alias plain, bind_pure_unit]
  rfl

theorem isNamedByNext_iff {n : Node} : isNamedByNext n = true ↔
    n.info.isBuiltin = false ∧ n.name = "" ∧
      (n.kind = .enumDecl ∨ n.kind = .recordDecl ∧ n.inner.isEmpty = false) := by
  simp only [isNamedByNext, Bool.and_eq_true, Bool.or_eq_true, Bool.not_eq_true',
    decide_eq_true_eq, and_assoc]

theorem tagName_of_named {n : Node} (named : n.name ≠ "") (next : Option Node) :
    tagName n next = n.name := by
  cases next with
  | none => rfl
  | some later => simp [tagName, named]

theorem tagName_alias (unnamed : prev.name = "") (kind : td.kind = .typedefDecl) :
    tagName prev (some td) = td.name := by
  simp [tagName, unnamed, kind]

theorem topLevel_record {next : Option Node} {n : Node} (origin : n.info.isBuiltin = false)
    (kind : n.kind = .recordDecl) : topLevel u next n = recordDecl next n := by
  obtain ⟨info, filler, inner⟩ := n
  have kind : info.kind = .recordDecl := kind
  simp [topLevel, kind, show info.isBuiltin = false from origin]

theorem topLevel_of_kind {next : Option Node} {n : Node} (record : n.kind ≠ .recordDecl)
    (enum : n.kind ≠ .enumDecl) : topLevel u next n = topLevel u none n := by
  obtain ⟨info, filler, inner⟩ := n
  rw [topLevel, topLevel]
  split
  · rfl
  · split <;> first | rfl | exact absurd ‹_› record | exact absurd ‹_› enum

/-- A declaration that is not named by an alias behind it does not look at what is behind it. -/
theorem topLevel_of_not_namedByNext (h : isNamedByNext prev = false) (next : Option Node) :
    topLevel u next prev = topLevel u none prev := by
  rw [← Bool.not_eq_true, isNamedByNext_iff] at h
  by_cases origin : prev.info.isBuiltin = false
  · by_cases record : prev.kind = .recordDecl
    · funext desk
      rw [topLevel_record origin record, topLevel_record origin record, recordDecl_eq,
        recordDecl_eq]
      by_cases named : prev.name = ""
      -- Without a name it has no children either, and writes nothing under any name.
      · have empty : prev.inner.isEmpty = true := by
          by_contra content
          exact h ⟨origin, named, .inr ⟨record, by simpa using content⟩⟩
        rw [if_pos empty, if_pos empty]
      · rw [tagName_of_named named next, tagName_of_named named none]
    · by_cases enum : prev.kind = .enumDecl
      · have named : prev.name ≠ "" := fun unnamed => h ⟨origin, unnamed, .inl enum⟩
        funext desk
        rw [topLevel_enum origin enum, topLevel_enum origin enum, enumDecl_eq, enumDecl_eq,
          tagName_of_named named next, tagName_of_named named none]
      · exact topLevel_of_kind record enum
  · obtain ⟨info, filler, inner⟩ := prev
    simp [topLevel, show info.isBuiltin = true by simpa using origin]

section Named

variable (plain : isPlainAlias td = true)
  (free : ∀ key ∈ aliasRivals td, desk.symbols.lists key = false)
  (origin : prev.info.isBuiltin = false) (unnamed : prev.name = "")
include plain free origin unnamed

theorem unnamedEnum_takes_name (enum : prev.kind = .enumDecl) :
    topLevel u (some td) prev desk =
      (if td.name = "boolean" then pure () else namedEnum prev (Ident.capitalized td.name) :
        Script Unit) desk := by
  obtain ⟨kind, _, named, _⟩ := isPlainAlias_iff.mp plain
  have new : desk.symbols.hasEnum (Ident.capitalized td.name) = false :=
    free (.enum (Ident.capitalized td.name)) (List.mem_cons_of_mem _ List.mem_cons_self)
  rw [topLevel_enum origin enum, enumDecl_eq, tagName_alias unnamed kind, if_neg named, new,
    if_neg Bool.false_ne_true]

theorem unnamedRecord_takes_name (record : prev.kind = .recordDecl)
    (content : prev.inner.isEmpty = false) :
    ∃ written, output (topLevel u (some td) prev desk).commands =
      blocks written ++ recordBlock prev td.name := by
  obtain ⟨kind, _, named, own, _⟩ := isPlainAlias_iff.mp plain
  have new : desk.symbols.hasType td.name = false := free (.other td.name) List.mem_cons_self
  have name := tagName_alias unnamed kind
  have shown : isNamedRecord prev (tagName prev (some td)) = true := by
    rw [name]
    exact isNamedRecord_iff.mpr ⟨content, named, own⟩
  obtain ⟨written, _, out, _⟩ :=
    recordDecl_run (some td) shown (by rwa [name]) (nestedRecords_written prev.inner)
  rw [topLevel_record origin record]
  rw [name] at out
  exact ⟨written, out⟩

end Named

/-- What is named by an alias behind it keeps the alias from being written. -/
theorem declaresAny_of_namedByNext (plain : isPlainAlias td = true)
    (free : ∀ key ∈ aliasRivals td, desk.symbols.lists key = false)
    (h : isNamedByNext prev = true) :
    declaresAny (topLevel u (some td) prev desk).commands (aliasRivals td) = true ↔
      (prev.kind = .enumDecl → td.name ≠ "boolean") := by
  obtain ⟨origin, unnamed, enum | ⟨record, content⟩⟩ := isNamedByNext_iff.mp h
  · rw [unnamedEnum_takes_name plain free origin unnamed enum, declaresAny_iff]
    by_cases boolean : td.name = "boolean"
    · rw [if_pos boolean]
      refine iff_of_false ?_ fun other => other enum boolean
      rintro ⟨h, hh, _⟩
      cases hh
    · rw [if_neg boolean, headings_namedEnum]
      refine iff_of_true ⟨_, List.mem_cons_self, ?_⟩ fun _ => boolean
      exact List.mem_cons_of_mem _ List.mem_cons_self
  · obtain ⟨written, out⟩ :=
      unnamedRecord_takes_name (u := u) plain free origin unnamed record content
    refine iff_of_true ?_ fun enum => by rw [record] at enum; cases enum
    have shown : recordBlock prev td.name ⊆
        output (topLevel u (some td) prev desk).commands := by
      rw [out]
      exact List.subset_append_right _ _
    obtain ⟨h, hh, key⟩ := declared_of_block shown
    exact declaresAny_iff.mpr ⟨h, hh, by rw [key]; exact List.mem_cons_self⟩

end Pairs

/-- An alias that is free before the declaration in front of it is written behind that declaration
exactly if this declares no type with one of the entries that are against the alias. A declaration
without a name that looks ahead to the alias always does, except that an enumeration is dropped if
it would be called `boolean`: such an enumeration is never a list of constants. All others are
written as if nothing followed them. -/
theorem alias_behind_sibling (u : SourceUnit) (prev td : Node) (desk : Desk)
    (plain : isPlainAlias td = true)
    (free : ∀ key ∈ aliasRivals td, desk.symbols.lists key = false)
    (done : (topLevel u (some td) prev desk).result = .ok ()) :
    (topLevels u [prev, td] desk).result = .ok () ∧
    (topLevels u [prev, td] desk).commands = (topLevel u (some td) prev desk).commands ++
      (if declaresAny (topLevel u (some td) prev desk).commands (aliasRivals td) then []
        else aliasBlock td) ∧
    (isNamedByNext prev = true →
      (declaresAny (topLevel u (some td) prev desk).commands (aliasRivals td) = true ↔
        (prev.kind = .enumDecl → td.name ≠ "boolean")) ∧
      (prev.kind = .enumDecl → topLevel u none prev desk = constEnum prev desk ∧
        topLevel u (some td) prev desk =
          (if td.name = "boolean" then pure () else namedEnum prev (Ident.capitalized td.name) :
            Script Unit) desk)) ∧
    (isNamedByNext prev = false → topLevel u (some td) prev = topLevel u none prev) := by
  -- What is against the alias behind the declaration was declared by it.
  have second := aliasDecl_of_plain plain (topLevel u (some td) prev desk).desk
  rw [rivals_after free done] at second
  rw [topLevels_pair plain, bind_of_ok done, second]
  refine ⟨?_, ?_, fun h => ⟨declaresAny_of_namedByNext plain free h, fun enum => ?_⟩,
    fun h => topLevel_of_not_namedByNext h (some td)⟩
  · split <;> rfl
  · split <;> rfl
  · obtain ⟨origin, unnamed, _⟩ := isNamedByNext_iff.mp h
    refine ⟨?_, unnamedEnum_takes_name plain free origin unnamed enum⟩
    rw [topLevel_enum origin enum]
    exact enumDecl_of_unnamed unnamed

/-- `enum { A };` -/
def unnamedEnum : Node :=
  ⟨{ kind := .enumDecl }, [], [⟨{ kind := .enumConstantDecl, name := "A" }, [], []⟩]⟩

/-- `typedef int T;` -/
def intAlias : Node :=
  ⟨{ kind := .typedefDecl, name := "T", type := { spelling := "int" } }, [], []⟩

/-- The enumeration takes the name of an alias that has nothing to do with it, and the alias is
gone. -/
theorem unnamedEnum_takes_alias : isPlainAlias intAlias = true ∧
    (topLevels (single .empty none) [unnamedEnum, intAlias] {}).commands =
      (namedEnum unnamedEnum "T" {}).commands := by
  have plain : isPlainAlias intAlias = true := by decide +kernel
  have free : ∀ key ∈ aliasRivals intAlias, ({} : Symbols).lists key = false := by
    intro key _
    cases key <;> rfl
  obtain ⟨_, commands, named, _⟩ :=
    alias_behind_sibling (single .empty none) unnamedEnum intAlias {} plain free rfl
  obtain ⟨taken, enum⟩ := named rfl
  have name : Ident.capitalized intAlias.name = "T" := by decide +kernel
  rw [commands, if_pos (taken.mpr fun _ => by decide), List.append_nil, (enum rfl).2,
    if_neg (by decide), name]
  exact ⟨plain, rfl⟩

end VFromC.Decl
