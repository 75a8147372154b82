import Mathlib.Data.List.Infix
import VFromC.Symbols
/-!
The history of the symbols: which changes are made, in order, and what they leave as it was.
-/
namespace VFromC
open VFromC.Spelling

/-- A change of the symbols while a unit is written. -/
inductive Change where
  | type (name : String)
  | function (name : String)
  | const (name : String)
  | enum (name : String) (members : List String)
  | global (g : Global)

/-- The name of a global that is entered. -/
def Change.global? : Change → Option String
  | .global g => some g.name
  | _ => none

def globalsEntered (changes : List Change) : List String := changes.filterMap Change.global?

namespace Symbols

def change (t : Symbols) : Change → Symbols
  | .type name => t.addType name
  | .function name => t.addFunction name
  | .const name => t.addConst name
  | .enum name members => t.addEnum name members
  | .global g => t.addGlobal g

def replay (t : Symbols) (changes : List Change) : Symbols := changes.foldl change t

/-- An enumeration is new when it is entered, and a global is new or completes one of its type that
has no storage. -/
def Permits (t : Symbols) : Change → Prop
  | .enum name _ => t.hasEnum name = false
  | .global g => t.checkGlobal g.name g.type = .ok .emit
  | _ => True

/-- Each change is permitted by the symbols at its time. -/
def PermitsAll (t : Symbols) : List Change → Prop
  | [] => True
  | c :: rest => t.Permits c ∧ (t.change c).PermitsAll rest

/-- Enumerations that have members are among the known ones. -/
def EnumsKnown (t : Symbols) : Prop := ∀ entry ∈ t.members, entry.1 ∈ t.enums

/-- What `s` tells is still so in `t`. A global with storage stays as it is, with its text, and one
without storage gives way only to one of the same type. -/
structure Grows (s t : Symbols) : Prop where
  hasType : ∀ name, s.hasType name = true → t.hasType name = true
  hasEnum : ∀ name, s.hasEnum name = true → t.hasEnum name = true
  hasFunction : ∀ name, s.hasFunction name = true → t.hasFunction name = true
  hasConst : ∀ name, s.hasConst name = true → t.hasConst name = true
  hasGlobal : ∀ name, s.hasGlobal name = true → t.hasGlobal name = true
  usesFile : s.usesFile = true → t.usesFile = true
  enumOf : ∀ member owner, s.enumOf member = some owner → t.enumOf member = some owner
  final : ∀ name g, s.globals.lookup name = some g → g.isExtern = false →
    t.globals.lookup name = some g ∧ t.globalTexts.lookup name = s.globalTexts.lookup name
  completed : ∀ name g, s.globals.lookup name = some g → g.isExtern = true →
    ∃ g', t.globals.lookup name = some g' ∧ sameType g.type g'.type = true

end Symbols

section Entries

variable {α : Type}

def keysOf (table : List (String × α)) : List String := table.map Prod.fst

theorem insertName_cons_of_ne {name first : String} (h : name ≠ first) (names : List String) :
    insertName name (first :: names) = first :: insertName name names := by
  by_cases hm : name ∈ names
  · simp [insertName, hm]
  · simp [insertName, hm, h]

theorem keysOf_putEntry (key : String) (value : α) (table : List (String × α)) :
    keysOf (putEntry key value table) = insertName key (keysOf table) := by
  induction table with
  | nil => rfl
  | cons entry rest ih =>
      obtain ⟨k, v⟩ := entry
      by_cases h : k = key
      · subst h
        simp [putEntry, keysOf, insertName]
      · have other : keysOf (putEntry key value ((k, v) :: rest)) =
            k :: keysOf (putEntry key value rest) := by
          simp [putEntry, h, keysOf]
        rw [other, ih]
        exact (insertName_cons_of_ne (fun same => h same.symm) _).symm

theorem putEntry_of_new {key : String} (value : α) {table : List (String × α)}
    (h : key ∉ keysOf table) : putEntry key value table = table ++ [(key, value)] := by
  induction table with
  | nil => rfl
  | cons entry rest ih =>
      obtain ⟨k, v⟩ := entry
      have parts : key ≠ k ∧ key ∉ keysOf rest := by
        simpa only [keysOf, List.map_cons, List.mem_cons, not_or] using h
      rw [putEntry, if_neg fun same => parts.1 same.symm, ih parts.2, List.cons_append]

theorem mem_putEntry {key : String} {value : α} {table : List (String × α)} {entry : String × α}
    (h : entry ∈ putEntry key value table) : entry = (key, value) ∨ entry ∈ table := by
  induction table with
  | nil => exact .inl (List.mem_singleton.mp h)
  | cons first rest ih =>
      obtain ⟨k, v⟩ := first
      rw [putEntry] at h
      split at h
      · rcases List.mem_cons.mp h with rfl | h
        · exact .inl rfl
        · exact .inr (List.mem_cons_of_mem _ h)
      · rcases List.mem_cons.mp h with rfl | h
        · exact .inr List.mem_cons_self
        · exact (ih h).imp id (List.mem_cons_of_mem _)

end Entries

section SameType

theorem sameType_refl (a : String) : sameType a a = true := by
  simp [sameType]

theorem sameType_trans {a b c : String} (h₁ : sameType a b = true) (h₂ : sameType b c = true) :
    sameType a c = true := by
  simp only [sameType, Bool.or_eq_true, Bool.and_eq_true, decide_eq_true_eq] at h₁ h₂ ⊢
  rcases h₁ with rfl | ⟨⟨ha, hb⟩, hab⟩
  · exact h₂
  · rcases h₂ with rfl | ⟨⟨_, hc⟩, hbc⟩
    · exact .inr ⟨⟨ha, hb⟩, hab⟩
    · exact .inr ⟨⟨ha, hc⟩, hab.trans hbc⟩

end SameType

namespace Symbols

variable {s t u : Symbols} {c : Change} {changes : List Change}

theorem replay_append (t : Symbols) (c₁ c₂ : List Change) :
    t.replay (c₁ ++ c₂) = (t.replay c₁).replay c₂ :=
  List.foldl_append

theorem PermitsAll.append {c₁ c₂ : List Change} (h₁ : t.PermitsAll c₁)
    (h₂ : (t.replay c₁).PermitsAll c₂) : t.PermitsAll (c₁ ++ c₂) := by
  induction c₁ generalizing t with
  | nil => exact h₂
  | cons c rest ih => exact ⟨h₁.1, ih h₁.2 h₂⟩

/-- A global that is passed over finds one of the same type that has storage. -/
theorem checkGlobal_duplicate {name type : String}
    (h : t.checkGlobal name type = .ok .duplicate) :
    ∃ g, t.globals.lookup name = some g ∧ g.isExtern = false ∧ sameType g.type type = true := by
  unfold checkGlobal at h
  split at h
  · cases h
  · rename_i g hg
    split at h
    · cases h
    · rename_i same
      split at h
      · cases h
      · rename_i storage
        exact ⟨g, hg, by simpa using storage, by simpa using same⟩

/-- A global is refused only when it finds one of another type. -/
theorem checkGlobal_error {name type : String} {e : Fault}
    (h : t.checkGlobal name type = .error e) :
    ∃ g, t.globals.lookup name = some g ∧ sameType g.type type = false := by
  unfold checkGlobal at h
  split at h
  · cases h
  · rename_i g hg
    split at h
    · rename_i differs
      exact ⟨g, hg, by simpa using differs⟩
    · split at h <;> cases h

/-- A global that may be entered finds nothing, or a declaration of the same type without
storage. -/
theorem checkGlobal_emit {name type : String} (h : t.checkGlobal name type = .ok .emit) :
    t.globals.lookup name = none ∨
      ∃ g, t.globals.lookup name = some g ∧ g.isExtern = true ∧ sameType g.type type = true := by
  unfold checkGlobal at h
  split at h
  · exact .inl ‹_›
  · rename_i g hg
    split at h
    · cases h
    · rename_i same
      split at h
      · rename_i hext
        exact .inr ⟨g, hg, hext, by simpa using same⟩
      · cases h

theorem Grows.refl (s : Symbols) : Grows s s where
  hasType _ h := h
  hasEnum _ h := h
  hasFunction _ h := h
  hasConst _ h := h
  hasGlobal _ h := h
  usesFile h := h
  enumOf _ _ h := h
  final _ _ h _ := ⟨h, rfl⟩
  completed _ g h _ := ⟨g, h, sameType_refl g.type⟩

theorem Grows.trans (h₁ : Grows s t) (h₂ : Grows t u) : Grows s u where
  hasType name h := h₂.hasType name (h₁.hasType name h)
  hasEnum name h := h₂.hasEnum name (h₁.hasEnum name h)
  hasFunction name h := h₂.hasFunction name (h₁.hasFunction name h)
  hasConst name h := h₂.hasConst name (h₁.hasConst name h)
  hasGlobal name h := h₂.hasGlobal name (h₁.hasGlobal name h)
  usesFile h := h₂.usesFile (h₁.usesFile h)
  enumOf member owner h := h₂.enumOf member owner (h₁.enumOf member owner h)
  final name g hg storage := by
    obtain ⟨kept, text⟩ := h₁.final name g hg storage
    obtain ⟨kept', text'⟩ := h₂.final name g kept storage
    exact ⟨kept', text'.trans text⟩
  completed name g hg ext := by
    obtain ⟨g', hg', same⟩ := h₁.completed name g hg ext
    rcases he : g'.isExtern with _ | _
    · exact ⟨g', (h₂.final name g' hg' he).1, same⟩
    · obtain ⟨g'', hg'', same'⟩ := h₂.completed name g' hg' he
      exact ⟨g'', hg'', sameType_trans same same'⟩

/-- Tables that only get longer tell what they told. -/
theorem grows_of_tables (types : s.types ⊆ t.types) (enums : s.enums ⊆ t.enums)
    (functions : s.functions ⊆ t.functions) (consts : s.consts ⊆ t.consts)
    (members : s.members <+: t.members) (usesFile : s.usesFile = t.usesFile)
    (texts : t.globalTexts = s.globalTexts)
    (globals : ∀ name g, s.globals.lookup name = some g → t.globals.lookup name = some g ∨
      g.isExtern = true ∧ ∃ g', t.globals.lookup name = some g' ∧ sameType g.type g'.type = true) :
    Grows s t where
  hasType name h := by
    simp only [Symbols.hasType, List.contains_iff_mem] at h ⊢
    exact types h
  hasEnum name h := by
    simp only [Symbols.hasEnum, List.contains_iff_mem] at h ⊢
    exact enums h
  hasFunction name h := by
    simp only [Symbols.hasFunction, List.contains_iff_mem] at h ⊢
    exact functions h
  hasConst name h := by
    simp only [Symbols.hasConst, List.contains_iff_mem] at h ⊢
    exact consts h
  hasGlobal name h := by
    obtain ⟨g, hg⟩ := Option.isSome_iff_exists.mp h
    rcases globals name g hg with hg' | ⟨_, g', hg', _⟩
    · exact Option.isSome_iff_exists.mpr ⟨g, hg'⟩
    · exact Option.isSome_iff_exists.mpr ⟨g', hg'⟩
  usesFile h := usesFile ▸ h
  enumOf member owner h := by
    obtain ⟨later, hl⟩ := members
    obtain ⟨entry, he, rfl⟩ := Option.map_eq_some_iff.mp h
    rw [Symbols.enumOf, ← hl, List.find?_append, he]
    rfl
  final name g hg storage := by
    rcases globals name g hg with hg' | ⟨ext, _⟩
    · exact ⟨hg', by rw [texts]⟩
    · rw [storage] at ext
      cases ext
  completed name g hg _ := by
    rcases globals name g hg with hg' | ⟨_, later⟩
    · exact ⟨g, hg', sameType_refl g.type⟩
    · exact later

theorem subset_insertName (name : String) (names : List String) : names ⊆ insertName name names :=
  fun _ h => mem_insertName.mpr (.inr h)

theorem grows_addEnum (known : EnumsKnown s) {name : String} (h : s.hasEnum name = false)
    (members : List String) : Grows s (s.addEnum name members) := by
  -- The name has no members yet, so that its entry comes last.
  have fresh : name ∉ keysOf s.members := by
    intro hm
    obtain ⟨entry, he, rfl⟩ := List.mem_map.mp hm
    have inside : s.hasEnum entry.1 = true := by
      simpa only [hasEnum, List.contains_iff_mem] using known entry he
    rw [h] at inside
    cases inside
  refine grows_of_tables (List.Subset.refl _) (subset_insertName name _) (List.Subset.refl _)
    (List.Subset.refl _) ?_ rfl rfl fun _ _ hg => .inl hg
  simp only [addEnum, putEntry_of_new _ fresh]
  exact List.prefix_append _ _

theorem grows_addGlobal {g : Global} (h : s.checkGlobal g.name g.type = .ok .emit) :
    Grows s (s.addGlobal g) := by
  refine grows_of_tables (List.Subset.refl _) (List.Subset.refl _) (List.Subset.refl _)
    (List.Subset.refl _) (List.prefix_refl _) rfl rfl fun name g' hg' => ?_
  simp only [addGlobal, lookup_putEntry]
  by_cases same : name = g.name
  · subst same
    rw [if_pos rfl]
    rcases checkGlobal_emit h with new | ⟨old, hold, ext, type⟩
    · rw [new] at hg'
      cases hg'
    · cases hold.symm.trans hg'
      exact .inr ⟨ext, g, rfl, type⟩
  · rw [if_neg same]
    exact .inl hg'

/-- One change that is permitted only adds. -/
theorem grows_change (known : EnumsKnown s) (h : s.Permits c) : Grows s (s.change c) := by
  cases c with
  | type name =>
      exact grows_of_tables (subset_insertName name _) (List.Subset.refl _) (List.Subset.refl _)
        (List.Subset.refl _) (List.prefix_refl _) rfl rfl fun _ _ hg => .inl hg
  | function name =>
      exact grows_of_tables (List.Subset.refl _) (List.Subset.refl _) (subset_insertName name _)
        (List.Subset.refl _) (List.prefix_refl _) rfl rfl fun _ _ hg => .inl hg
  | const name =>
      exact grows_of_tables (List.Subset.refl _) (List.Subset.refl _) (List.Subset.refl _)
        (subset_insertName name _) (List.prefix_refl _) rfl rfl fun _ _ hg => .inl hg
  | enum name members => exact grows_addEnum known h members
  | global g => exact grows_addGlobal h

theorem EnumsKnown.change (known : EnumsKnown s) (c : Change) : EnumsKnown (s.change c) := by
  cases c with
  | enum name members =>
      intro entry he
      rcases mem_putEntry he with rfl | he
      · exact mem_insertName.mpr (.inl rfl)
      · exact mem_insertName.mpr (.inr (known entry he))
  | _ => exact known

/-- A history of permitted changes only adds. -/
theorem grows_replay (known : EnumsKnown s) (h : s.PermitsAll changes) :
    Grows s (s.replay changes) ∧ EnumsKnown (s.replay changes) := by
  induction changes generalizing s with
  | nil => exact ⟨.refl s, known⟩
  | cons c rest ih =>
      obtain ⟨later, known'⟩ := ih (known.change c) h.2
      exact ⟨(grows_change known h.1).trans later, known'⟩

/-- A global with storage is not entered again. -/
theorem not_entered_of_final {name : String} {g : Global} (known : EnumsKnown s)
    (hg : s.globals.lookup name = some g) (storage : g.isExtern = false)
    (h : s.PermitsAll changes) : name ∉ globalsEntered changes := by
  induction changes generalizing s with
  | nil => exact List.not_mem_nil
  | cons c rest ih =>
      have later := ih (known.change c) ((grows_change known h.1).final name g hg storage).1 h.2
      cases c with
      | global g' =>
          simp only [globalsEntered, List.filterMap_cons, Change.global?, List.mem_cons, not_or]
          refine ⟨?_, later⟩
          rintro rfl
          rcases checkGlobal_emit h.1 with new | ⟨old, hold, ext, _⟩
          · rw [new] at hg
            cases hg
          · cases hold.symm.trans hg
            rw [storage] at ext
            cases ext
      | _ => exact later

theorem globals_replay (s : Symbols) (changes : List Change) :
    keysOf (s.replay changes).globals =
      (globalsEntered changes).foldl (fun names name => insertName name names)
        (keysOf s.globals) := by
  induction changes generalizing s with
  | nil => rfl
  | cons c rest ih =>
      refine (ih (s.change c)).trans ?_
      cases c with
      | global g =>
          simp only [change, addGlobal, keysOf_putEntry]
          rfl
      | _ => rfl

/-- Changes leave alone what each of them leaves alone. -/
theorem replay_keeps {α : Type} (view : Symbols → α) (kept : ∀ s c, view (change s c) = view s)
    (s : Symbols) (changes : List Change) : view (s.replay changes) = view s := by
  induction changes generalizing s with
  | nil => rfl
  | cons c rest ih => exact (ih (s.change c)).trans (kept s c)

theorem globalTexts_replay (s : Symbols) (changes : List Change) :
    (s.replay changes).globalTexts = s.globalTexts :=
  replay_keeps globalTexts (fun _ c => by cases c <;> rfl) s changes

theorem usesFile_replay (s : Symbols) (changes : List Change) :
    (s.replay changes).usesFile = s.usesFile :=
  replay_keeps usesFile (fun _ c => by cases c <;> rfl) s changes

section Texts

variable {texts : List (String × String)}

theorem addTexts_eq (t : Symbols) (texts : List (String × String)) :
    t.addTexts texts =
      { t with
        globalTexts :=
          texts.foldl (fun table entry => putEntry entry.1 entry.2 table) t.globalTexts } := by
  induction texts generalizing t with
  | nil => rfl
  | cons entry rest ih => exact ih (t.setGlobalText entry.1 entry.2)

theorem keysOf_addTexts (t : Symbols) (texts : List (String × String)) :
    keysOf (t.addTexts texts).globalTexts =
      (keysOf texts).foldl (fun names name => insertName name names) (keysOf t.globalTexts) := by
  induction texts generalizing t with
  | nil => rfl
  | cons entry rest ih =>
      refine (ih (t.setGlobalText entry.1 entry.2)).trans ?_
      simp only [setGlobalText, keysOf_putEntry]
      rfl

theorem lookup_addTexts {name : String} (t : Symbols) (h : name ∉ keysOf texts) :
    (t.addTexts texts).globalTexts.lookup name = t.globalTexts.lookup name := by
  induction texts generalizing t with
  | nil => rfl
  | cons entry rest ih =>
      have parts : name ≠ entry.1 ∧ name ∉ keysOf rest := by
        simpa only [keysOf, List.map_cons, List.mem_cons, not_or] using h
      refine (ih (t.setGlobalText entry.1 entry.2) parts.2).trans ?_
      rw [setGlobalText, lookup_putEntry, if_neg parts.1]

/-- Texts may be added for globals that had no storage. -/
theorem Grows.addTexts (h : Grows s t)
    (apart : ∀ name g, s.globals.lookup name = some g → g.isExtern = false → name ∉ keysOf texts) :
    Grows s (t.addTexts texts) := by
  have final : ∀ name g, s.globals.lookup name = some g → g.isExtern = false →
      (t.addTexts texts).globals.lookup name = some g ∧
        (t.addTexts texts).globalTexts.lookup name = s.globalTexts.lookup name := by
    intro name g hg storage
    obtain ⟨kept, text⟩ := h.final name g hg storage
    rw [lookup_addTexts t (apart name g hg storage)]
    rw [addTexts_eq]
    exact ⟨kept, text⟩
  rw [addTexts_eq] at final ⊢
  exact { h with final }

end Texts

theorem Grows.markFile (h : Grows s t) : Grows s t.markFile :=
  { h with usesFile := fun _ => rfl }

end Symbols

end VFromC
