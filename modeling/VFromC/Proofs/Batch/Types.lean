import Mathlib.Data.List.Nodup
import VFromC.Proofs.Batch.Declarations
import VFromC.Proofs.Batch.Growth
import VFromC.Proofs.Decl.Headings
/-!
The types that a whole batch declares.

No two declarations of a batch share an entry in the tables of types. The tables do not tell types
apart by the names that are written, so that a name is declared twice exactly where two entries have
it: two names in C that differ in the case of a letter or in leading underscores only, or an
enumeration and another type.
-/
namespace VFromC
open VFromC.Syntax VFromC.Output VFromC.Emit VFromC.Decl

namespace Batch

/-- The commands of the units that can be written, unit by unit. -/
def walks (b : Batch) : List (Node × Option String) → List (List Command)
  | [] => []
  | unit :: rest =>
      let done := b.render unit.1 unit.2
      if done.result.isOk then
        (writeUnit (b.unitOf unit.1 unit.2) { symbols := b.symbols }).commands ::
          done.batch.walks rest
      else done.batch.walks rest

section Cons

variable {b : Batch} {unit : Node × Option String} {rest : List (Node × Option String)}

theorem cons_of_error {e : Fault} (h : (b.render unit.1 unit.2).result = .error e) :
    b.walks (unit :: rest) = (b.render unit.1 unit.2).batch.walks rest ∧
      b.texts (unit :: rest) = (b.render unit.1 unit.2).batch.texts rest := by
  simp [walks, texts, h, Except.isOk, Except.toBool, Except.toOption]

theorem cons_of_ok {text : String} (h : (b.render unit.1 unit.2).result = .ok text) :
    b.walks (unit :: rest) =
        (writeUnit (b.unitOf unit.1 unit.2) { symbols := b.symbols }).commands ::
          (b.render unit.1 unit.2).batch.walks rest ∧
      b.texts (unit :: rest) = text :: (b.render unit.1 unit.2).batch.texts rest := by
  simp [walks, texts, h, Except.isOk, Except.toBool, Except.toOption]

end Cons

/-- The text of a unit is what its commands leave on an empty draft. -/
def Finishes (shared : Bool) (commands : List Command) (text : String) : Prop :=
  ∃ body, (({} : Draft).run commands).finish = .ok body ∧ text = unitText shared body

theorem walks_finish (b : Batch) (units : List (Node × Option String)) :
    List.Forall₂ (Finishes b.shared) (b.walks units) (b.texts units) := by
  induction units generalizing b with
  | nil => exact .nil
  | cons unit rest ih =>
      have later := ih (b.render unit.1 unit.2).batch
      rw [b.shared_render unit.1 unit.2] at later
      cases h : (b.render unit.1 unit.2).result with
      | error e =>
          rw [(cons_of_error h).1, (cons_of_error h).2]
          exact later
      | ok text =>
          obtain ⟨_, body, finished, whole⟩ := walk_of_render h
          rw [(cons_of_ok h).1, (cons_of_ok h).2]
          exact .cons ⟨body, finished, whole⟩ later

/-- The tables of types after a unit are those that its walk leaves. -/
theorem lists_render (b : Batch) (root : Node) (source : Option String) (key : TypeKey) :
    (b.render root source).batch.symbols.lists key =
      (writeUnit (b.unitOf root source) { symbols := b.symbols }).desk.symbols.lists key := by
  have left : (b.walked root source).lists key =
      (writeUnit (b.unitOf root source) { symbols := b.symbols }).desk.symbols.lists key := by
    rw [walked, SourceUnit.compose, Symbols.addTexts_eq]
    cases key <;> rfl
  rw [← left]
  rcases b.symbols_render root source with after | after
  · rw [after]
  · rw [after]
    cases key <;> rfl

/-- Through all units, also where some fail, types are declared as the tables admit them. -/
theorem walks_headed (b : Batch) (units : List (Node × Option String)) :
    Headed b.symbols (b.walks units).flatten (b.after units).symbols := by
  induction units generalizing b with
  | nil => exact headed_of_none (fun _ h => h) rfl
  | cons unit rest ih =>
      have later := ih (b.render unit.1 unit.2).batch
      have grows (key : TypeKey) (h : b.symbols.lists key = true) :
          (b.render unit.1 unit.2).batch.symbols.lists key = true := by
        rw [lists_render]
        exact grows_of_made (writeUnit_makes (b.unitOf unit.1 unit.2) { symbols := b.symbols }) key h
      cases h : (b.render unit.1 unit.2).result with
      | error e =>
          rw [(cons_of_error h).1]
          exact (headed_of_none grows rfl : Headed b.symbols [] _).append later
      | ok text =>
          obtain ⟨done, _⟩ := walk_of_render h
          have here := writeUnit_headed (b.unitOf unit.1 unit.2) { symbols := b.symbols } done
          rw [(cons_of_ok h).1, List.flatten_cons]
          apply Headed.append _ later
          exact { here with
            grows
            entered := fun h hh => (b.lists_render unit.1 unit.2 h.key).trans (here.entered h hh) }

end Batch

theorem nodup_name_iff {written : List Heading} (once : (written.map Heading.key).Nodup) :
    (written.map Heading.name).Nodup ↔
      ∀ h ∈ written, ∀ h' ∈ written, h.name = h'.name → h.key = h'.key := by
  have whole : written.Nodup := once.of_map
  have sameKey := (List.nodup_map_iff_inj_on whole).mp once
  rw [List.nodup_map_iff_inj_on whole]
  constructor
  · intro distinct h hh h' hh' same
    rw [distinct h hh h' hh' same]
  · intro keys h hh h' hh' same
    exact sameKey h hh h' hh' (keys h hh h' hh' same)

/-- The types that are declared in the texts of a batch have different entries in the tables of
types, and no alias follows an enumeration of its capitalized name. Their names are different
exactly if no two entries have the same name. -/
theorem types_declared_by_entry (shared : Bool) (units : List (Node × Option String)) :
    let start : Batch := { shared }
    let written := (start.walks units).flatMap headings
    List.Forall₂ (Batch.Finishes shared) (start.walks units) (start.texts units) ∧
    written.Pairwise (fun earlier later => earlier.key ∉ later.rivals) ∧
    ((written.map Heading.name).Nodup ↔
      ∀ h ∈ written, ∀ h' ∈ written, h.name = h'.name → h.key = h'.key) := by
  intro start written
  have all : written = headings (start.walks units).flatten :=
    (List.filterMap_flatten ..).symm
  have apart : written.Pairwise (fun earlier later => earlier.key ∉ later.rivals) := by
    rw [all]
    exact (start.walks_headed units).apart
  refine ⟨start.walks_finish units, apart, ?_⟩
  apply nodup_name_iff
  apply List.Pairwise.map Heading.key _ apart
  intro h h' strange same
  exact strange (same ▸ h'.key_mem_rivals)

/-- A structure, and an alias for it that differs from its name only in the first letter. -/
def twinUnit : Node :=
  let place : Place := { file := "a.c" }
  let field : Node := ⟨{ kind := .fieldDecl, name := "x", type := { spelling := "int" } }, [], []⟩
  let type : TypeText := { spelling := "struct point" }
  ⟨{}, [], [⟨{ kind := .recordDecl, name := "point", tagUsed := "struct", place }, [], [field]⟩,
    ⟨{ kind := .typedefDecl, name := "Point", type, place }, [], []⟩]⟩

/-- Both declarations have entries of their own and the same name. -/
theorem twinUnit_repeats_name :
    let start : Batch := {}
    start.texts [(twinUnit, none)] = ["[translated]\nmodule main\n\n" ++
      "struct Point \x7b\n\tx int\n\x7d\n\ntype Point = Point\n\n"] ∧
    ¬ (((start.walks [(twinUnit, none)]).flatMap headings).map Heading.name).Nodup := by
  intro start
  obtain ⟨written, texts⟩ : (start.walks [(twinUnit, none)]).flatMap headings =
        [.record false "point", .aliased "Point" "Point"] ∧
      start.texts [(twinUnit, none)] = ["[translated]\nmodule main\n\n" ++
        "struct Point \x7b\n\tx int\n\x7d\n\ntype Point = Point\n\n"] := by
    decide +kernel
  refine ⟨texts, ?_⟩
  have criterion := (types_declared_by_entry false [(twinUnit, none)]).2.2
  rw [criterion, written]
  intro agree
  have same := agree (.record false "point") (by simp) (.aliased "Point" "Point") (by simp)
    (by decide)
  simp [Heading.key] at same

end VFromC
