import VFromC.Proofs.Emit.Whole
/-!
How names are written inside of declarations.
-/
namespace VFromC

/-- The name is that of a constant or of a global. -/
def Symbols.knows (t : Symbols) (name : String) : Bool :=
  t.hasConst name || t.hasGlobal (Ident.spell name)

end VFromC

namespace VFromC.Emit
open VFromC.Syntax VFromC.Output

variable {α β : Type}

/-- A name as it is written: it keeps its letters, or it is written small. -/
def spelled (keeps : Bool) (name : String) : String :=
  if keeps then Ident.spell name else Ident.spell (Text.lowered name)

theorem spelled_eq_iff {keeps keeps' : Bool} {name : String} :
    spelled keeps name = spelled keeps' name ↔
      Ident.spell (Text.lowered name) = Ident.spell name ∨ keeps = keeps' := by
  cases keeps <;> cases keeps' <;> simp [spelled, eq_comm]

theorem variableText_eq (symbols : Symbols) (name : String) :
    variableText symbols name = spelled (symbols.knows name) name := rfl

/-- Variables are declared small, and what is known is referred to with its letters kept. -/
def IsSpelled (symbols : Symbols) : Command → Prop
  | .declare role what s => role = .inner ∧ s = spelled false what.name
  | .refer what s =>
      what.kind ≠ .enumConstantDecl → s = spelled (symbols.knows what.name) what.name
  | _ => True

/-- The script keeps the symbols and goes by them where it writes names. -/
def Spells (s : Script α) : Prop :=
  ∀ desk, (s desk).desk.symbols = desk.symbols ∧
    ∀ c ∈ (s desk).commands, IsSpelled desk.symbols c

theorem spells_quiet {s : Script α} (hd : ∀ desk, (s desk).desk = desk)
    (hc : ∀ desk, (s desk).commands = []) : Spells s := by
  intro desk
  rw [hd, hc]
  exact ⟨rfl, fun _ h => absurd h List.not_mem_nil⟩

theorem spells_command {c : Command} (h : ∀ symbols, IsSpelled symbols c) :
    Spells (Script.command c) :=
  fun _ => ⟨rfl, List.forall_mem_singleton.mpr (h _)⟩

theorem Spells.bind {s : Script α} {f : α → Script β} (hs : Spells s) (hf : ∀ a, Spells (f a)) :
    Spells (s >>= f) := by
  intro desk
  obtain ⟨same, first⟩ := hs desk
  rcases hr : s desk with ⟨commands, next, e | a⟩
  · rw [hr] at same first
    rw [Script.bind_apply_error hr]
    exact ⟨same, first⟩
  · rw [hr] at same first
    rw [Script.bind_apply_ok hr]
    obtain ⟨same', second⟩ := hf a next
    dsimp only at same
    rw [same] at same' second
    exact ⟨same', List.forall_mem_append.mpr ⟨first, second⟩⟩

theorem Spells.within {s : Script α} (around : Surroundings) (hs : Spells s) :
    Spells (Script.within around s) :=
  fun desk => hs { desk with context := around.enter desk.context }

theorem spells_reference (n : Node) : Spells (reference n) := by
  unfold reference
  split
  · exact spells_command fun _ => trivial
  · rename_i ref _
    intro desk
    refine ⟨rfl, List.forall_mem_singleton.mpr fun other => ?_⟩
    change referenceText desk.symbols desk.context ref = _
    rw [referenceText, if_neg other, variableText_eq]

theorem congruence_spells : EmitterCongruence fun {α : Type} (s _ : Script α) => Spells s where
  pure _ := spells_quiet (fun _ => rfl) fun _ => rfl
  fail _ := spells_quiet (fun _ => rfl) fun _ => rfl
  bind := Spells.bind
  text {c} h := by
    cases c with
    | write | line | endLine | note => exact spells_command fun _ => trivial
    | _ => cases h
  declare _ := spells_command fun _ => ⟨rfl, rfl⟩
  reference := spells_reference
  symbols := spells_quiet (fun _ => rfl) fun _ => rfl
  context _ h := (spells_quiet (fun _ => rfl) fun _ => rfl).bind h
  indented h :=
    (spells_command (c := .deeper) fun _ => trivial).bind fun _ => h.bind fun _ =>
      spells_command (c := .shallower) fun _ => trivial
  within _ := Spells.within _
  index := Spells.within _
  switch _ := Spells.within _

theorem emitter_spells (depth : Nat) (n : Node) :
    Related (fun {α : Type} (s _ : Script α) => Spells s) (emitter depth) (emitter depth) n := by
  refine emitter_related congruence_spells (P := fun _ => True) (fun _ _ => trivial) ?_ ?_ depth
    trivial
  · exact fun _ _ _ => spells_command fun _ => trivial
  · exact fun _ _ _ => spells_command fun _ => trivial

end VFromC.Emit
