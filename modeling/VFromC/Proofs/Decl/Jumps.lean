import VFromC.Proofs.Decl.Related
import VFromC.Proofs.Syntax.Prepare
/-!
Where the labels and jumps of the output come from, and which faults the walk over a tree finds.
-/
namespace VFromC.Decl
open VFromC.Syntax VFromC.Output VFromC.Emit

/-- A label or a jump comes from a node of the tree. -/
def ComesFrom (root : Node) : Command → Prop
  | .label id name =>
      ∃ n : Node, n.Below root ∧ n.kind = .labelStmt ∧ n.info.declId = id ∧ n.name = name
  | .jump id => ∃ n : Node, n.Below root ∧ n.kind = .gotoStmt ∧ n.info.targetLabelId = id
  | _ => True

/-- All labels and jumps of the script come from the tree, and so do its faults. -/
def Traced (root : Node) {α : Type} (s : Script α) : Prop :=
  ∀ desk, (∀ c ∈ (s desk).commands, ComesFrom root c) ∧
    ∀ e, (s desk).result = .error e → IsOfTree e

variable {root : Node} {α β : Type}

theorem traced_quiet {s : Script α} (hc : ∀ desk, (s desk).commands = [])
    (hr : ∀ desk, ∃ a, (s desk).result = .ok a) : Traced root s := by
  intro desk
  obtain ⟨a, ha⟩ := hr desk
  rw [hc, ha]
  exact ⟨fun _ h => absurd h List.not_mem_nil, nofun⟩

theorem traced_command {c : Command} (h : ComesFrom root c) : Traced root (Script.command c) :=
  fun _ => ⟨List.forall_mem_singleton.mpr h, nofun⟩

theorem Traced.bind {s : Script α} {f : α → Script β} (hs : Traced root s)
    (hf : ∀ a, Traced root (f a)) : Traced root (s >>= f) := by
  intro desk
  obtain ⟨from₁, faults₁⟩ := hs desk
  rcases hr : s desk with ⟨commands, next, e | a⟩
  · rw [hr] at from₁ faults₁
    rw [Script.bind_apply_error hr]
    refine ⟨from₁, ?_⟩
    rintro _ ⟨⟩
    exact faults₁ e rfl
  · rw [hr] at from₁
    obtain ⟨from₂, faults₂⟩ := hf a next
    rw [Script.bind_apply_ok hr]
    exact ⟨List.forall_mem_append.mpr ⟨from₁, from₂⟩, faults₂⟩

theorem Traced.within {s : Script α} (around : Surroundings) (hs : Traced root s) :
    Traced root (Script.within around s) :=
  fun desk => hs { desk with context := around.enter desk.context }

theorem traced_reference (n : Node) : Traced root (reference n) := by
  unfold reference
  split
  · exact traced_command trivial
  · refine (traced_quiet (fun _ => rfl) fun _ => ⟨_, rfl⟩).bind fun _ => ?_
    exact (traced_quiet (fun _ => rfl) fun _ => ⟨_, rfl⟩).bind fun _ => traced_command trivial

theorem traced_congruence (root : Node) :
    DeclCongruence fun {α : Type} (s _ : Script α) => Traced root s where
  pure _ := traced_quiet (fun _ => rfl) fun _ => ⟨_, rfl⟩
  fail h := by
    refine fun _ => ⟨fun _ h => absurd h List.not_mem_nil, ?_⟩
    rintro _ ⟨⟩
    exact h
  bind := Traced.bind
  text {c} h := by
    cases c with
    | write | line | endLine | note => exact traced_command trivial
    | _ => cases h
  declare _ := traced_command trivial
  reference := traced_reference
  symbols := traced_quiet (fun _ => rfl) fun _ => ⟨_, rfl⟩
  context _ h := (traced_quiet (fun _ => rfl) fun _ => ⟨_, rfl⟩).bind h
  indented h :=
    (traced_command (c := .deeper) trivial).bind fun _ => h.bind fun _ =>
      traced_command (c := .shallower) trivial
  within _ := Traced.within _
  index := Traced.within _
  switch _ := Traced.within _
  register _ := traced_quiet (fun _ => rfl) fun _ => ⟨_, rfl⟩
  setContext _ := traced_quiet (fun _ => rfl) fun _ => ⟨_, rfl⟩
  named _ _ _ := traced_command trivial
  mark := traced_command trivial
  take _ := traced_command trivial

theorem whole_traced {n : Node} (h : n.Below root) :
    Related (fun {α : Type} (s _ : Script α) => Traced root s) whole whole n := by
  refine whole_related_of_emitter fun depth => emitter_related
    (traced_congruence root).toEmitterCongruence (Node.hereditary_below root) ?_ ?_ depth h
  · exact fun m hm hk => traced_command ⟨m, hm, hk, rfl⟩
  · exact fun m hm hk => traced_command ⟨m, hm, hk, rfl, rfl⟩

theorem writeUnit_traced (u : SourceUnit) : Traced u.root (writeUnit u) :=
  topLevels_related (traced_congruence u.root) (fun _ => traced_command trivial) u u.root.inner
    fun _ hn _ hm => whole_traced (hm.trans (Node.below_of_mem_inner hn))

end VFromC.Decl
