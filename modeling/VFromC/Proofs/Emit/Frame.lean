import VFromC.Proofs.Emit.Whole
import VFromC.Proofs.Output.Level
/-!
Whatever an emitter writes, it leaves the desk as it was, and once a node is written the
indentation is what it was before.
-/
namespace VFromC.Emit
open VFromC.Syntax VFromC.Output

variable {α β : Type}

/-- The script gives the desk back unchanged, whether it succeeds or fails, and its commands only
add to the page. Where it succeeds, they end at the level on which they start. -/
def Kept (s : Script α) : Prop :=
  ∀ desk, (s desk).desk = desk ∧ (∀ c ∈ (s desk).commands, c.Adds) ∧
    ∀ a, (s desk).result = .ok a → ∀ level, levelAfter level (s desk).commands = level

theorem kept_of_quiet {s : Script α} (hd : ∀ desk, (s desk).desk = desk)
    (hc : ∀ desk, (s desk).commands = []) : Kept s := by
  intro desk
  rw [hc desk]
  exact ⟨hd desk, fun _ h => absurd h List.not_mem_nil, fun _ _ _ => rfl⟩

theorem kept_command {c : Command} (h : c.Adds) (hl : ∀ level, nextLevel level c = level) :
    Kept (Script.command c) :=
  fun _ => ⟨rfl, fun _ hm => List.mem_singleton.mp hm ▸ h, fun _ _ => hl⟩

theorem Kept.bind {s : Script α} {f : α → Script β} (hs : Kept s) (hf : ∀ a, Kept (f a)) :
    Kept (s >>= f) := by
  intro desk
  obtain ⟨same, adds, level⟩ := hs desk
  rcases hr : (s desk).result with e | a
  · simp only [Script.bind_apply, hr]
    exact ⟨same, adds, nofun⟩
  · obtain ⟨same', adds', level'⟩ := hf a desk
    simp only [Script.bind_apply, hr, same]
    refine ⟨same', fun c hc => (List.mem_append.mp hc).elim (adds c) (adds' c), fun b hb l => ?_⟩
    rw [levelAfter_append, level a hr, level' b hb]

theorem Kept.within {s : Script α} (around : Surroundings) (hs : Kept s) :
    Kept (Script.within around s) := by
  intro desk
  -- Inside, the desk is left as it was entered, so that leaving undoes entering.
  obtain ⟨same, rest⟩ := hs { desk with context := around.enter desk.context }
  refine ⟨?_, rest⟩
  change ({ (s { desk with context := around.enter desk.context }).desk with
    context := around.leave desk.context
      (s { desk with context := around.enter desk.context }).desk.context } : Desk) = desk
  rw [same, around.leave_enter]

theorem Script.indented_apply_ok {s : Script Unit} {desk next : Desk} {commands : List Command}
    (h : s desk = ⟨commands, next, .ok ()⟩) :
    Script.indented s desk = ⟨.deeper :: (commands ++ [.shallower]), next, .ok ()⟩ := by
  have first : Script.command .deeper desk = ⟨[.deeper], desk, .ok ()⟩ := rfl
  rw [Script.indented, Script.bind_apply_ok first, Script.bind_apply_ok h]
  rfl

theorem Script.indented_apply_error {s : Script Unit} {desk next : Desk} {e : Fault}
    {commands : List Command} (h : s desk = ⟨commands, next, .error e⟩) :
    Script.indented s desk = ⟨.deeper :: commands, next, .error e⟩ := by
  have first : Script.command .deeper desk = ⟨[.deeper], desk, .ok ()⟩ := rfl
  rw [Script.indented, Script.bind_apply_ok first, Script.bind_apply_error h]
  rfl

theorem Kept.indented {s : Script Unit} (hs : Kept s) : Kept (Script.indented s) := by
  intro desk
  obtain ⟨same, adds, level⟩ := hs desk
  rcases hr : s desk with ⟨commands, next, e | ⟨⟩⟩
  · rw [hr] at same adds
    rw [Script.indented_apply_error hr]
    exact ⟨same, List.forall_mem_cons.mpr ⟨trivial, adds⟩, nofun⟩
  · rw [hr] at same adds level
    rw [Script.indented_apply_ok hr]
    refine ⟨same, List.forall_mem_cons.mpr ⟨trivial, ?_⟩, fun _ _ l => ?_⟩
    · exact List.forall_mem_append.mpr ⟨adds, List.forall_mem_singleton.mpr trivial⟩
    · change levelAfter (l + 1) (commands ++ [.shallower]) = l
      rw [levelAfter_append, level () rfl]
      rfl

theorem kept_reference (n : Node) : Kept (reference n) := by
  unfold reference
  split
  · exact kept_command trivial fun _ => rfl
  · refine Kept.bind (kept_of_quiet (fun _ => rfl) fun _ => rfl) fun _ => ?_
    refine Kept.bind (kept_of_quiet (fun _ => rfl) fun _ => rfl) fun _ => ?_
    exact kept_command trivial fun _ => rfl

theorem kept_declare (role : Role) (n : Node) (name : String) :
    Kept (Script.declare role n name) :=
  kept_command trivial fun _ => rfl

theorem congruence_kept : EmitterCongruence fun {α : Type} (s _ : Script α) => Kept s where
  pure _ := kept_of_quiet (fun _ => rfl) fun _ => rfl
  fail _ := kept_of_quiet (fun _ => rfl) fun _ => rfl
  bind := Kept.bind
  text {c} h := by
    cases c with
    | write | line | endLine | note => exact kept_command trivial fun _ => rfl
    | _ => cases h
  declare var := kept_declare .inner var _
  reference := kept_reference
  symbols := kept_of_quiet (fun _ => rfl) fun _ => rfl
  context _ h := (kept_of_quiet (fun _ => rfl) fun _ => rfl).bind h
  indented := Kept.indented
  within _ := Kept.within _
  index := Kept.within _
  switch _ := Kept.within _

theorem kept_write (text : String) : Kept (Script.write text) := congruence_kept.write text

theorem kept_line (text : String) : Kept (Script.line text) := congruence_kept.line text

theorem kept_endLine : Kept Script.endLine := congruence_kept.endLine

theorem kept_head (h : Heading) : Kept (Script.head h) := kept_command trivial fun _ => rfl

theorem emitter_kept (depth : Nat) (n : Node) :
    Related (fun {α : Type} (s _ : Script α) => Kept s) (emitter depth) (emitter depth) n := by
  refine emitter_related congruence_kept (P := fun _ => True) (fun _ _ => trivial) ?_ ?_ depth
    trivial
  · exact fun _ _ _ => kept_command trivial fun _ => rfl
  · exact fun _ _ _ => kept_command trivial fun _ => rfl

theorem whole_kept (n : Node) :
    Related (fun {α : Type} (s _ : Script α) => Kept s) whole whole n :=
  whole_related_of_emitter fun depth => emitter_kept depth n

/-- A success of the script leaves the desk as it was, and the indentation of any draft. -/
def Framed (s : Script α) : Prop :=
  ∀ (desk : Desk) (draft : Draft) (a : α), (s desk).result = .ok a →
    (s desk).desk = desk ∧ (draft.run (s desk).commands).page.indent = draft.page.indent

theorem Kept.framed {s : Script α} (h : Kept s) : Framed s := by
  intro desk draft a hr
  obtain ⟨same, _, level⟩ := h desk
  exact ⟨same, by rw [indent_run, level a hr]⟩

theorem matchArms_kept (owner : Option String) (cond : Node) (arms : List Arm) :
    Kept (matchArms whole owner cond arms) :=
  matchArms_related congruence_kept owner (whole_kept cond) fun _ _ =>
    ⟨fun label _ => whole_kept label, fun s _ => whole_kept s⟩

end VFromC.Emit
