import VFromC.Proofs.Emit.Related
/-!
The emitter of whole trees.

The bound on the height of trees does not matter to trees within the bound, so that whole trees are
written by one emitter, which is given to itself for what stands below a node.
-/
namespace VFromC.Emit
open VFromC.Syntax VFromC.Output

/-- The emitter without a bound. -/
def whole : Emitter := { expr := emitExpr, stmt := emitStmt }

theorem congruence_eq : EmitterCongruence fun {α : Type} (s t : Script α) => s = t where
  pure _ := rfl
  fail _ := rfl
  bind h₁ h₂ := by rw [h₁, funext h₂]
  text _ := rfl
  declare _ := rfl
  reference _ := rfl
  symbols := rfl
  context _ h := by rw [funext h]
  indented h := by rw [h]
  within _ h := by rw [h]
  index h := by rw [h]
  switch _ h := by rw [h]

theorem emitter_agrees {n : Node} {depth₁ depth₂ : Nat} (h₁ : n.height ≤ depth₁)
    (h₂ : n.height ≤ depth₂) :
    Related (fun {α : Type} (s t : Script α) => s = t) (emitter depth₁) (emitter depth₂) n := by
  induction depth₁ generalizing depth₂ n with
  | zero => exact absurd n.height_pos (Nat.not_lt.mpr h₁)
  | succ depth₁ ih =>
      cases depth₂ with
      | zero => exact absurd n.height_pos (Nat.not_lt.mpr h₂)
      | succ depth₂ =>
          -- Below a node there is room for one level less, under either bound.
          have below : ∀ m, m.Below n →
              Related (fun {α : Type} (s t : Script α) => s = t) (emitter depth₁)
                (emitter depth₂) m := by
            intro m hm
            have hlt := Node.height_lt_of_below hm
            exact ih (by omega) (by omega)
          constructor
          · exact expression_related congruence_eq below fun _ => rfl
          · exact statement_related congruence_eq below (fun _ => rfl) fun _ => rfl

theorem emitter_agrees_whole {n : Node} {depth : Nat} (h : n.height ≤ depth) :
    Related (fun {α : Type} (s t : Script α) => s = t) (emitter depth) whole n := by
  have same := emitter_agrees h (Nat.le_refl n.height)
  exact ⟨same.expr, same.stmt⟩

theorem below_agrees {n m : Node} {depth : Nat} (h : n.height ≤ depth + 1) (hm : m.Below n) :
    Related (fun {α : Type} (s t : Script α) => s = t) (emitter depth) whole m := by
  have hlt := Node.height_lt_of_below hm
  exact emitter_agrees_whole (by omega)

theorem emitExpr_eq (n : Node) : emitExpr n = expression whole n := by
  obtain ⟨depth, hd⟩ := Nat.exists_eq_add_one.mpr n.height_pos
  rw [emitExpr, hd]
  exact expression_related congruence_eq (fun m hm => below_agrees (by omega) hm) fun _ => rfl

theorem emitStmt_eq (n : Node) : emitStmt n = statement whole n := by
  obtain ⟨depth, hd⟩ := Nat.exists_eq_add_one.mpr n.height_pos
  rw [emitStmt, hd]
  exact statement_related congruence_eq (fun m hm => below_agrees (by omega) hm) (fun _ => rfl)
    fun _ => rfl

theorem statements_emitter_eq (n : Node) :
    statements (emitter n.height) n.inner = statements whole n.inner :=
  statements_related congruence_eq fun _ hm =>
    emitter_agrees_whole (Nat.le_of_lt (Node.height_lt_of_below (Node.below_of_mem_inner hm)))

/-- A congruence relates what is written for a node to itself, when it does so for the jumps and
labels in it. -/
theorem emitter_related {R : ∀ {α : Type}, Script α → Script α → Prop} (hR : EmitterCongruence R)
    {P : Node → Prop} (hP : Node.Hereditary P)
    (goto : ∀ n, P n → n.kind = .gotoStmt → R (Script.command (.jump n.info.targetLabelId))
      (Script.command (.jump n.info.targetLabelId)))
    (label : ∀ n, P n → n.kind = .labelStmt → R (Script.command (.label n.info.declId n.name))
      (Script.command (.label n.info.declId n.name)))
    (depth : Nat) {n : Node} (hn : P n) : Related R (emitter depth) (emitter depth) n := by
  induction depth generalizing n with
  | zero => exact ⟨hR.fail trivial, hR.fail trivial⟩
  | succ depth ih =>
      have below : ∀ m, m.Below n → Related R (emitter depth) (emitter depth) m :=
        fun m hm => ih (hP.of_below hm hn)
      constructor
      · exact expression_related hR below (goto n hn)
      · exact statement_related hR below (goto n hn) (label n hn)

theorem whole_related_of_emitter {R : ∀ {α : Type}, Script α → Script α → Prop} {n : Node}
    (h : ∀ depth, Related R (emitter depth) (emitter depth) n) : Related R whole whole n :=
  ⟨(h n.height).expr, (h n.height).stmt⟩

end VFromC.Emit
