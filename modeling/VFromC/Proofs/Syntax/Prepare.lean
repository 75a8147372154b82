import VFromC.Syntax.Prepare
import VFromC.Proofs.Syntax.Below
/-!
Completing a tree leaves everything in it as it is, apart from places, origins and the numbers of
redeclarations.
-/
namespace VFromC.Syntax.Node

/-- The nodes agree, their children apart, on all that completing a tree leaves as it is. -/
def Alike (m n : Node) : Prop :=
  ∃ place isBuiltin redeclarations,
    m.info = { n.info with place, isBuiltin, redeclarations }

namespace Alike

variable {k m n : Node}

theorem refl (n : Node) : Alike n n := ⟨_, _, _, rfl⟩

theorem trans (h₁ : Alike k m) (h₂ : Alike m n) : Alike k n := by
  obtain ⟨place, isBuiltin, redeclarations, h₁⟩ := h₁
  obtain ⟨_, _, _, h₂⟩ := h₂
  exact ⟨place, isBuiltin, redeclarations, by rw [h₁, h₂]⟩

theorem kind (h : Alike m n) : m.kind = n.kind := by
  obtain ⟨_, _, _, h⟩ := h
  rw [Node.kind, h]

theorem name (h : Alike m n) : m.name = n.name := by
  obtain ⟨_, _, _, h⟩ := h
  rw [Node.name, h]

theorem declId (h : Alike m n) : m.info.declId = n.info.declId := by
  obtain ⟨_, _, _, h⟩ := h
  rw [h]

theorem targetLabelId (h : Alike m n) : m.info.targetLabelId = n.info.targetLabelId := by
  obtain ⟨_, _, _, h⟩ := h
  rw [h]

end Alike

/-- A relation under which every part of the first node is found in the second. -/
def Image (S : Node → Node → Prop) : Prop :=
  ∀ {n n' m : Node}, S n n' → m.IsPart n → ∃ m', m'.IsPart n' ∧ S m m'

theorem Image.below {S : Node → Node → Prop} (hS : Image S) {n n' m : Node} (h : S n n')
    (hm : m.Below n) : ∃ m', m'.Below n' ∧ S m m' := by
  induction hm using Relation.TransGen.head_induction_on with
  | single hp =>
      obtain ⟨m', hm', same⟩ := hS h hp
      exact ⟨m', .single hm', same⟩
  | head hp _ ih =>
      obtain ⟨k', hk', same⟩ := ih
      obtain ⟨m', hm', same'⟩ := hS same hp
      exact ⟨m', .head hm' hk', same'⟩

section Files

theorem mem_completeAll {m : Node} {l : List Node} {current : Mark}
    (h : m ∈ (completeAll l current).1) :
    ∃ m' ∈ l, ∃ before, m = (completeFiles m' before).1 := by
  induction l generalizing current with
  | nil =>
      rw [completeAll] at h
      exact absurd h List.not_mem_nil
  | cons n rest ih =>
      rw [completeAll] at h
      rcases List.mem_cons.mp h with rfl | h
      · exact ⟨n, List.mem_cons_self, current, rfl⟩
      · obtain ⟨m', hm', before, same⟩ := ih h
        exact ⟨m', List.mem_cons_of_mem _ hm', before, same⟩

theorem image_completeFiles : Image fun n n' => ∃ before, n = (completeFiles n' before).1 := by
  rintro n ⟨info, filler, inner⟩ m ⟨before, rfl⟩ hm
  rw [completeFiles] at hm
  rcases hm with hm | hm
  · obtain ⟨m', hm', same⟩ := mem_completeAll hm
    exact ⟨m', .inl hm', same⟩
  · obtain ⟨m', hm', same⟩ := mem_completeAll hm
    exact ⟨m', .inr hm', same⟩

theorem alike_completeFiles (n : Node) (before : Mark) : Alike (completeFiles n before).1 n := by
  obtain ⟨info, filler, inner⟩ := n
  rw [completeFiles]
  exact ⟨_, _, _, rfl⟩

end Files

section Builtins

theorem mem_markBuiltins {m : Node} {l : List Node} (h : m ∈ markBuiltins l) :
    ∃ m' ∈ l, m = markBuiltin m' := by
  induction l with
  | nil =>
      rw [markBuiltins] at h
      exact absurd h List.not_mem_nil
  | cons n rest ih =>
      rw [markBuiltins] at h
      rcases List.mem_cons.mp h with rfl | h
      · exact ⟨n, List.mem_cons_self, rfl⟩
      · obtain ⟨m', hm', same⟩ := ih h
        exact ⟨m', List.mem_cons_of_mem _ hm', same⟩

theorem alike_markBuiltin (n : Node) : Alike (markBuiltin n) n := by
  obtain ⟨info, filler, inner⟩ := n
  rw [markBuiltin]
  exact ⟨_, _, _, rfl⟩

theorem image_markBuiltin : Image fun n n' => n = n' ∨ n = markBuiltin n' := by
  rintro n n' m (rfl | rfl) hm
  · exact ⟨m, hm, .inl rfl⟩
  · obtain ⟨info, filler, inner⟩ := n'
    rw [markBuiltin] at hm
    rcases hm with hm | hm
    · dsimp only at hm
      split at hm
      · obtain ⟨m', hm', same⟩ := mem_markBuiltins hm
        exact ⟨m', .inl hm', .inr same⟩
      · exact ⟨m, .inl hm, .inl rfl⟩
    · exact ⟨m, .inr hm, .inl rfl⟩

end Builtins

theorem below_of_below_with {m n : Node} {info : Info} (h : m.Below { n with info }) :
    m.Below n := by
  obtain ⟨k, part, rfl | below⟩ := eq_or_below_of_below h
  · exact .single part
  · exact .tail below part

theorem mem_countRedeclarations {m : Node} {decls : List Node} (h : m ∈ countRedeclarations decls) :
    ∃ d ∈ decls, ∃ count, m = { d with info := { d.info with redeclarations := count } } := by
  obtain ⟨p, hp, rfl⟩ := List.mem_map.mp h
  exact ⟨p.1, List.fst_mem_of_mem_zipIdx hp, _, rfl⟩

/-- Whatever stands below a completed tree has a counterpart below the tree itself. -/
theorem below_of_below_prepare {root m : Node} (h : m.Below root.prepare) :
    ∃ m', m'.Below root ∧ Alike m m' := by
  -- It is enough to find a counterpart below the tree with its files completed.
  suffices found : ∃ k, k.Below (root.completeFiles {}).1 ∧ Alike m k by
    obtain ⟨k, hk, same⟩ := found
    obtain ⟨m', hm', before, rfl⟩ := image_completeFiles.below ⟨{}, rfl⟩ hk
    exact ⟨m', hm', same.trans (alike_completeFiles m' before)⟩
  obtain ⟨k, part | part, hm⟩ := eq_or_below_of_below h
  · obtain ⟨j, hj, rfl⟩ := mem_markBuiltins part
    obtain ⟨d, hd, count, rfl⟩ := mem_countRedeclarations hj
    have hd : d.Below (root.completeFiles {}).1 := below_of_mem_inner hd
    rcases hm with rfl | hm
    · exact ⟨d, hd, (alike_markBuiltin _).trans ⟨_, _, _, rfl⟩⟩
    · obtain ⟨m', hm', same⟩ := image_markBuiltin.below (.inr rfl) hm
      refine ⟨m', (below_of_below_with hm').trans hd, ?_⟩
      rcases same with rfl | rfl
      · exact .refl m
      · exact alike_markBuiltin m'
  · rcases hm with rfl | hm
    · exact ⟨m, below_of_mem_filler part, .refl m⟩
    · exact ⟨m, hm.trans (below_of_mem_filler part), .refl m⟩

end VFromC.Syntax.Node
