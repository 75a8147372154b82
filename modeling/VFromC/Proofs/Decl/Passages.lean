import VFromC.Proofs.Decl.Rest
/-!
The output of a unit, passage by passage: each visit writes one passage of it.
-/
namespace VFromC.Decl
open VFromC.Syntax VFromC.Output VFromC.Emit

/-- What the visit at a position of the walk over a unit writes. -/
def passage (u : SourceUnit) (symbols : Symbols) (k : Nat) : List Command :=
  match (visits u.root.inner)[k]? with
  | some v => (v.script u (firstVisits u symbols k).desk).commands
  | none => []

variable {u : SourceUnit} {symbols : Symbols} {k : Nat} {v : Visit}

theorem passage_eq (hv : (visits u.root.inner)[k]? = some v) :
    passage u symbols k = (v.script u (firstVisits u symbols k).desk).commands := by
  rw [passage, hv]

/-- One more visit starts where the visits before it have ended. -/
theorem firstVisits_succ (hv : (visits u.root.inner)[k]? = some v)
    (done : (firstVisits u symbols (k + 1)).result = .ok ()) :
    (firstVisits u symbols k).result = .ok () ∧
      (v.script u (firstVisits u symbols k).desk).result = .ok () ∧
      (firstVisits u symbols (k + 1)).desk = (v.script u (firstVisits u symbols k).desk).desk ∧
      (firstVisits u symbols (k + 1)).commands =
        (firstVisits u symbols k).commands ++ passage u symbols k := by
  have split : (visits u.root.inner).take (k + 1) = (visits u.root.inner).take k ++ [v] := by
    rw [List.take_add_one, hv]
    rfl
  unfold firstVisits at done ⊢
  rw [split, each_append, each_singleton] at done ⊢
  obtain ⟨⟨⟩, before, here, desk, commands⟩ := bind_ok done
  refine ⟨before, here, desk, ?_⟩
  rw [commands, passage_eq hv]
  rfl

theorem firstVisits_ok_of_le {i j : Nat} (h : i ≤ j)
    (done : (firstVisits u symbols j).result = .ok ()) :
    (firstVisits u symbols i).result = .ok () := by
  have split : (visits u.root.inner).take j =
      (visits u.root.inner).take i ++ ((visits u.root.inner).drop i).take (j - i) := by
    rw [← List.take_add, Nat.add_sub_cancel' h]
  unfold firstVisits at done ⊢
  rw [split, each_append] at done
  obtain ⟨⟨⟩, before, _⟩ := bind_ok done
  exact before

section Done

variable (done : (writeUnit u { symbols }).result = .ok ())
include done

theorem firstVisits_ok (hk : k ≤ (visits u.root.inner).length) :
    (firstVisits u symbols k).result = .ok () := by
  rw [writeUnit_eq_firstVisits] at done
  exact firstVisits_ok_of_le hk done

/-- Each visit of a walk that succeeds has succeeded. -/
theorem visit_ok (hv : (visits u.root.inner)[k]? = some v) :
    (v.script u (firstVisits u symbols k).desk).result = .ok () ∧
      (firstVisits u symbols (k + 1)).desk = (v.script u (firstVisits u symbols k).desk).desk := by
  have hk : k + 1 ≤ (visits u.root.inner).length := (List.getElem?_eq_some_iff.mp hv).1
  obtain ⟨_, here, desk, _⟩ := firstVisits_succ hv (firstVisits_ok done hk)
  exact ⟨here, desk⟩

theorem commands_firstVisits (hk : k ≤ (visits u.root.inner).length) :
    (firstVisits u symbols k).commands = (List.range k).flatMap (passage u symbols) := by
  induction k with
  | zero => rfl
  | succ k ih =>
      have hv := List.getElem?_eq_getElem (Nat.lt_of_succ_le hk)
      obtain ⟨_, _, _, commands⟩ := firstVisits_succ hv (firstVisits_ok done hk)
      rw [commands, ih (Nat.le_of_succ_le hk), List.range_succ, List.flatMap_append,
        List.flatMap_singleton]

/-- The walk over a unit writes its passages one after another. -/
theorem commands_writeUnit :
    (writeUnit u { symbols }).commands =
      (List.range (visits u.root.inner).length).flatMap (passage u symbols) := by
  have walk := commands_firstVisits done (Nat.le_refl _)
  rwa [← writeUnit_eq_firstVisits] at walk

end Done

theorem visit_of_mem_passage {c : Command} (h : c ∈ passage u symbols k) :
    ∃ v, (visits u.root.inner)[k]? = some v := by
  cases hv : (visits u.root.inner)[k]? with
  | some v => exact ⟨v, rfl⟩
  | none =>
      rw [passage, hv] at h
      cases h

end VFromC.Decl
