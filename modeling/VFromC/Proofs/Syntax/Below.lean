import Mathlib.Logic.Relation
import VFromC.Syntax.Node
/-!
The nodes below a node, by way of children and fillers, and those that are near to it: no subscript
and no switch stands between.
-/
namespace VFromC.Syntax.Node

def IsPart (m n : Node) : Prop := m ∈ n.inner ∨ m ∈ n.filler

def Below : Node → Node → Prop := Relation.TransGen IsPart

/-- A property that goes from a node to all of its parts. -/
def Hereditary (P : Node → Prop) : Prop := ∀ {m n : Node}, m.IsPart n → P n → P m

variable {m n k : Node}

theorem below_of_mem_inner (h : m ∈ n.inner) : m.Below n := .single (.inl h)

theorem below_of_mem_filler (h : m ∈ n.filler) : m.Below n := .single (.inr h)

theorem Below.trans (h₁ : m.Below n) (h₂ : n.Below k) : m.Below k := Relation.TransGen.trans h₁ h₂

theorem hereditary_below (n : Node) : Hereditary (·.Below n) :=
  fun part below => .head part below

theorem Hereditary.of_below {P : Node → Prop} (hP : Hereditary P) (h : m.Below n) (hn : P n) :
    P m := by
  induction h with
  | single part => exact hP part hn
  | tail _ part ih => exact ih (hP part hn)

theorem eq_or_below_of_below {m n : Node} (h : m.Below n) :
    ∃ k, k.IsPart n ∧ (m = k ∨ m.Below k) := by
  cases h with
  | single part => exact ⟨m, part, .inl rfl⟩
  | tail below part => exact ⟨_, part, .inr below⟩

/-- What holds of everything below a node holds of its parts and of everything below them. -/
theorem forall_below_mk_iff {P : Node → Prop} {info : Info} {filler inner : List Node} :
    (∀ m : Node, m.Below ⟨info, filler, inner⟩ → P m) ↔
      (∀ k ∈ inner, P k ∧ ∀ m : Node, m.Below k → P m) ∧
        ∀ k ∈ filler, P k ∧ ∀ m : Node, m.Below k → P m := by
  constructor
  · intro h
    constructor
    · exact fun k hk => ⟨h k (.single (.inl hk)), fun m hm => h m (.tail hm (.inl hk))⟩
    · exact fun k hk => ⟨h k (.single (.inr hk)), fun m hm => h m (.tail hm (.inr hk))⟩
  · rintro ⟨children, fillers⟩ m hm
    obtain ⟨k, part | part, rfl | below⟩ := eq_or_below_of_below hm
    · exact (children m part).1
    · exact (children k part).2 m below
    · exact (fillers m part).1
    · exact (fillers k part).2 m below

theorem below_of_firstChild? (h : n.firstChild? = some m) : m.Below n :=
  below_of_mem_inner (List.mem_of_mem_head? h)

theorem below_of_mem_childrenOf {kind : Kind} (h : m ∈ n.childrenOf kind) : m.Below n :=
  below_of_mem_inner ((List.mem_filter.mp h).1)

/-- What is below a node of such a kind can stand at another place than the node. -/
def SetsPlace (n : Node) : Prop := n.kind = .arraySubscriptExpr ∨ n.kind = .switchStmt

inductive Near (n : Node) : Node → Prop where
  | part {m : Node} (h : m.IsPart n) : Near n m
  | step {k m : Node} (near : Near n k) (plain : ¬k.SetsPlace) (h : m.IsPart k) : Near n m

theorem below_of_near (h : n.Near m) : m.Below n := by
  induction h with
  | part h => exact .single h
  | step _ _ h below => exact .head h below

theorem Near.trans (h₁ : k.Near n) (plain : ¬n.SetsPlace) (h₂ : n.Near m) : k.Near m := by
  induction h₂ with
  | part h => exact .step h₁ plain h
  | step _ plain h near => exact .step near plain h

theorem near_of_mem_inner (h : m ∈ n.inner) : n.Near m := .part (.inl h)

theorem near_of_firstChild? (h : n.firstChild? = some m) : n.Near m :=
  near_of_mem_inner (List.mem_of_mem_head? h)

theorem not_setsPlace_of_kind {kind : Kind} (h : n.kind = kind)
    (hk : kind ≠ .arraySubscriptExpr ∧ kind ≠ .switchStmt := by decide) : ¬n.SetsPlace := by
  rw [SetsPlace, h]
  exact not_or.mpr hk

theorem height_pos (n : Node) : 0 < n.height := by
  cases n
  rw [height]
  exact Nat.succ_pos _

theorem height_le_heights {l : List Node} (h : m ∈ l) : m.height ≤ heights l := by
  induction l with
  | nil => cases h
  | cons a l ih =>
      rw [heights]
      rcases List.mem_cons.mp h with rfl | h
      · exact Nat.le_max_left ..
      · exact Nat.le_trans (ih h) (Nat.le_max_right ..)

theorem height_lt_of_isPart (h : m.IsPart n) : m.height < n.height := by
  obtain ⟨info, filler, inner⟩ := n
  rw [height]
  rcases h with h | h
  · exact Nat.lt_succ_of_le (Nat.le_trans (height_le_heights h) (Nat.le_max_right ..))
  · exact Nat.lt_succ_of_le (Nat.le_trans (height_le_heights h) (Nat.le_max_left ..))

theorem height_lt_of_below (h : m.Below n) : m.height < n.height := by
  induction h with
  | single part => exact height_lt_of_isPart part
  | tail _ part ih => exact Nat.lt_trans ih (height_lt_of_isPart part)

end VFromC.Syntax.Node
