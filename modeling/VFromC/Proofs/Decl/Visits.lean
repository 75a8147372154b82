import VFromC.Decl.TopLevel
import VFromC.Proofs.Syntax.Below
/-!
The declarations of a unit in the order in which they are visited. A group of declarations stands
for the declarations in it.
-/
namespace VFromC.Decl
open VFromC.Syntax VFromC.Emit

/-- A declaration with the one that follows it. -/
structure Visit where
  decl : Node
  next : Option Node

/-- Declarations that stand for what is in them. -/
def isGroup (info : Info) : Bool :=
  !info.isBuiltin && (info.kind = .namespaceDecl || info.kind = .linkageSpecDecl)

mutual

def visit (next : Option Node) : Node → List Visit
  | ⟨info, filler, inner⟩ =>
      if isGroup info then visits inner else [⟨⟨info, filler, inner⟩, next⟩]

def visits : List Node → List Visit
  | [] => []
  | n :: rest => visit rest.head? n ++ visits rest

end

def Visit.script (u : SourceUnit) (v : Visit) : Script Unit := topLevel u v.next v.decl

/-- What has become of the first visits of a unit. -/
def firstVisits (u : SourceUnit) (symbols : Symbols) (k : Nat) : Written Unit :=
  Script.each (Visit.script u) ((visits u.root.inner).take k) { symbols }

theorem each_append {α : Type} (f : α → Script Unit) (l₁ l₂ : List α) :
    Script.each f (l₁ ++ l₂) = (do Script.each f l₁; Script.each f l₂) := by
  induction l₁ with
  | nil => simp only [List.nil_append, Script.each, pure_bind]
  | cons a rest ih => simp only [List.cons_append, Script.each, ih, bind_assoc]

theorem each_singleton {α : Type} (f : α → Script Unit) (a : α) :
    Script.each f [a] = f a := by
  simp only [Script.each, bind_pure_unit]

theorem topLevel_of_isGroup {u : SourceUnit} {next : Option Node} {n : Node}
    (h : isGroup n.info = true) : topLevel u next n = topLevels u n.inner := by
  obtain ⟨info, filler, inner⟩ := n
  simp only [isGroup, Bool.and_eq_true, Bool.not_eq_true', Bool.or_eq_true, decide_eq_true_eq] at h
  obtain ⟨hb, hk | hk⟩ := h
  · simp [topLevel, hb, hk]
  · simp [topLevel, hb, hk]

mutual

theorem topLevel_eq_each (u : SourceUnit) (next : Option Node) :
    ∀ n, topLevel u next n = Script.each (Visit.script u) (visit next n)
  | ⟨info, filler, inner⟩ => by
      rw [visit]
      split
      · rename_i h
        rw [topLevel_of_isGroup h]
        exact topLevels_eq_each u inner
      · rw [each_singleton]
        rfl

/-- Writing declarations is writing their visits one after another. -/
theorem topLevels_eq_each (u : SourceUnit) :
    ∀ decls, topLevels u decls = Script.each (Visit.script u) (visits decls)
  | [] => rfl
  | n :: rest => by
      rw [topLevels, visits, each_append, topLevel_eq_each u rest.head? n,
        topLevels_eq_each u rest]

end

mutual

theorem not_isGroup_of_mem_visit {v : Visit} (next : Option Node) :
    ∀ n, v ∈ visit next n → isGroup v.decl.info = false
  | ⟨info, filler, inner⟩ => by
      intro h
      rw [visit] at h
      split at h
      · exact not_isGroup_of_mem_visits inner h
      · rename_i hg
        rw [List.mem_singleton.mp h]
        simpa only [Bool.not_eq_true] using hg

theorem not_isGroup_of_mem_visits {v : Visit} :
    ∀ decls, v ∈ visits decls → isGroup v.decl.info = false
  | [] => fun h => absurd h List.not_mem_nil
  | n :: rest => by
      intro h
      rw [visits] at h
      rcases List.mem_append.mp h with h | h
      · exact not_isGroup_of_mem_visit rest.head? n h
      · exact not_isGroup_of_mem_visits rest h

end

theorem writeUnit_eq_firstVisits (u : SourceUnit) (symbols : Symbols) :
    writeUnit u { symbols } = firstVisits u symbols (visits u.root.inner).length := by
  rw [writeUnit, topLevels_eq_each, firstVisits, List.take_length]

end VFromC.Decl
