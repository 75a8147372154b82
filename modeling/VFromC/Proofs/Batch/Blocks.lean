import VFromC.Batch
import VFromC.Proofs.Decl.Blocks
/-!
Linkage blocks in the units of a batch.

The walk over a unit goes into a block, and the scans that tell a declaration about the others do
not. So a block changes nothing exactly as far as no declaration gets another answer by it.
-/
namespace VFromC
open VFromC.Syntax VFromC.Output VFromC.Emit VFromC.Decl

section Scans

/-- The node defines the function. -/
def isDefinitionOf (name : String) (n : Node) : Bool :=
  n.kind = .functionDecl && n.name = name && n.hasChild .compoundStmt

/-- The node is another declaration of the global, and has a value. -/
def givesValueTo (n other : Node) : Bool :=
  other.kind = .varDecl && other.name = n.name && other.info.id ≠ n.info.id &&
    (initializer? other).isSome

/-- The scan looks at outlines only. -/
def SeesOutlines (p : Node → Bool) : Prop := ∀ m n : Node, m.outline = n.outline → p m = p n

theorem any_of_outlines {p : Node → Bool} (hp : SeesOutlines p) {l₁ l₂ : List Node}
    (h : l₁.map Node.outline = l₂.map Node.outline) : l₁.any p = l₂.any p := by
  induction l₁ generalizing l₂ with
  | nil =>
      rw [List.map_nil, eq_comm, List.map_eq_nil_iff] at h
      rw [h]
  | cons n rest ih =>
      obtain ⟨m, rest', rfl, same, others⟩ := List.map_eq_cons_iff.mp h.symm
      rw [List.any_cons, List.any_cons, hp n m same.symm, ih others.symm]

/-- Such a scan misses nothing by a block but what is inside. -/
theorem any_block {p : Node → Bool} (hp : SeesOutlines p) {s : Stretch} (x : s.Block)
    (other : ∀ n, p n = true → n.kind ≠ .linkageSpecDecl) :
    s.unit.prepare.inner.any p = (x.unit.prepare.inner.any p || s.inside.any p) := by
  have block : p ⟨x.info, x.filler, s.inside⟩ = false := by
    rw [← Bool.not_eq_true]
    intro found
    exact other _ found x.isLinkage
  rw [any_of_outlines hp (Node.outlines_prepare _), any_of_outlines hp (Node.outlines_prepare _),
    Stretch.unit, Stretch.Block.unit, List.any_append, List.any_append, List.any_append,
    List.any_cons, block]
  cases s.before.any p <;> cases s.inside.any p <;> cases s.behind.any p <;> rfl

theorem any_kind {m n : Node} (h : m.inner.map Node.kind = n.inner.map Node.kind)
    (q : Kind → Bool) : m.inner.any (fun c => q c.kind) = n.inner.any fun c => q c.kind := by
  have kinds (l : List Node) : l.any (fun c => q c.kind) = (l.map Node.kind).any q := by
    rw [List.any_map]
    rfl
  rw [kinds, kinds, h]

theorem seesOutlines_isDefinitionOf (name : String) : SeesOutlines (isDefinitionOf name) := by
  intro m n same
  simp only [Node.outline, Prod.mk.injEq] at same
  obtain ⟨_, kind, own, kinds⟩ := same
  have body : m.hasChild .compoundStmt = n.hasChild .compoundStmt :=
    any_kind kinds fun kind => kind = .compoundStmt
  rw [isDefinitionOf, isDefinitionOf, kind, own, body]

theorem seesOutlines_givesValueTo (n : Node) : SeesOutlines (givesValueTo n) := by
  intro m m' same
  simp only [Node.outline, Prod.mk.injEq] at same
  obtain ⟨id, kind, own, kinds⟩ := same
  have given : (initializer? m).isSome = (initializer? m').isSome := by
    rw [initializer?, initializer?, List.isSome_find?, List.isSome_find?]
    exact any_kind kinds fun kind => !kind.isAnnotation
  rw [givesValueTo, givesValueTo, id, kind, own, given]

end Scans

theorem each_congr {α β : Type} {f : α → Script Unit} {g : β → Script Unit} {l₁ : List α}
    {l₂ : List β} (h : List.Forall₂ (fun a b => f a = g b) l₁ l₂) :
    Script.each f l₁ = Script.each g l₂ := by
  induction h with
  | nil => rfl
  | cons first _ ih => rw [Script.each, Script.each, first, ih]

theorem Batch.render_congr {b : Batch} {root root' : Node} {source : Option String}
    (h : writeUnit (b.unitOf root source) = writeUnit (b.unitOf root' source)) :
    b.render root source = b.render root' source := by
  have composed : (b.unitOf root source).compose b.symbols {} =
      (b.unitOf root' source).compose b.symbols {} := by
    unfold SourceUnit.compose
    rw [h]
  unfold Batch.render Batch.renderKnowing
  rw [composed]

/-- A stretch of declarations inside of a linkage block is written as it is without the block if
every declaration of the unit finds the same answers in the other ones. Each of them by itself is
written alike exactly if it does. The scans that answer miss what the block has inside, and so do
the counts of redeclarations. -/
theorem linkage_block_transparent (b : Batch) (single : b.shared = false) {s : Stretch}
    (x : s.Block) (source : Option String) :
    let u := b.unitOf s.unit source
    let w := b.unitOf x.unit source
    (∀ name, definesFunction u name =
      (definesFunction w name || s.inside.any (isDefinitionOf name))) ∧
    (∀ n, isInitializedElsewhere u n =
      (isInitializedElsewhere w n || s.inside.any (givesValueTo n))) ∧
    visited w.root.inner = visited (List.zipWith Node.recount u.root.inner x.counts) ∧
    List.Forall₂ (fun v v' => (∃ count, v'.decl = v.decl.recount count) ∧
        (v'.script w = v.script u ↔ AnsweredAlike u w v.decl v'.decl))
      (visits u.root.inner) (visits w.root.inner) ∧
    (List.Forall₂ (fun v v' => AnsweredAlike u w v.decl v'.decl)
        (visits u.root.inner) (visits w.root.inner) →
      b.render x.unit source = b.render s.unit source) := by
  intro u w
  have scripts : List.Forall₂ (fun v v' => (∃ count, v'.decl = v.decl.recount count) ∧
      (v'.script w = v.script u ↔ AnsweredAlike u w v.decl v'.decl))
      (visits u.root.inner) (visits w.root.inner) := by
    have single' : u.shared = false := single
    have outside : ∀ v ∈ visits u.root.inner, isGroup v.decl.info = false :=
      fun v hv => not_isGroup_of_mem_visits _ hv
    have each := (List.forall₂_and_left _ _).mpr ⟨outside, x.visits_match⟩
    refine each.imp ?_
    rintro v v' ⟨hg, ⟨count, same⟩, tag⟩
    refine ⟨⟨count, same⟩, ?_⟩
    rw [Visit.script, Visit.script, same]
    have unit : w = { u with root := x.unit.prepare } := rfl
    rw [unit]
    exact topLevel_eq_iff single' hg tag
  refine ⟨?_, ?_, x.visited_eq, scripts, ?_⟩
  · intro name
    apply any_block (seesOutlines_isDefinitionOf name) x
    intro n defines linkage
    simp [isDefinitionOf, linkage] at defines
  · intro n
    apply any_block (seesOutlines_givesValueTo n) x
    intro other gives linkage
    simp [givesValueTo, linkage] at gives
  · intro alike
    apply Batch.render_congr
    rw [writeUnit, writeUnit, topLevels_eq_each, topLevels_eq_each]
    apply (each_congr _).symm
    exact (scripts.mp fun v v' h answered => (h.2.mpr answered).symm) alike

/-- A unit that is nothing but a stretch. -/
def soleStretch (inside : List Node) : Stretch where
  info := {}
  filler := []
  before := []
  inside
  behind := []
  starts := by
    rintro ⟨_, _, last, _⟩
    cases last
  ends := by
    rintro ⟨_, _, _, first, _⟩
    cases first

def soleBlock (inside : List Node) : (soleStretch inside).Block where
  info := { kind := .linkageSpecDecl, place := { file := "a.c" } }
  filler := []
  isLinkage := rfl
  keepsFile := rfl
  isOwn := by
    have file : (soleStretch inside).file = {} := rfl
    rw [file]
    decide +kernel

/-- A function that is declared, and one that is defined. -/
def announced : Node := ⟨{ kind := .functionDecl, name := "f", place := { file := "a.c" } }, [], []⟩

def defined : Node := { announced with inner := [⟨{ kind := .compoundStmt }, [], []⟩] }

/-- A definition in a block is written as it is without the block. An announcement gives way to it
only without the block. -/
theorem soleBlock_shows_announcement :
    let start : Batch := {}
    let apart := soleStretch [announced, defined]
    let block := soleBlock [announced, defined]
    start.render (soleBlock [defined]).unit none = start.render (soleStretch [defined]).unit none ∧
    (start.render apart.unit none).result =
      .ok "[translated]\nmodule main\n\nfunc f() \x7b\n\x7d\n\n" ∧
    (start.render block.unit none).result =
      .ok "[translated]\nmodule main\n\nfunc f()\n\nfunc f() \x7b\n\x7d\n\n" ∧
    ¬ List.Forall₂ (fun v v' =>
        AnsweredAlike (start.unitOf apart.unit none) (start.unitOf block.unit none) v.decl v'.decl)
      (visits apart.unit.prepare.inner) (visits block.unit.prepare.inner) := by
  intro start apart block
  have here : (start.render apart.unit none).result =
      .ok "[translated]\nmodule main\n\nfunc f() \x7b\n\x7d\n\n" := by
    decide +kernel
  have there : (start.render block.unit none).result =
      .ok "[translated]\nmodule main\n\nfunc f()\n\nfunc f() \x7b\n\x7d\n\n" := by
    decide +kernel
  refine ⟨?_, here, there, ?_⟩
  · apply (linkage_block_transparent start rfl (soleBlock [defined]) none).2.2.2.2
    decide +kernel
  · intro alike
    have same := (linkage_block_transparent start rfl block none).2.2.2.2 alike
    rw [same, here] at there
    revert there
    decide

end VFromC
