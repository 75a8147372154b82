import Mathlib.Data.List.Forall2
import VFromC.Proofs.Decl.Elsewhere
import VFromC.Proofs.Syntax.Prepare
/-!
Blocks of declarations: a stretch of a unit as it is, and the same stretch inside of a linkage block.

The declarations are visited in the same order, and each of them is the same apart from how often it
is declared again.
-/
namespace VFromC

theorem exists_of_forall₂_append {α β : Type} {R : α → β → Prop} {l₁ l₂ : List α} {l : List β}
    (h : List.Forall₂ R (l₁ ++ l₂) l) :
    ∃ front back, l = front ++ back ∧ List.Forall₂ R l₁ front ∧ List.Forall₂ R l₂ back := by
  refine ⟨l.take l₁.length, l.drop l₁.length, (List.take_append_drop _ l).symm, ?_, ?_⟩
  · simpa using List.forall₂_take l₁.length h
  · simpa using List.forall₂_drop l₁.length h

end VFromC

namespace VFromC.Syntax.Node

/-- What completing a tree leaves of a node, as far as scans of a unit look at it. -/
def outline (n : Node) : String × Kind × String × List Kind :=
  (n.info.id, n.kind, n.name, n.inner.map Node.kind)

theorem completeAll_append (l₁ l₂ : List Node) (current : Mark) :
    completeAll (l₁ ++ l₂) current =
      ((completeAll l₁ current).1 ++ (completeAll l₂ (completeAll l₁ current).2).1,
        (completeAll l₂ (completeAll l₁ current).2).2) := by
  induction l₁ generalizing current with
  | nil => simp [completeAll]
  | cons n rest ih => simp [completeAll, ih]

/-- The children of a node are completed behind the node itself. -/
theorem completeFiles_eq (info : Info) (filler inner : List Node) (current : Mark) :
    completeFiles ⟨info, filler, inner⟩ current =
      let bare := completeFiles ⟨info, filler, []⟩ current
      ({ bare.1 with inner := (completeAll inner bare.2).1 }, (completeAll inner bare.2).2) := by
  simp [completeFiles, completeAll]

section Outline

theorem map_kind_completeAll (l : List Node) (current : Mark) :
    (completeAll l current).1.map Node.kind = l.map Node.kind := by
  induction l generalizing current with
  | nil => simp [completeAll]
  | cons n rest ih =>
      simp only [completeAll, List.map_cons, ih]
      rw [(alike_completeFiles n current).kind]

theorem outline_completeFiles (n : Node) (current : Mark) :
    (completeFiles n current).1.outline = n.outline := by
  obtain ⟨info, filler, inner⟩ := n
  simp only [outline, completeFiles, map_kind_completeAll]

theorem outline_completeAll (l : List Node) (current : Mark) :
    (completeAll l current).1.map outline = l.map outline := by
  induction l generalizing current with
  | nil => simp [completeAll]
  | cons n rest ih => simp only [completeAll, List.map_cons, ih, outline_completeFiles]

theorem markBuiltins_eq_map (l : List Node) : markBuiltins l = l.map markBuiltin := by
  induction l with
  | nil => rw [markBuiltins, List.map_nil]
  | cons n rest ih => rw [markBuiltins, ih, List.map_cons]

theorem outline_markBuiltin (n : Node) : (markBuiltin n).outline = n.outline := by
  obtain ⟨info, filler, inner⟩ := n
  rw [markBuiltin]
  dsimp only [outline]
  split
  · rw [markBuiltins_eq_map, List.map_map]
    have kinds : inner.map (Node.kind ∘ markBuiltin) = inner.map Node.kind :=
      List.map_congr_left fun m _ => (alike_markBuiltin m).kind
    rw [kinds]
  · rfl

end Outline

/-- The second node is the first one, marked by its origin and with its redeclarations counted. -/
def Prepared (n m : Node) : Prop := ∃ count, m = (markBuiltin n).recount count

theorem markBuiltin_recount (n : Node) (count : Nat) :
    markBuiltin (n.recount count) = (markBuiltin n).recount count := by
  obtain ⟨info, filler, inner⟩ := n
  rw [recount, markBuiltin, markBuiltin]
  rfl

theorem forall₂_prepared (decls : List Node) :
    List.Forall₂ Prepared decls (markBuiltins (countRedeclarations decls)) := by
  suffices each : List.Forall₂ Prepared (decls.zipIdx.map Prod.fst)
      (markBuiltins (countRedeclarations decls)) by
    rwa [List.zipIdx_map_fst] at each
  rw [markBuiltins_eq_map, countRedeclarations, List.map_map, List.forall₂_map_left_iff,
    List.forall₂_map_right_iff, List.forall₂_same]
  intro p _
  exact ⟨_, markBuiltin_recount p.1 _⟩

theorem Prepared.outline {n m : Node} (h : Prepared n m) : m.outline = n.outline := by
  obtain ⟨count, rfl⟩ := h
  exact outline_markBuiltin n

theorem outlines_of_prepared {l₁ l₂ : List Node} (h : List.Forall₂ Prepared l₁ l₂) :
    l₂.map Node.outline = l₁.map Node.outline := by
  induction h with
  | nil => rfl
  | cons first _ ih => rw [List.map_cons, List.map_cons, first.outline, ih]

/-- A scan of a completed tree finds the outlines of the tree as it was. -/
theorem outlines_prepare (root : Node) :
    root.prepare.inner.map Node.outline = root.inner.map Node.outline := by
  obtain ⟨info, filler, inner⟩ := root
  rw [prepare]
  dsimp only
  rw [outlines_of_prepared (forall₂_prepared _), completeFiles_eq]
  exact outline_completeAll _ _

theorem forall₂_markBuiltins (decls : List Node) :
    List.Forall₂ Prepared decls (markBuiltins decls) := by
  rw [markBuiltins_eq_map, List.forall₂_map_right_iff, List.forall₂_same]
  intro n _
  exact ⟨_, (recount_self (markBuiltin n)).symm⟩

/-- Two nodes prepared from the same one differ in the number of redeclarations. -/
theorem recounted_of_prepared {l l₁ l₂ : List Node} (h₁ : List.Forall₂ Prepared l l₁)
    (h₂ : List.Forall₂ Prepared l l₂) :
    List.Forall₂ (fun n m => ∃ count, m = n.recount count) l₁ l₂ := by
  induction h₁ generalizing l₂ with
  | nil =>
      cases h₂
      exact .nil
  | cons first _ ih =>
      cases h₂ with
      | cons first' rest' =>
          obtain ⟨_, rfl⟩ := first
          obtain ⟨count, rfl⟩ := first'
          exact .cons ⟨count, rfl⟩ (ih rest')

section Counts

/-- How often each of some declarations is declared again, as far as the tree tells and by those
that name it as their previous one. -/
def timesRedeclared (decls : List Node) : List Nat :=
  let named := (decls.filterMap (·.info.previousDecl)).filterMap (lastWithId? decls)
  decls.zipIdx.map fun p => p.1.info.redeclarations + named.count p.2

theorem length_timesRedeclared (decls : List Node) :
    (timesRedeclared decls).length = decls.length := by
  rw [timesRedeclared, List.length_map, List.length_zipIdx]

theorem countRedeclarations_eq (decls : List Node) :
    countRedeclarations decls = List.zipWith recount decls (timesRedeclared decls) := by
  refine List.ext_getElem ?_ fun i _ _ => ?_
  · simp [countRedeclarations, timesRedeclared]
  · simp [countRedeclarations, timesRedeclared, recount]

/-- What is looked at when redeclarations are counted. -/
def lineage (n : Node) : String × Option String × Nat :=
  (n.info.id, n.info.previousDecl, n.info.redeclarations)

theorem lineage_completeAll (l : List Node) (current : Mark) :
    (completeAll l current).1.map lineage = l.map lineage := by
  induction l generalizing current with
  | nil => simp [completeAll]
  | cons n rest ih =>
      obtain ⟨info, filler, inner⟩ := n
      simp only [completeAll, List.map_cons, ih]
      rw [completeFiles]
      rfl

theorem timesRedeclared_congr {l₁ l₂ : List Node} (h : l₁.map lineage = l₂.map lineage) :
    timesRedeclared l₁ = timesRedeclared l₂ := by
  have told (l : List Node) : timesRedeclared l =
      ((l.map lineage).zipIdx.map fun p => p.1.2.2 +
        (((l.map lineage).filterMap (·.2.1)).filterMap fun id =>
          if id = "" then none
          else ((l.map lineage).zipIdx.filter fun p => p.1.1 = id).getLast?.map
            Prod.snd).count p.2) := by
    have last (id : String) : lastWithId? l id = if id = "" then none
        else ((l.map lineage).zipIdx.filter fun p => p.1.1 = id).getLast?.map Prod.snd := by
      rw [lastWithId?, List.zipIdx_map, List.filter_map, List.getLast?_map, Option.map_map]
      rfl
    simp only [← last]
    rw [timesRedeclared, List.zipIdx_map, List.map_map, List.filterMap_map]
    rfl
  rw [told, told, h]

/-- Declarations that were counted once are counted anew. -/
theorem recount_prepared (decls : List Node) (counts : List Nat) :
    List.zipWith recount (markBuiltins (countRedeclarations decls)) counts =
      markBuiltins (List.zipWith recount decls counts) := by
  rw [markBuiltins_eq_map, markBuiltins_eq_map, countRedeclarations_eq]
  refine List.ext_getElem ?_ fun i _ _ => ?_
  · simp [length_timesRedeclared]
  · simp only [List.getElem_zipWith, List.getElem_map, markBuiltin_recount]
    rfl

theorem recount_own {l l' : List Node} (h : l'.map lineage = l.map lineage) :
    List.zipWith recount l' (l.map (·.info.redeclarations)) = l' := by
  have own : l.map (·.info.redeclarations) = l'.map (·.info.redeclarations) := by
    have counts := congrArg (List.map (·.2.2)) h
    rw [List.map_map, List.map_map] at counts
    exact counts.symm
  rw [own, List.zipWith_map_right, List.zipWith_self]
  exact List.map_id'' (fun n => recount_self n) l'

end Counts

end VFromC.Syntax.Node

namespace VFromC.Decl
open VFromC.Syntax VFromC.Emit

section Visits

/-- The visits of declarations before something else. -/
def visitsThen (next : Option Node) : List Node → List Visit
  | [] => []
  | n :: rest => visit (rest.head?.or next) n ++ visitsThen next rest

theorem visits_append (decls rest : List Node) :
    visits (decls ++ rest) = visitsThen rest.head? decls ++ visits rest := by
  induction decls with
  | nil => rfl
  | cons n decls ih =>
      rw [List.cons_append, visits, ih, List.head?_append, visitsThen, List.append_assoc]

theorem visits_eq_visitsThen (decls : List Node) : visits decls = visitsThen none decls := by
  have whole := visits_append decls []
  rwa [List.append_nil, visits, List.append_nil] at whole

theorem visits_cons_group {n : Node} (h : isGroup n.info = true) (rest : List Node) :
    visits (n :: rest) = visits n.inner ++ visits rest := by
  obtain ⟨info, filler, inner⟩ := n
  rw [visits, visit, if_pos h]

/-- The declarations that are visited, in order. -/
def visited (decls : List Node) : List Node := (visits decls).map Visit.decl

theorem visited_cons (n : Node) (rest : List Node) :
    visited (n :: rest) = visited [n] ++ visited rest := by
  obtain ⟨info, filler, inner⟩ := n
  rw [visited, visited, visited, visits, visits, visits, List.append_nil, List.map_append, visit,
    visit]
  split <;> rfl

theorem visited_append (l₁ l₂ : List Node) : visited (l₁ ++ l₂) = visited l₁ ++ visited l₂ := by
  induction l₁ with
  | nil => rfl
  | cons n rest ih =>
      rw [List.cons_append, visited_cons, ih, visited_cons n rest, List.append_assoc]

theorem visited_cons_group {n : Node} (h : isGroup n.info = true) (rest : List Node) :
    visited (n :: rest) = visited n.inner ++ visited rest := by
  rw [visited, visits_cons_group h, List.map_append]
  rfl

/-- The visits are to the same declaration, counted anew, and by the same name. -/
structure Visit.Matches (v w : Visit) : Prop where
  decl : ∃ count, w.decl = v.decl.recount count
  tag : v.decl.kind = .recordDecl ∨ v.decl.kind = .enumDecl →
    tagName v.decl w.next = tagName v.decl v.next

theorem Visit.Matches.refl (v : Visit) : v.Matches v where
  decl := ⟨_, v.decl.recount_self.symm⟩
  tag _ := rfl

variable {next next' : Option Node}

theorem visit_matches {n : Node} {count : Nat}
    (tag : n.kind = .recordDecl ∨ n.kind = .enumDecl → tagName n next' = tagName n next) :
    List.Forall₂ Visit.Matches (visit next n) (visit next' (n.recount count)) := by
  obtain ⟨info, filler, inner⟩ := n
  rw [Node.recount, visit, visit]
  have same : isGroup { info with redeclarations := count } = isGroup info := rfl
  rw [same]
  split
  · exact List.forall₂_same.mpr fun v _ => .refl v
  · exact .cons ⟨⟨count, rfl⟩, tag⟩ .nil

theorem visitsThen_match {l₁ l₂ : List Node}
    (h : List.Forall₂ (fun n m => ∃ count, m = n.recount count) l₁ l₂)
    (last : ∀ n, l₁.getLast? = some n → n.kind = .recordDecl ∨ n.kind = .enumDecl →
      tagName n next' = tagName n next) :
    List.Forall₂ Visit.Matches (visitsThen next l₁) (visitsThen next' l₂) := by
  induction h with
  | nil => exact .nil
  | @cons n m rest₁ rest₂ first rest ih =>
      obtain ⟨count, rfl⟩ := first
      cases rest with
      | nil =>
          apply List.rel_append _ .nil
          exact visit_matches (last n rfl)
      | @cons n' m' rest₁ rest₂ first' rest =>
          obtain ⟨count', rfl⟩ := first'
          have here : List.Forall₂ Visit.Matches (visit (some n') n)
              (visit (some (n'.recount count')) (n.recount count)) :=
            visit_matches fun _ => rfl
          apply List.rel_append here
          exact ih fun k hk => last k (by rw [List.getLast?_cons_cons, hk])

end Visits

/-- A record or an enumeration without a name comes last, and an alias that names it first. -/
def SplitsTag (front back : List Node) : Prop :=
  ∃ tag later, front.getLast? = some tag ∧ back.head? = some later ∧
    (tag.kind = .recordDecl ∨ tag.kind = .enumDecl) ∧ tag.name = "" ∧ later.kind = .typedefDecl

theorem SplitsTag.of_outlines {front front' back back' : List Node}
    (hf : front.map Node.outline = front'.map Node.outline)
    (hb : back.map Node.outline = back'.map Node.outline) (h : SplitsTag front back) :
    SplitsTag front' back' := by
  obtain ⟨tag, later, last, first, kind, name, kind'⟩ := h
  have last' : front'.getLast?.map Node.outline = some tag.outline := by
    rw [← List.getLast?_map, ← hf, List.getLast?_map, last]
    rfl
  have first' : back'.head?.map Node.outline = some later.outline := by
    rw [← List.head?_map, ← hb, List.head?_map, first]
    rfl
  obtain ⟨tag', ht, same⟩ := Option.map_eq_some_iff.mp last'
  obtain ⟨later', hl, same'⟩ := Option.map_eq_some_iff.mp first'
  simp only [Node.outline, Prod.mk.injEq] at same same'
  refine ⟨tag', later', ht, hl, ?_, ?_, ?_⟩
  · rw [same.2.1]
    exact kind
  · rw [same.2.2.1]
    exact name
  · rw [same'.2.1]
    exact kind'

theorem tagName_of_not_splitsTag {front back : List Node} {n : Node} (h : ¬ SplitsTag front back)
    (last : front.getLast? = some n) (kind : n.kind = .recordDecl ∨ n.kind = .enumDecl) :
    tagName n back.head? = n.name := by
  cases first : back.head? with
  | none => rfl
  | some later =>
      rw [tagName]
      split
      · rename_i unnamed
        rw [Bool.and_eq_true, decide_eq_true_eq, decide_eq_true_eq] at unnamed
        exact absurd ⟨n, later, last, first, kind, unnamed.1, unnamed.2⟩ h
      · rfl

theorem tagName_of_isGroup {m : Node} (h : isGroup m.info = true) (n : Node) :
    tagName n (some m) = n.name := by
  have kind : m.kind ≠ .typedefDecl := by
    intro hk
    have hk : m.info.kind = .typedefDecl := hk
    simp [isGroup, hk] at h
  simp [tagName, kind]

/-- A unit with a stretch of its declarations, neither end of which stands between a record or an
enumeration without a name and the alias that names it. -/
structure Stretch where
  info : Info
  filler : List Node
  before : List Node
  inside : List Node
  behind : List Node
  starts : ¬ SplitsTag before (inside ++ behind)
  ends : ¬ SplitsTag inside behind

namespace Stretch

def unit (s : Stretch) : Node := ⟨s.info, s.filler, s.before ++ (s.inside ++ s.behind)⟩

/-- The file in force where the stretch starts. -/
def file (s : Stretch) : Mark := ((⟨s.info, s.filler, s.before⟩ : Node).completeFiles {}).2

/-- A linkage block around a stretch. It belongs to the program, and by itself it leaves the file as
it is. -/
structure Block (s : Stretch) where
  info : Info
  filler : List Node
  isLinkage : info.kind = .linkageSpecDecl
  keepsFile : ((⟨info, filler, []⟩ : Node).completeFiles s.file).2 = s.file
  isOwn : ((⟨info, filler, []⟩ : Node).completeFiles s.file).1.hasBuiltinOrigin = false

/-- The unit with the stretch inside of the block. -/
def Block.unit {s : Stretch} (x : s.Block) : Node :=
  ⟨s.info, s.filler, s.before ++ ⟨x.info, x.filler, s.inside⟩ :: s.behind⟩

variable (s : Stretch)

/-- The file in force where the declarations of the unit start. -/
def start : Mark := ((⟨s.info, s.filler, []⟩ : Node).completeFiles {}).2

theorem file_eq : s.file = (Node.completeAll s.before s.start).2 := by
  rw [file, Node.completeFiles_eq]
  rfl

/-- The stretch and what stands around it, with their files completed. -/
def filedBefore : List Node := (Node.completeAll s.before s.start).1

def filedInside : List Node := (Node.completeAll s.inside s.file).1

def filedBehind : List Node := (Node.completeAll s.behind (Node.completeAll s.inside s.file).2).1

theorem inner_prepare : s.unit.prepare.inner =
    Node.markBuiltins
      (Node.countRedeclarations (s.filedBefore ++ (s.filedInside ++ s.filedBehind))) := by
  rw [unit, Node.prepare, Node.completeFiles_eq]
  dsimp only
  change Node.markBuiltins (Node.countRedeclarations (Node.completeAll _ s.start).1) = _
  rw [Node.completeAll_append, Node.completeAll_append, ← file_eq]
  rfl

namespace Block

variable {s : Stretch} (x : s.Block)

/-- The block with its files completed. -/
def filed : Node :=
  { ((⟨x.info, x.filler, []⟩ : Node).completeFiles s.file).1 with inner := s.filedInside }

theorem inner_prepare : x.unit.prepare.inner =
    Node.markBuiltins
      (Node.countRedeclarations (s.filedBefore ++ x.filed :: s.filedBehind)) := by
  rw [unit, Node.prepare, Node.completeFiles_eq]
  dsimp only
  change Node.markBuiltins (Node.countRedeclarations (Node.completeAll _ s.start).1) = _
  rw [Node.completeAll_append, ← file_eq, Node.completeAll, Node.completeFiles_eq]
  dsimp only
  rw [x.keepsFile]
  rfl

/-- The block stands for its stretch. -/
theorem isGroup_filed (count : Nat) :
    isGroup ((Node.markBuiltin x.filed).recount count).info = true ∧
      ((Node.markBuiltin x.filed).recount count).inner = Node.markBuiltins s.filedInside := by
  have kind : x.filed.info.kind = .linkageSpecDecl := by
    have alike := Node.alike_completeFiles ⟨x.info, x.filler, []⟩ s.file
    exact alike.kind.trans x.isLinkage
  have own : x.filed.hasBuiltinOrigin = false := x.isOwn
  rcases hx : x.filed with ⟨info, filler, inner⟩
  rw [hx] at kind own
  have inside : inner = s.filedInside := by
    have whole : x.filed.inner = s.filedInside := rfl
    rw [← whole, hx]
  rw [Node.markBuiltin, if_pos (.inr kind), own, inside]
  dsimp only at kind
  simp [Node.recount, isGroup, kind]

/-- How often each declaration is declared again in the unit with the block. The block itself takes
the place of its stretch there, and inside of it nothing is counted. -/
def counts : List Nat :=
  let outside := Node.timesRedeclared x.unit.inner
  outside.take s.before.length ++
    (s.inside.map (·.info.redeclarations) ++ outside.drop (s.before.length + 1))

theorem length_filed :
    s.filedBefore.length = s.before.length ∧ s.filedInside.length = s.inside.length := by
  have same (l : List Node) (current : Mark) :
      (Node.completeAll l current).1.length = l.length := by
    simpa using congrArg List.length (Node.lineage_completeAll l current)
  exact ⟨same _ _, same _ _⟩

/-- The visits of the unit with the block are to the declarations of the unit without it, with these
counts. -/
theorem visited_eq :
    visited x.unit.prepare.inner =
      visited (List.zipWith Node.recount s.unit.prepare.inner x.counts) := by
  obtain ⟨lengthBefore, lengthInside⟩ := length_filed (s := s)
  have counted : Node.timesRedeclared (s.filedBefore ++ x.filed :: s.filedBehind) =
      Node.timesRedeclared x.unit.inner := by
    apply Node.timesRedeclared_congr
    have block : x.filed.lineage = Node.lineage ⟨x.info, x.filler, s.inside⟩ := by
      simp [filed, Node.lineage, Node.completeFiles]
    rw [unit, List.map_append, List.map_append, List.map_cons, List.map_cons, block,
      filedBefore, filedBehind, Node.lineage_completeAll, Node.lineage_completeAll]
  have length : (Node.timesRedeclared x.unit.inner).length =
      s.before.length + (s.behind.length + 1) := by
    simp [Node.length_timesRedeclared, unit]
  have flat : s.unit.prepare.inner.zipWith Node.recount x.counts = Node.markBuiltins
      (List.zipWith Node.recount (s.filedBefore ++ (s.filedInside ++ s.filedBehind)) x.counts) := by
    rw [s.inner_prepare, Node.recount_prepared]
  rw [flat, x.inner_prepare, Node.countRedeclarations_eq, counted, counts]
  generalize Node.timesRedeclared x.unit.inner = outside at length ⊢
  have split : outside = outside.take s.before.length ++
      outside[s.before.length] :: outside.drop (s.before.length + 1) := by
    simp
  have whole : List.zipWith Node.recount (s.filedBefore ++ x.filed :: s.filedBehind) outside =
      List.zipWith Node.recount s.filedBefore (outside.take s.before.length) ++
        x.filed.recount outside[s.before.length] ::
          List.zipWith Node.recount s.filedBehind (outside.drop (s.before.length + 1)) := by
    conv_lhs => rw [split]
    rw [List.zipWith_append (by simp; omega), List.zipWith_cons_cons]
  have inside : List.zipWith Node.recount s.filedInside (s.inside.map (·.info.redeclarations)) =
      s.filedInside :=
    Node.recount_own (Node.lineage_completeAll s.inside s.file)
  obtain ⟨group, inner⟩ := x.isGroup_filed outside[s.before.length]
  rw [← Node.markBuiltin_recount] at group inner
  rw [whole, List.zipWith_append (by simp; omega),
    List.zipWith_append (by simpa using lengthInside), inside]
  simp only [Node.markBuiltins_eq_map, List.map_append, List.map_cons, visited_append]
  rw [visited_cons_group group, inner, Node.markBuiltins_eq_map]

/-- Both units are visited alike. -/
theorem visits_match :
    List.Forall₂ Visit.Matches (visits s.unit.prepare.inner) (visits x.unit.prepare.inner) := by
  have flat := Node.forall₂_prepared (s.filedBefore ++ (s.filedInside ++ s.filedBehind))
  have block := Node.forall₂_prepared (s.filedBefore ++ x.filed :: s.filedBehind)
  rw [← s.inner_prepare] at flat
  rw [← x.inner_prepare] at block
  obtain ⟨before, others, whole, hb, ho⟩ := exists_of_forall₂_append flat
  obtain ⟨inside, behind, rfl, hi, hh⟩ := exists_of_forall₂_append ho
  obtain ⟨before', others', whole', hb', ho'⟩ := exists_of_forall₂_append block
  obtain ⟨own, behind', ⟨count, rfl⟩, hh', rfl⟩ := List.forall₂_cons_left_iff.mp ho'
  obtain ⟨group, inner⟩ := x.isGroup_filed count
  have outlines : before.map Node.outline = s.before.map Node.outline ∧
      inside.map Node.outline = s.inside.map Node.outline ∧
      behind.map Node.outline = s.behind.map Node.outline :=
    ⟨(Node.outlines_of_prepared hb).trans (Node.outline_completeAll _ _),
      (Node.outlines_of_prepared hi).trans (Node.outline_completeAll _ _),
      (Node.outlines_of_prepared hh).trans (Node.outline_completeAll _ _)⟩
  have starts : ¬ SplitsTag before (inside ++ behind) := fun h =>
    s.starts (h.of_outlines outlines.1 (by
      rw [List.map_append, List.map_append, outlines.2.1, outlines.2.2]))
  have ends : ¬ SplitsTag inside behind := fun h =>
    s.ends (h.of_outlines outlines.2.1 outlines.2.2)
  rw [whole, whole', visits_append, visits_append inside, visits_append before',
    visits_cons_group group, inner]
  apply List.rel_append
  · apply visitsThen_match (Node.recounted_of_prepared hb hb')
    intro n last kind
    rw [tagName_of_not_splitsTag starts last kind]
    exact tagName_of_isGroup group n
  · apply List.rel_append
    · rw [visits_eq_visitsThen]
      apply visitsThen_match (Node.recounted_of_prepared hi (Node.forall₂_markBuiltins _))
      intro n last kind
      exact (tagName_of_not_splitsTag ends last kind).symm
    · rw [visits_eq_visitsThen behind, visits_eq_visitsThen behind']
      exact visitsThen_match (Node.recounted_of_prepared hh hh') fun _ _ _ => rfl

end Block

end Stretch

end VFromC.Decl
