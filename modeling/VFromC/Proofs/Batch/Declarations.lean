import VFromC.Proofs.Batch.Growth
import VFromC.Proofs.Decl.Definitions
/-!
Declarations in the text of a unit: whether references to them have their name, and whether globals
have their value.
-/
namespace VFromC
open VFromC.Syntax VFromC.Output VFromC.Emit VFromC.Decl

/-- A reference has the name of its declaration exactly when writing the name small changes nothing,
or when the name is known at the reference just if the declaration is that of a global. A name is
known behind a passage that introduces it, and the constants of a passage already inside of it, once
they are declared. -/
theorem referred_as_declared_iff (b : Batch) (root : Node) (source : Option String) {text : String}
    (h : (b.render root source).result = .ok text) :
    let u := b.unitOf root source
    let passages := (List.range (visits u.root.inner).length).map (passage u b.symbols)
    (∃ body, (({} : Draft).run passages.flatten).finish = .ok body ∧
      text = Batch.unitText b.shared body) ∧
    ∀ k v before what name after, (visits u.root.inner)[k]? = some v →
      passage u b.symbols k = before ++ .refer what name :: after →
      what.kind ≠ .enumConstantDecl →
      v.constantsIn before <+: constantNames v ∧ ∀ j role declared,
        .declare role what declared ∈ passage u b.symbols j → what.name ≠ "" →
        (name = declared ↔
          Ident.spell (Text.lowered what.name) = Ident.spell what.name ∨
          ((KnownBefore u b.symbols k what.name ∨ what.name ∈ v.constantsIn before) ↔
            role = .global)) := by
  intro u passages
  obtain ⟨done, body, finished, whole⟩ := Batch.walk_of_render h
  rw [commands_writeUnit done] at finished
  refine ⟨⟨body, by rw [← List.flatMap_def]; exact finished, whole⟩, ?_⟩
  intro k v before what name after hv referred other
  have single {j : Nat} {w : Visit} (hw : (visits u.root.inner)[j]? = some w) :
      isGroup w.decl.info = false :=
    not_isGroup_of_mem_visits _ (List.mem_of_getElem? hw)
  rw [passage_eq hv] at referred
  obtain ⟨first, written⟩ :=
    spells_of_spellsFrom (visit_spelled u (single hv) _) referred other
  rw [List.nil_append] at first written
  refine ⟨first, fun j role declared there named => ?_⟩
  obtain ⟨w, hw⟩ := visit_of_mem_passage there
  rw [passage_eq hw] at there
  obtain ⟨earlier, later, split⟩ := List.append_of_mem there
  obtain ⟨_, spelled⟩ := spells_of_spellsFrom (visit_spelled u (single hw) _) split
  have known := knows_firstVisits done (Nat.le_of_lt (List.getElem?_eq_some_iff.mp hv).1) what.name
  rw [written, spelled other named, spelled_eq_iff, Bool.eq_iff_iff, Bool.or_eq_true, known,
    List.contains_iff_mem, decide_eq_true_eq]

/-- A global, and a function that returns a parameter of the same name. -/
def shadowingUnit : Node :=
  let place : Place := { file := "a.c" }
  let type : TypeText := { spelling := "int" }
  let total : Info := { id := "0x1", kind := .varDecl, name := "Total", type, place }
  let own : Info := { id := "0x3", kind := .parmVarDecl, name := "Total", type, place }
  let use : Info := { kind := .declRefExpr, reference := some ⟨"0x3", .parmVarDecl, "Total"⟩ }
  let answer : Node := ⟨{ kind := .returnStmt }, [], [⟨use, [], []⟩]⟩
  let get : Info := { id := "0x2", kind := .functionDecl, name := "get", place }
  ⟨{}, [], [⟨total, [], []⟩,
    ⟨get, [], [⟨own, [], []⟩, ⟨{ kind := .compoundStmt }, [], [answer]⟩]⟩]⟩

theorem shadowingUnit_differs :
    let u := ({} : Batch).unitOf shadowingUnit none
    let own : Reference := ⟨"0x3", .parmVarDecl, "Total"⟩
    (({} : Batch).render shadowingUnit none).result =
      .ok ("[translated]\nmodule main\n\n[weak]\n__global ( Total int )\n\n" ++
        "func get(total int) \x7b\n\treturn Total\n\x7d\n\n") ∧
    .declare .parameter own "total" ∈ passage u {} 1 ∧ .refer own "Total" ∈ passage u {} 1 ∧
    KnownBefore u {} 1 "Total" := by
  intro u own
  have rendered : (({} : Batch).render shadowingUnit none).result =
      .ok ("[translated]\nmodule main\n\n[weak]\n__global ( Total int )\n\n" ++
        "func get(total int) \x7b\n\treturn Total\n\x7d\n\n") := by
    decide +kernel
  have declared : .declare .parameter own "total" ∈ passage u {} 1 := by decide +kernel
  have referred : .refer own "Total" ∈ passage u {} 1 := by decide +kernel
  refine ⟨rendered, declared, referred, ?_⟩
  obtain ⟨v, hv⟩ : ∃ v, (visits u.root.inner)[1]? = some v := ⟨_, rfl⟩
  have noConstants : constantNames v = [] := by
    cases hv
    rfl
  obtain ⟨_, names⟩ := referred_as_declared_iff {} shadowingUnit none rendered
  obtain ⟨before, after, split⟩ := List.append_of_mem referred
  obtain ⟨first, agree⟩ := names 1 v before own "Total" after hv split (by decide)
  rw [noConstants, List.prefix_nil] at first
  have differs : ¬ "Total" = "total" := by decide
  rw [agree 1 .parameter "total" declared (by decide), first] at differs
  by_contra unknown
  exact differs (.inr ⟨fun known => (known.elim unknown (absurd · List.not_mem_nil)).elim,
    fun role => by cases role⟩)

/-- The value of a global is in the only definition of it exactly when its declaration is not passed
over, all declarations before it are, and it has storage or all declarations behind it are passed
over too. A declaration without storage and without a value is passed over if its global has a value
elsewhere at the top, so that a value is lost to declarations with storage or with a value. -/
theorem value_defined_once_iff (b : Batch) (root : Node) (source : Option String) {text : String}
    (single : b.shared = false) (h : (b.render root source).result = .ok text) {key : String}
    (new : b.symbols.globals.lookup key = none) {i : Nat} {v : Visit} {value : Node}
    (hv : (visits (b.unitOf root source).root.inner)[i]? = some v) (hd : v.Declares key)
    (hi : initializer? v.decl = some value) :
    let u := b.unitOf root source
    let passages := (List.range (visits u.root.inner).length).map (passage u b.symbols)
    (∃ body, (({} : Draft).run passages.flatten).finish = .ok body ∧
      text = Batch.unitText false body) ∧
    ((globalsDefined passages.flatten).count key = 1 ∧
        GivesValue (passage u b.symbols i) v.decl value ↔
      v.passesOver u = false ∧
      (∀ j < i, ∀ w, (visits u.root.inner)[j]? = some w → w.Declares key →
        w.passesOver u = true) ∧
      (v.decl.isExtern = false ∨
        ∀ j > i, ∀ w, (visits u.root.inner)[j]? = some w → w.Declares key →
          w.passesOver u = true)) ∧
    ∀ w : Visit, w.decl.isExtern = true → initializer? w.decl = none → v.decl ∈ u.root.inner →
      v.decl.name = w.decl.name → v.decl.info.id ≠ w.decl.info.id → w.passesOver u = true := by
  intro u passages
  obtain ⟨done, body, finished, whole⟩ := Batch.walk_of_render h
  have flat : passages.flatten = (writeUnit u { symbols := b.symbols }).commands := by
    rw [commands_writeUnit done, List.flatMap_def]
  have length : i < (visits u.root.inner).length := (List.getElem?_eq_some_iff.mp hv).1
  rw [flat]
  refine ⟨⟨body, finished, single ▸ whole⟩, ?_, ?_⟩
  · rw [← defined_only_at_iff done new hv hd, writeUnit_eq_firstVisits,
      count_globalsDefined done (Nat.le_refl _)]
    have once := countP_range_eq_one_iff
      (p := fun k => key ∈ globalsDefined (passage u b.symbols k)) length
    constructor
    · rintro ⟨one, value⟩ k
      have here := mem_of_givesValue value
      rw [hd.2] at here
      have only := once.mp ⟨one, decide_eq_true here⟩
      refine ⟨fun there => ?_, fun same => same ▸ here⟩
      obtain ⟨c, hc, _⟩ := List.mem_filterMap.mp there
      obtain ⟨w, hw⟩ := visit_of_mem_passage hc
      exact (only k (List.getElem?_eq_some_iff.mp hw).1).mp (decide_eq_true there)
    · intro only
      refine ⟨(once.mpr fun k _ => ?_).1, givesValue_passage done hv hi ((only i).mpr rfl)⟩
      rw [decide_eq_true_eq]
      exact only k
  · intro w outer bare top same apart
    rw [Visit.passesOver, yields_of_initialized outer bare top hd.1 same apart hi, Bool.or_true]

/-- A global that is declared and then declared again with a value. -/
def declaredTwice (storageClass : String) : Node :=
  let place : Place := { file := "a.c" }
  let info : Info := { kind := .varDecl, name := "g", type := { spelling := "int" }, place }
  let five : Node := ⟨{ kind := .integerLiteral, value := some (.text "5") }, [], []⟩
  ⟨{}, [], [⟨{ info with id := "0x1", storageClass }, [], []⟩,
    ⟨{ info with id := "0x2", previousDecl := some "0x1" }, [], [five]⟩]⟩

/-- The value is kept behind a declaration without storage, and lost behind one with storage. -/
theorem declaredTwice_value :
    let kept := ({} : Batch).unitOf (declaredTwice "extern") none
    let lost := ({} : Batch).unitOf (declaredTwice "") none
    ((({} : Batch).render (declaredTwice "extern") none).result =
        .ok "[translated]\nmodule main\n\n[weak]\n__global ( g = int(5) )\n\n" ∧
      ∃ v value, (visits kept.root.inner)[1]? = some v ∧ initializer? v.decl = some value ∧
        GivesValue (passage kept {} 1) v.decl value) ∧
    ((({} : Batch).render (declaredTwice "") none).result =
        .ok "[translated]\nmodule main\n\n[weak]\n__global ( g int )\n\n" ∧
      ∃ v value, (visits lost.root.inner)[1]? = some v ∧ initializer? v.decl = some value ∧
        ¬ GivesValue (passage lost {} 1) v.decl value) := by
  intro kept lost
  have keeps : (({} : Batch).render (declaredTwice "extern") none).result =
      .ok "[translated]\nmodule main\n\n[weak]\n__global ( g = int(5) )\n\n" := by
    decide +kernel
  have loses : (({} : Batch).render (declaredTwice "") none).result =
      .ok "[translated]\nmodule main\n\n[weak]\n__global ( g int )\n\n" := by
    decide +kernel
  constructor
  · obtain ⟨v, value, hv, hd, hi⟩ : ∃ v value, (visits kept.root.inner)[1]? = some v ∧
        v.Declares "g" ∧ initializer? v.decl = some value :=
      ⟨_, _, rfl, ⟨rfl, rfl⟩, rfl⟩
    obtain ⟨_, exact, _⟩ :=
      value_defined_once_iff {} (declaredTwice "extern") none rfl keeps rfl hv hd hi
    refine ⟨keeps, v, value, hv, hi, (exact.mpr ⟨?_, fun j hj w hw _ => ?_, .inl ?_⟩).2⟩
    · cases hv
      decide +kernel
    · obtain rfl := Nat.lt_one_iff.mp hj
      cases hw
      decide +kernel
    · cases hv
      rfl
  · obtain ⟨v, value, hv, hd, hi⟩ : ∃ v value, (visits lost.root.inner)[1]? = some v ∧
        v.Declares "g" ∧ initializer? v.decl = some value :=
      ⟨_, _, rfl, ⟨rfl, rfl⟩, rfl⟩
    obtain ⟨_, exact, _⟩ := value_defined_once_iff {} (declaredTwice "") none rfl loses rfl hv hd hi
    refine ⟨loses, v, value, hv, hi, fun given => ?_⟩
    obtain ⟨_, before, _⟩ := exact.mp ⟨by decide +kernel, given⟩
    have passed := before 0 Nat.zero_lt_one _ rfl ⟨rfl, rfl⟩
    revert passed
    decide +kernel

end VFromC
