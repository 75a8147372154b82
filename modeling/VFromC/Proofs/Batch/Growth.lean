import VFromC.Batch
import VFromC.Proofs.Decl.Changes
/-!
The symbols of a batch only grow, through all of its units and also where a unit fails.
-/
namespace VFromC
open VFromC.Syntax VFromC.Output VFromC.Emit VFromC.Decl

theorem keysOf_taken_run (d : Draft) (commands : List Command) :
    keysOf (d.run commands).taken = keysOf d.taken ++ takenNames commands := by
  induction commands generalizing d with
  | nil => exact (List.append_nil _).symm
  | cons c rest ih =>
      change keysOf ((d.apply c).run rest).taken = _
      rw [ih]
      cases c with
      | take name => simp [Draft.apply, keysOf, takenNames, takenName?]
      | _ => rfl

namespace Batch

/-- The batch after some units, each with its C text if it is at hand. A unit that fails leaves its
symbols behind as well. -/
def after (b : Batch) (units : List (Node × Option String)) : Batch :=
  units.foldl (fun b unit => (b.render unit.1 unit.2).batch) b

/-- The texts of the units that can be written. -/
def texts (b : Batch) : List (Node × Option String) → List String
  | [] => []
  | unit :: rest =>
      (b.render unit.1 unit.2).result.toOption.toList ++
        (b.render unit.1 unit.2).batch.texts rest

/-- There is a text for each global, in the same order, if texts are moved away at all. -/
def TextsInStep (b : Batch) : Prop :=
  if b.shared then keysOf b.symbols.globalTexts = keysOf b.symbols.globals
  else b.symbols.globalTexts = []

/-- What holds of a batch between its units. -/
structure Sound (b : Batch) : Prop where
  enums : b.symbols.EnumsKnown
  texts : b.TextsInStep

variable {b : Batch}

/-- The texts that are moved away while a unit is written, in order. -/
def moved (b : Batch) (root : Node) (source : Option String) : List (String × String) :=
  ((b.unitOf root source).compose b.symbols {}).draft.taken

/-- The symbols that the walk over a unit leaves, with the texts that were moved away. -/
def walked (b : Batch) (root : Node) (source : Option String) : Symbols :=
  ((b.unitOf root source).compose b.symbols {}).symbols

/-- A unit is written when the walk over it succeeds and its draft can be finished. The symbols stay
as the walk leaves them also if it is not. -/
theorem renderKnowing_cases (b : Batch) (labels : Labels) (root : Node) (source : Option String) :
    let walk := writeUnit (b.unitOf root source) { symbols := b.symbols }
    let draft := ({ labels } : Draft).run walk.commands
    let symbols := walk.desk.symbols.addTexts draft.taken
    (∃ body, walk.result = .ok () ∧ draft.finish = .ok body ∧
      b.renderKnowing labels root source =
        ⟨.ok (unitText b.shared body), { b with symbols := noteFile symbols body },
          draft.journal⟩) ∨
    ∃ e, (walk.result.bind fun _ => draft.finish) = .error e ∧
      b.renderKnowing labels root source = ⟨.error e, { b with symbols }, draft.journal⟩ := by
  intro walk draft symbols
  unfold renderKnowing
  dsimp only
  split
  · rename_i body finished
    change (walk.result.bind fun _ => draft.finish) = .ok body at finished
    rcases hr : walk.result with e | ⟨⟩
    · rw [hr] at finished
      cases finished
    · rw [hr] at finished
      exact .inl ⟨body, rfl, finished, rfl⟩
  · rename_i e failed
    exact .inr ⟨e, failed, rfl⟩

/-- The text of a unit comes from the commands of a walk that succeeds. -/
theorem walk_of_render {root : Node} {source : Option String} {text : String}
    (h : (b.render root source).result = .ok text) :
    (writeUnit (b.unitOf root source) { symbols := b.symbols }).result = .ok () ∧
      ∃ body, (({} : Draft).run
          (writeUnit (b.unitOf root source) { symbols := b.symbols }).commands).finish = .ok body ∧
        text = unitText b.shared body := by
  rw [render] at h
  rcases b.renderKnowing_cases {} root source with ⟨body, done, finished, same⟩ | ⟨e, -, same⟩
  · rw [same] at h
    cases h
    exact ⟨done, body, finished, rfl⟩
  · rw [same] at h
    cases h

theorem shared_render (b : Batch) (root : Node) (source : Option String) :
    (b.render root source).batch.shared = b.shared := by
  rw [render]
  rcases b.renderKnowing_cases {} root source with ⟨body, -, -, same⟩ | ⟨e, -, same⟩ <;> rw [same]

/-- After a unit the symbols are as its walk leaves them, perhaps with a note of open files. -/
theorem symbols_render (b : Batch) (root : Node) (source : Option String) :
    (b.render root source).batch.symbols = b.walked root source ∨
      (b.render root source).batch.symbols = (b.walked root source).markFile := by
  rw [render]
  rcases b.renderKnowing_cases {} root source with ⟨body, -, -, same⟩ | ⟨e, -, same⟩
  · rw [same]
    change noteFile (b.walked root source) body = _ ∨ noteFile (b.walked root source) body = _
    unfold noteFile
    split
    · exact .inr rfl
    · exact .inl rfl
  · rw [same]
    exact .inl rfl

/-- The walk over a unit makes changes of the symbols, and moves away the texts of globals. -/
theorem walked_changes (b : Batch) (root : Node) (source : Option String) :
    ∃ changes, b.symbols.PermitsAll changes ∧
      keysOf (b.moved root source) = (if b.shared then globalsEntered changes else []) ∧
      b.walked root source = (b.symbols.replay changes).addTexts (b.moved root source) := by
  obtain ⟨changes, _, permitted, after, taken⟩ :=
    writeUnit_makes (b.unitOf root source) { symbols := b.symbols }
  have names := keysOf_taken_run {}
    (writeUnit (b.unitOf root source) { symbols := b.symbols }).commands
  refine ⟨changes, permitted, names.trans taken, ?_⟩
  rw [← after]
  rfl

theorem TextsInStep.of_changes {b b' : Batch} (h : b.TextsInStep) (same : b'.shared = b.shared)
    {changes : List Change} {texts : List (String × String)}
    (names : keysOf texts = if b.shared then globalsEntered changes else [])
    (globals : b'.symbols.globals = ((b.symbols.replay changes).addTexts texts).globals)
    (moved : b'.symbols.globalTexts = ((b.symbols.replay changes).addTexts texts).globalTexts) :
    b'.TextsInStep := by
  unfold TextsInStep at h ⊢
  rw [same]
  cases hs : b.shared with
  | true =>
      rw [hs, if_pos rfl] at h names
      rw [if_pos rfl, moved, globals, Symbols.keysOf_addTexts, names, Symbols.globalTexts_replay, h,
        Symbols.addTexts_eq, Symbols.globals_replay]
  | false =>
      rw [hs, if_neg Bool.false_ne_true] at h names
      have none : texts = [] := List.map_eq_nil_iff.mp names
      rw [if_neg Bool.false_ne_true, moved, none]
      exact (Symbols.globalTexts_replay b.symbols changes).trans h

theorem Sound.render (h : b.Sound) (root : Node) (source : Option String) :
    b.symbols.Grows (b.render root source).batch.symbols ∧ (b.render root source).batch.Sound := by
  obtain ⟨changes, permitted, names, made⟩ := b.walked_changes root source
  obtain ⟨grows, known⟩ := Symbols.grows_replay h.enums permitted
  have apart : ∀ name g, b.symbols.globals.lookup name = some g → g.isExtern = false →
      name ∉ keysOf (b.moved root source) := by
    intro name g hg storage
    rw [names]
    split
    · exact Symbols.not_entered_of_final h.enums hg storage permitted
    · exact List.not_mem_nil
  have grown := grows.addTexts apart
  have known' : ((b.symbols.replay changes).addTexts (b.moved root source)).EnumsKnown := by
    rw [Symbols.addTexts_eq]
    exact known
  have same := b.shared_render root source
  have after := b.symbols_render root source
  rw [made] at after
  rcases after with after | after
  · rw [after]
    refine ⟨grown, ⟨by rw [after]; exact known', ?_⟩⟩
    exact h.texts.of_changes same names (by rw [after]) (by rw [after])
  · rw [after]
    refine ⟨grown.markFile, ⟨by rw [after]; exact known', ?_⟩⟩
    exact h.texts.of_changes same names (by rw [after]; rfl) (by rw [after]; rfl)

theorem Sound.after (h : b.Sound) (units : List (Node × Option String)) :
    b.symbols.Grows (b.after units).symbols ∧ (b.after units).Sound := by
  induction units generalizing b with
  | nil => exact ⟨.refl _, h⟩
  | cons unit rest ih =>
      obtain ⟨first, sound⟩ := h.render unit.1 unit.2
      obtain ⟨later, sound'⟩ := ih sound
      exact ⟨first.trans later, sound'⟩

theorem shared_after (b : Batch) (units : List (Node × Option String)) :
    (b.after units).shared = b.shared := by
  induction units generalizing b with
  | nil => rfl
  | cons unit rest ih => exact (ih _).trans (b.shared_render unit.1 unit.2)

theorem sound_fresh (shared : Bool) : ({ shared } : Batch).Sound where
  enums := fun _ h => absurd h List.not_mem_nil
  texts := by
    unfold TextsInStep
    cases shared <;> rfl

end Batch

/-- From any point of a batch on, the symbols only grow: through all later units, whether they fail
or not, and from each declaration of a unit to the later ones. Between units there is a text for
each global in the same order, or there are no texts at all. -/
theorem symbols_only_grow (shared : Bool) (earlier later : List (Node × Option String)) :
    let b := ({ shared } : Batch).after earlier
    b.symbols.Grows (b.after later).symbols ∧
    (if shared then keysOf b.symbols.globalTexts = keysOf b.symbols.globals
      else b.symbols.globalTexts = []) ∧
    ∀ (root : Node) (source : Option String) (i j : Nat), i ≤ j →
      (firstVisits (b.unitOf root source) b.symbols i).desk.symbols.Grows
        (firstVisits (b.unitOf root source) b.symbols j).desk.symbols := by
  intro b
  obtain ⟨_, sound⟩ := (Batch.sound_fresh shared).after earlier
  have same : b.shared = shared := Batch.shared_after _ earlier
  refine ⟨(sound.after later).1, ?_, fun root source i j h => ?_⟩
  · have texts := sound.texts
    rw [Batch.TextsInStep] at texts
    rwa [same] at texts
  · obtain ⟨before, permitted, reached⟩ :=
      firstVisits_changes (b.unitOf root source) b.symbols (Nat.zero_le i)
    obtain ⟨changes, permitted', reached'⟩ :=
      firstVisits_changes (b.unitOf root source) b.symbols h
    have start : (firstVisits (b.unitOf root source) b.symbols 0).desk.symbols = b.symbols := rfl
    rw [start] at permitted reached
    have known := (Symbols.grows_replay sound.enums permitted).2
    rw [← reached] at known
    rw [reached']
    exact (Symbols.grows_replay known permitted').1

/-- A unit that only announces a global. -/
def announcingUnit : Node :=
  let place : Place := { file := "a.c" }
  let info : Info := { kind := .varDecl, name := "limit", type := { spelling := "int" }, place }
  ⟨{}, [], [⟨{ info with storageClass := "extern" }, [], []⟩]⟩

/-- A unit that defines the global and then fails. -/
def failingUnit : Node :=
  let place : Place := { file := "b.c" }
  let info : Info := { kind := .varDecl, name := "limit", type := { spelling := "int" }, place }
  let one : Node := ⟨{ kind := .integerLiteral, value := some (.text "1") }, [], []⟩
  ⟨{}, [], [⟨info, [], [one]⟩, ⟨{ kind := .ifStmt, place }, [], []⟩]⟩

theorem failingUnit_grows :
    let b := ({ shared := true } : Batch).after [(announcingUnit, none)]
    b.symbols.globals.lookup "limit" = some ⟨"limit", "int", true⟩ ∧
    (b.render failingUnit none).result.isOk = false ∧
    keysOf b.symbols.globalTexts = keysOf b.symbols.globals ∧
    ∃ g, (b.after [(failingUnit, none)]).symbols.globals.lookup "limit" = some g ∧
      Spelling.sameType "int" g.type = true ∧ g.isExtern = false := by
  intro b
  have announced : b.symbols.globals.lookup "limit" = some ⟨"limit", "int", true⟩ := by
    decide +kernel
  have defined : (b.after [(failingUnit, none)]).symbols.globals.lookup "limit" =
      some ⟨"limit", "int", false⟩ := by
    decide +kernel
  have failed : (b.render failingUnit none).result.isOk = false := by
    decide +kernel
  have whole := symbols_only_grow true [(announcingUnit, none)] [(failingUnit, none)]
  have grows : b.symbols.Grows (b.after [(failingUnit, none)]).symbols := whole.1
  have texts : keysOf b.symbols.globalTexts = keysOf b.symbols.globals := whole.2.1
  obtain ⟨g, found, same⟩ := grows.completed "limit" _ announced rfl
  rw [defined, Option.some.injEq] at found
  subst found
  exact ⟨announced, failed, texts, _, defined, same, rfl⟩

end VFromC
