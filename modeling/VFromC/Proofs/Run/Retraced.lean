import VFromC.Proofs.Run.Session
/-!
What a run that succeeds has done. It goes back from the outputs of the run to the files that were
done one after the other, each with the text of its unit, and to all that was delivered.
-/
namespace VFromC.Run
open VFromC.Syntax

section Ran

variable {ε ε' α β : Type} {w w' w'' : World}

theorem ran_of_result {x : ExceptT ε (StateM World) α} {r : Except ε α} (h : (x.run w).1 = r) :
    Ran x w r (x.run w).2 := by
  rw [← h]
  rfl

theorem Ran.unique {x : ExceptT ε (StateM World) α} {r r' : Except ε α} (h : Ran x w r w')
    (h' : Ran x w r' w'') : r = r' ∧ w'' = w' := by
  obtain ⟨same, same'⟩ := Prod.mk.inj (h.symm.trans h')
  exact ⟨same, same'.symm⟩

theorem Ran.bind_cases {x : ExceptT ε (StateM World) α} {f : α → ExceptT ε (StateM World) β}
    {r : Except ε β} (h : Ran (x >>= f) w r w'') :
    (∃ a w', Ran x w (.ok a) w' ∧ Ran (f a) w' r w'') ∨
      ∃ e, r = .error e ∧ Ran x w (.error e) w'' := by
  cases hx : x.run w with
  | mk outcome w' =>
      cases outcome with
      | ok a =>
          have step : (x >>= f).run w = ExceptT.bindCont f (x.run w).1 (x.run w).2 := rfl
          rw [Ran, step, hx] at h
          exact .inl ⟨a, w', hx, h⟩
      | error e =>
          obtain ⟨rfl, rfl⟩ := h.unique (Ran.bind_error hx)
          exact .inr ⟨e, rfl, hx⟩

theorem Ran.of_bind {x : ExceptT ε (StateM World) α} {f : α → ExceptT ε (StateM World) β} {b : β}
    (h : Ran (x >>= f) w (.ok b) w'') : ∃ a w', Ran x w (.ok a) w' ∧ Ran (f a) w' (.ok b) w'' := by
  rcases h.bind_cases with found | ⟨e, failed, -⟩
  · exact found
  · cases failed

theorem Ran.of_attempt {x : ExceptT ε (StateM World) α}
    {f : Except ε α → ExceptT ε' (StateM World) β} {r' : Except ε' β}
    (h : Ran (ExceptT.lift x.run >>= f) w r' w'') :
    ∃ r w', Ran x w r w' ∧ Ran (f r) w' r' w'' :=
  ⟨(x.run w).1, (x.run w).2, rfl, h⟩

end Ran

section Site

variable {frontEnd : FrontEnd} {w w' : World} {path text : String}

theorem delivers_of_writeText
    (h : Ran (withFiles ((World.site frontEnd).writeText path text)) w (.ok ()) w') :
    Delivers [⟨path, text, false⟩] w w' := by
  have step : (withFiles ((World.site frontEnd).writeText path text)).run w =
      ((World.write path text w).1.mapError .file, (World.write path text w).2) := rfl
  cases hw : w.files.writeFile path text.toUTF8 with
  | error cause =>
      rw [Ran, step, World.write, hw] at h
      cases h
  | ok files =>
      have stored : deliverAll [⟨path, text, false⟩] w.files = .ok files := by
        rw [deliverAll, Delivery.into_beside, hw]
        rfl
      obtain ⟨w₁, writing, delivers⟩ := writeText_ok frontEnd stored
      obtain ⟨-, rfl⟩ := h.unique writing
      exact delivers

theorem makeDirs_of_ran (h : Ran (withFiles ((World.site frontEnd).makeDirs path)) w (.ok ()) w') :
    ∃ files, w.files.makeDirs path = .ok files ∧ w' = { w with files } := by
  have step : (withFiles ((World.site frontEnd).makeDirs path)).run w =
      ((World.change (fun files => files.makeDirs path) w).1.mapError .file,
        (World.change (fun files => files.makeDirs path) w).2) := rfl
  cases hm : w.files.makeDirs path with
  | error cause =>
      rw [Ran, step, World.change, hm] at h
      cases h
  | ok files => exact ⟨files, rfl, (h.unique (ran_makeDirs frontEnd hm)).2.symm⟩

theorem delivers_of_deliver (h : Ran (deliver (World.site frontEnd) path text) w (.ok ()) w') :
    Delivers [⟨path, text, true⟩] w w' := by
  have dir : (Delivery.mk path text true).dir = (parent? path).getD "" := rfl
  unfold deliver at h
  by_cases hd : (parent? path).getD "" = ""
  · rw [if_neg fun h => h hd] at h
    obtain ⟨_, w₁, noted, h⟩ := h.of_bind
    obtain ⟨-, rfl⟩ := noted.unique (ran_note frontEnd _ w)
    have written := (delivers_note _ w).trans (delivers_of_writeText h)
    refine ⟨?_, written.written⟩
    have stored := written.files
    rw [List.nil_append, deliverAll, Delivery.into_beside] at stored
    rw [deliverAll, Delivery.into, dir, if_pos hd]
    exact stored
  · rw [if_pos hd] at h
    obtain ⟨_, w₁, making, h⟩ := h.of_bind
    obtain ⟨files, made, rfl⟩ := makeDirs_of_ran making
    obtain ⟨_, w₂, noted, h⟩ := h.of_bind
    obtain ⟨-, rfl⟩ := noted.unique (ran_note frontEnd _ _)
    have written := delivers_of_writeText h
    refine ⟨?_, written.written⟩
    have stored := written.files
    rw [deliverAll, Delivery.into_beside] at stored
    rw [deliverAll, Delivery.into, dir, if_neg hd, made]
    exact stored

/-- The step can fail at a file only. -/
def FailsAtFiles {α : Type} (x : ExceptT Trouble (StateM World) α) : Prop :=
  ∀ w e w', Ran x w (.error e) w' → ∃ cause, e = .file cause

theorem failsAtFiles_withFiles {α : Type} (x : StateM World (Except FileFault α)) :
    FailsAtFiles (withFiles x) := by
  intro w e w' h
  have step : (withFiles x).run w = ((x w).1.mapError .file, (x w).2) := rfl
  rw [Ran, step] at h
  cases hx : (x w).1 with
  | ok a => rw [hx] at h; cases h
  | error cause =>
      rw [hx] at h
      cases h
      exact ⟨cause, rfl⟩

theorem failsAtFiles_lift {α : Type} (x : StateM World α) :
    FailsAtFiles (ExceptT.lift x) := by
  intro w e w' h
  cases h

theorem failsAtFiles_pure {α : Type} (a : α) : FailsAtFiles (pure a) := by
  intro w e w' h
  cases h

theorem FailsAtFiles.bind {α β : Type} {x : ExceptT Trouble (StateM World) α}
    {f : α → ExceptT Trouble (StateM World) β} (hx : FailsAtFiles x)
    (hf : ∀ a, FailsAtFiles (f a)) : FailsAtFiles (x >>= f) := by
  intro w e w'' h
  rcases h.bind_cases with ⟨a, w', -, failed⟩ | ⟨_, same, failed⟩
  · exact hf a w' e w'' failed
  · cases same
    exact hx w e w'' failed

theorem failsAtFiles_deliver (frontEnd : FrontEnd) (path text : String) :
    FailsAtFiles (deliver (World.site frontEnd) path text) := by
  have writing : FailsAtFiles (do
      ExceptT.lift ((World.site frontEnd).note [debug s!"writing {path}"])
      withFiles ((World.site frontEnd).writeText path text)) :=
    (failsAtFiles_lift _).bind fun _ => failsAtFiles_withFiles _
  unfold deliver
  dsimp only
  split
  · exact (failsAtFiles_withFiles _).bind fun _ => writing
  · exact writing

end Site

namespace Start

/-- The same run with other files. -/
def seeing (s : Start) (files : FileStore) : Start := { s with files }

variable {s : Start} {w w' : World} {batch next last : Batch} {path : String}

theorem load_of_ran {loaded : String × Option String}
    (h : Ran (load (World.site s.frontEnd) s.options path) w (.ok loaded) w') :
    (s.seeing w.files).read path = .ok loaded ∧
      Delivers ((s.seeing w.files).keptTree path) w w' := by
  have kept : ∀ {loaded}, (s.seeing w.files).read path = .ok loaded →
      (s.seeing w.files).keptTree path =
        if s.options.keepAst ∧ extension? path ≠ some "json" then
          [⟨withExtension path "json", loaded.1, false⟩] else [] := by
    intro loaded read
    rw [keptTree, read]
    rfl
  have readAs : (s.seeing w.files).read path = s.readIn w.files path := rfl
  unfold load at h
  by_cases hj : extension? path = some "json"
  · rw [if_pos hj] at h
    obtain ⟨document, w₁, reading, h⟩ := h.of_bind
    obtain ⟨found, rfl⟩ := reading.unique (ran_readText s.frontEnd path w)
    obtain ⟨source, w₂, looking, h⟩ := h.of_bind
    obtain ⟨there, rfl⟩ := looking.unique (ran_lookAt s.frontEnd _ w)
    obtain ⟨same, rfl⟩ := h.unique (ran_pure _ w)
    have read : (s.seeing w.files).read path = .ok loaded := by
      rw [readAs, readIn, if_pos hj, ← found, same, Except.ok.inj there]
      rfl
    rw [kept read, if_neg fun both => both.2 hj]
    exact ⟨read, delivers_nothing rfl rfl⟩
  · rw [if_neg hj] at h
    obtain ⟨source, w₁, reading, h⟩ := h.of_bind
    obtain ⟨found, rfl⟩ := reading.unique (ran_readText s.frontEnd path w)
    obtain ⟨document, w₂, dumping, h⟩ := h.of_bind
    obtain ⟨w₃, dumped, untouched⟩ := dumpTree_ran (s := s) w path
    obtain ⟨printed, rfl⟩ := dumping.unique dumped
    have read : (s.seeing w.files).read path = .ok (document, some source) := by
      rw [readAs, readIn, if_neg hj, ← found]
      change (((s.treeIn w.files path).mapError _).map _) = _
      rw [← printed]
      rfl
    rw [kept read]
    by_cases hk : s.options.keepAst
    · rw [if_pos hk] at h
      obtain ⟨_, w₄, writing, h⟩ := h.of_bind
      cases h
      rw [if_pos ⟨hk, hj⟩]
      exact ⟨read, untouched.trans (delivers_of_writeText writing)⟩
    · rw [if_neg hk] at h
      cases h
      rw [if_neg fun both => hk both.1]
      exact ⟨read, untouched⟩

/-- Once its front end has printed a tree, a file can fail to be read at files only. -/
theorem load_fault {loaded : String × Option String} {e : Trouble}
    (read : s.readIn w.files path = .ok loaded)
    (h : Ran (load (World.site s.frontEnd) s.options path) w (.error e) w') :
    ∃ cause, e = .file cause := by
  unfold load at h
  unfold readIn at read
  by_cases hj : extension? path = some "json"
  · rw [if_pos hj] at h
    have steps := (failsAtFiles_withFiles ((World.site s.frontEnd).readText path)).bind
      fun document => (failsAtFiles_lift ((World.site s.frontEnd).readText
        (withExtension path "c"))).bind fun source =>
          failsAtFiles_pure (document, source.toOption)
    exact steps w e w' h
  · rw [if_neg hj] at h read
    rcases h.bind_cases with ⟨source, w₁, reading, h⟩ | ⟨_, same, failed⟩
    · obtain ⟨found, rfl⟩ := reading.unique (ran_readText s.frontEnd path w)
      rcases h.bind_cases with ⟨document, w₂, -, h⟩ | ⟨_, same, failed⟩
      · have steps : FailsAtFiles (do
            if s.options.keepAst then
              withFiles ((World.site s.frontEnd).writeText (withExtension path "json") document)
            pure (document, some source)) := by
          split
          · exact (failsAtFiles_withFiles _).bind fun _ => failsAtFiles_pure _
          · exact failsAtFiles_pure _
        exact steps w₂ e w' h
      · obtain ⟨w₃, dumped, -⟩ := dumpTree_ran (s := s) w path
        obtain ⟨printed, -⟩ := failed.unique dumped
        rw [← found] at read
        change (((s.treeIn w.files path).mapError _).map _) = _ at read
        rw [← printed] at read
        cases read
    · cases same
      exact failsAtFiles_withFiles _ w e w' failed

theorem doInput_of_ran {target : String}
    (h : Ran (doInput (World.site s.frontEnd) s.options batch path) w (.ok (target, next)) w') :
    target = unitPath s.options.outputDir path ∧
      ∃ text, (s.seeing w.files).unit batch path = .ok (text, next) ∧
        Delivers ((s.seeing w.files).keptTree path ++ [s.unitFor path text]) w w' := by
  unfold doInput at h
  obtain ⟨loaded, w₁, loading, h⟩ := h.of_bind
  obtain ⟨read, keeps⟩ := load_of_ran loading
  obtain ⟨rendered, w₂, rendering, h⟩ := h.of_bind
  obtain ⟨w₃, translating, untouched⟩ := render_ran (s := s) w₁ batch loaded
  obtain ⟨translated, rfl⟩ := rendering.unique translating
  obtain ⟨_, w₄, delivering, h⟩ := h.of_bind
  cases h
  refine ⟨rfl, rendered.1, ?_, (keeps.then untouched).trans (delivers_of_deliver delivering)⟩
  rw [unit, read]
  exact translated.symm

/-- Nothing is delivered for a file on which the front end fails. -/
theorem doInput_refused {fault : FrontEndFault}
    (h : Ran (doInput (World.site s.frontEnd) s.options batch path) w
      (.error (.frontEnd fault)) w') : Delivers [] w w' := by
  unfold doInput at h
  rcases h.bind_cases with ⟨loaded, w₁, loading, h⟩ | ⟨_, same, failed⟩
  · obtain ⟨read, -⟩ := load_of_ran loading
    rcases h.bind_cases with ⟨rendered, w₂, -, h⟩ | ⟨_, same, failed⟩
    · have steps := (failsAtFiles_deliver s.frontEnd (unitPath s.options.outputDir path)
        rendered.1).bind fun _ =>
          failsAtFiles_pure (unitPath s.options.outputDir path, rendered.2)
      obtain ⟨cause, impossible⟩ := steps _ _ _ h
      cases impossible
    · cases same
      obtain ⟨w₃, translating, -⟩ := render_ran (s := s) w₁ batch loaded
      obtain ⟨translated, -⟩ := failed.unique translating
      have failing : (s.seeing w.files).unit batch path = .error (.frontEnd fault) := by
        rw [unit, read]
        exact translated.symm
      have refused := refuses_of_unit failing
      rw [refuses, read] at refused
      cases refused
  · cases same
    cases read : s.readIn w.files path with
    | ok loaded =>
        obtain ⟨cause, impossible⟩ := load_fault read failed
        cases impossible
    | error trouble =>
        obtain ⟨w₁, loading, untouched⟩ := load_error read
        obtain ⟨-, rfl⟩ := failed.unique loading
        exact untouched

end Start

/-- A file that a run has done: the tree that it kept, and the text of the unit. -/
structure Done where
  path : String
  kept : List Delivery
  text : String

namespace Start

def deliveriesOf (s : Start) (d : Done) : List Delivery := d.kept ++ [s.unitFor d.path d.text]

/-- Files are done one after the other. What is made of a file is made of what there is to read when
its turn comes. -/
inductive Does (s : Start) : Batch → FileStore → List Done → Batch → FileStore → Prop
  | nothing (batch : Batch) (files : FileStore) : s.Does batch files [] batch files
  | more {batch next last : Batch} {files after final : FileStore} {d : Done} {rest : List Done}
      (unit : (s.seeing files).unit batch d.path = .ok (d.text, next))
      (kept : d.kept = (s.seeing files).keptTree d.path)
      (delivered : deliverAll (s.deliveriesOf d) files = .ok after)
      (going : s.Does next after rest last final) : s.Does batch files (d :: rest) last final

variable {s : Start} {w w' : World} {batch last : Batch}

theorem Does.delivered {files final : FileStore} {done : List Done}
    (h : s.Does batch files done last final) :
    deliverAll (done.flatMap s.deliveriesOf) files = .ok final := by
  induction h with
  | nothing => rfl
  | more _ _ delivered _ ih =>
      rw [List.flatMap_cons, deliverAll_append, delivered]
      exact ih

theorem kept_path {path : String} {e : Delivery} (h : e ∈ s.keptTree path) :
    e.path = withExtension path "json" := by
  unfold keptTree at h
  split at h
  · split at h
    · rw [List.mem_singleton.1 h]
    · cases h
  · cases h

theorem Does.kept_path {files final : FileStore} {done : List Done}
    (h : s.Does batch files done last final) {d : Done} (hd : d ∈ done) {e : Delivery}
    (he : e ∈ d.kept) : e.path = withExtension d.path "json" := by
  induction h with
  | nothing => cases hd
  | more _ kept _ _ ih =>
      rcases List.mem_cons.1 hd with rfl | hd
      · rw [kept] at he
        exact Start.kept_path he
      · exact ih hd

theorem doInputs_of_ran {paths : List String} {outputs outputs' : Outputs}
    (h : Ran (doInputs (World.site s.frontEnd) s.options batch outputs paths) w
      (.ok (last, outputs')) w') :
    ∃ done, s.Does batch w.files done last w'.files ∧ (done.map Done.path).Sublist paths ∧
      outputs'.units = outputs.units ++
        done.map fun d => unitPath s.options.outputDir d.path := by
  induction paths generalizing batch outputs w with
  | nil =>
      cases h
      exact ⟨[], .nothing _ _, List.Sublist.slnil, by simp⟩
  | cons path rest ih =>
      rw [doInputs] at h
      obtain ⟨_, w₀, entered, h⟩ := h.of_bind
      obtain ⟨-, rfl⟩ := entered.unique (ran_setCurrent s.frontEnd (some path) w)
      obtain ⟨r, w₁, attempt, h⟩ := h.of_attempt
      cases r with
      | ok result =>
          obtain ⟨target, next⟩ := result
          obtain ⟨rfl, text, unit, delivers⟩ := doInput_of_ran attempt
          obtain ⟨_, w₂, noted, h⟩ := h.of_bind
          obtain ⟨-, rfl⟩ := noted.unique (ran_note s.frontEnd _ w₁)
          obtain ⟨done, does, sub, units⟩ := ih h
          refine ⟨⟨path, (s.seeing w.files).keptTree path, text⟩ :: done,
            .more unit rfl delivers.files does, sub.cons_cons path, ?_⟩
          rw [units, Outputs.addUnit]
          simp
      | error trouble =>
          cases trouble with
          | frontEnd fault =>
              dsimp only at h
              split at h
              · obtain ⟨_, w₂, noted, h⟩ := h.of_bind
                obtain ⟨-, rfl⟩ := noted.unique (ran_note s.frontEnd _ w₁)
                obtain ⟨done, does, sub, units⟩ := ih h
                have same : w₁.files = w.files := (doInput_refused attempt).files_eq
                dsimp only at does
                rw [same] at does
                exact ⟨done, does, sub.cons path, units⟩
              · cases h
          | _ => cases h

theorem ending_of_ran {outputs outputs' : Outputs}
    (h : Ran (s.ending (last, outputs)) w (.ok outputs') w') :
    outputs'.units = outputs.units ∧ Delivers (s.globals last) w w' := by
  unfold ending at h
  unfold globals
  have cleared := delivers_setCurrent none w
  obtain ⟨_, w₀, entered, h⟩ := h.of_bind
  obtain ⟨-, rfl⟩ := entered.unique (ran_setCurrent s.frontEnd none w)
  cases hd : s.dir? with
  | none =>
      rw [hd] at h
      cases h
      exact ⟨rfl, cleared⟩
  | some dir =>
      rw [hd] at h
      obtain ⟨path, w₁, delivering, h⟩ := h.of_bind
      cases h
      refine ⟨rfl, ?_⟩
      unfold deliverGlobals at delivering
      obtain ⟨_, w₂, noted, h⟩ := delivering.of_bind
      obtain ⟨-, rfl⟩ := noted.unique (ran_note s.frontEnd _ _)
      obtain ⟨_, w₃, delivered, h⟩ := h.of_bind
      obtain ⟨_, w₄, noted', h⟩ := h.of_bind
      obtain ⟨-, rfl⟩ := noted'.unique (ran_note s.frontEnd _ w₃)
      cases h
      exact cleared.trans ((delivers_note _ _).trans
        ((delivers_of_deliver delivered).then (delivers_note _ w₃)))

theorem doAll_of_run {outputs : Outputs}
    (h : Ran (run (World.site s.frontEnd) s.options) w (.ok outputs) w') :
    Ran (doAll (World.site s.frontEnd) s.options) w (.ok outputs) w' := by
  obtain ⟨r, w₁, all, h⟩ := h.of_attempt
  cases r with
  | error trouble => cases h
  | ok done =>
      cases h
      exact all

/-- A run that succeeds has done some of its files in their order, and has then delivered the
globals. -/
theorem run_of_ran {outputs : Outputs}
    (h : Ran (run (World.site s.frontEnd) s.options) s.world (.ok outputs) w) :
    ∃ done last files, s.Does s.fresh s.files done last files ∧
      (done.map Done.path).Sublist s.paths ∧
      outputs.units = done.map (fun d => unitPath s.options.outputDir d.path) ∧
      deliverAll (s.globals last) files = .ok w.files := by
  obtain ⟨expanded, w₁, expanding, h⟩ := (doAll_of_run h).of_bind
  obtain ⟨same, rfl⟩ := expanding.unique ran_expandAll
  cases same
  dsimp only at h
  by_cases none_found : s.paths = []
  · rw [if_pos none_found] at h
    cases h
  · rw [if_neg none_found] at h
    have whole : Ran (doInputs (World.site s.frontEnd) s.options s.fresh {} s.paths >>= s.ending)
        s.world (.ok outputs) w := h
    obtain ⟨⟨last, middle⟩, w₂, doing, ended⟩ := whole.of_bind
    obtain ⟨done, does, sub, units⟩ := doInputs_of_ran doing
    obtain ⟨same, globals⟩ := ending_of_ran ended
    exact ⟨done, last, w₂.files, does, sub, same.trans (by simpa using units), globals.files⟩

end Start

end VFromC.Run
