import VFromC.Proofs.Run.Inputs
/-!
A run is one session over the files that the front end accepts. The main statement says which texts
it delivers, and where it stops.
-/
namespace VFromC.Run
open VFromC.Syntax

namespace Start

variable (s : Start)

/-- One session over files: the texts of their units, and the batch in the end. -/
def session : Batch → List String → Except Trouble (List String × Batch)
  | batch, [] => .ok ([], batch)
  | batch, path :: rest =>
      (s.unit batch path).bind fun out =>
        (session out.2 rest).map fun done => (out.1 :: done.1, done.2)

/-- What is read for files is the same now as at the start. -/
def Steady (paths : List String) (files : FileStore) : Prop :=
  ∀ path ∈ paths, s.readIn files path = s.read path

/-- The deliveries do not change what is read for files. -/
def Undisturbed (paths : List String) : List Delivery → FileStore → Prop
  | [], files => s.Steady paths files
  | d :: rest, files =>
      s.Steady paths files ∧ ∀ next ∈ (d.into files).toOption, Undisturbed paths rest next

instance (paths : List String) (files : FileStore) : Decidable (s.Steady paths files) :=
  inferInstanceAs (Decidable (∀ path ∈ paths, s.readIn files path = s.read path))

instance decidableUndisturbed (paths : List String) :
    (ds : List Delivery) → (files : FileStore) → Decidable (s.Undisturbed paths ds files)
  | [], files => inferInstanceAs (Decidable (s.Steady paths files))
  | d :: rest, files =>
      haveI := decidableUndisturbed paths rest
      inferInstanceAs (Decidable
        (s.Steady paths files ∧ ∀ next ∈ (d.into files).toOption, s.Undisturbed paths rest next))

variable {s}

theorem Undisturbed.now {paths : List String} {ds : List Delivery} {files : FileStore}
    (h : s.Undisturbed paths ds files) : s.Steady paths files := by
  cases ds with
  | nil => exact h
  | cons d rest => exact h.1

theorem Undisturbed.fewer {paths fewer : List String} {ds : List Delivery} {files : FileStore}
    (h : s.Undisturbed paths ds files) (sub : ∀ path ∈ fewer, path ∈ paths) :
    s.Undisturbed fewer ds files := by
  induction ds generalizing files with
  | nil => exact fun path hp => h path (sub path hp)
  | cons d rest ih => exact ⟨fun path hp => h.1 path (sub path hp), fun next hn => ih (h.2 next hn)⟩

theorem Undisturbed.later {paths : List String} {ds es : List Delivery} {files next : FileStore}
    (h : s.Undisturbed paths (ds ++ es) files) (delivered : deliverAll ds files = .ok next) :
    s.Undisturbed paths es next := by
  induction ds generalizing files with
  | nil =>
      cases delivered
      exact h
  | cons d rest ih =>
      obtain ⟨middle, into, delivered⟩ := bind_eq_ok delivered
      exact ih (h.2 middle (by rw [into]; rfl)) delivered

theorem session_cons {batch last : Batch} {path : String} {rest texts : List String}
    (h : s.session batch (path :: rest) = .ok (texts, last)) :
    ∃ text next more, s.unit batch path = .ok (text, next) ∧
      s.session next rest = .ok (more, last) ∧ texts = text :: more := by
  rw [session] at h
  obtain ⟨⟨text, next⟩, unit, h⟩ := bind_eq_ok h
  cases hs : s.session next rest with
  | error trouble => rw [hs] at h; cases h
  | ok done =>
      rw [hs] at h
      cases h
      exact ⟨text, next, done.1, unit, hs, rfl⟩

theorem shared_unit {batch next : Batch} {path text : String}
    (h : s.unit batch path = .ok (text, next)) : next.shared = batch.shared := by
  obtain ⟨loaded, -, translated⟩ := bind_eq_ok h
  exact shared_translate translated

theorem shared_session {batch last : Batch} {paths texts : List String}
    (h : s.session batch paths = .ok (texts, last)) : last.shared = batch.shared := by
  induction paths generalizing batch texts with
  | nil => cases h; rfl
  | cons path rest ih =>
      obtain ⟨text, next, more, unit, remaining, -⟩ := session_cons h
      exact (ih remaining).trans (shared_unit unit)

theorem deliveries_cons (path text : String) (paths texts : List String) :
    s.deliveries (path :: paths) (text :: texts) =
      (s.keptTree path ++ [s.unitFor path text]) ++ s.deliveries paths texts := rfl

theorem unit_of_refuses (batch : Batch) {path : String} (h : s.refuses path = true) :
    s.keptTree path = [] ∧ ∃ fault, s.unit batch path = .error (.frontEnd fault) := by
  unfold refuses at h
  unfold keptTree unit
  cases hr : s.read path with
  | ok loaded => rw [hr] at h; cases h
  | error trouble =>
      rw [hr] at h
      cases trouble with
      | frontEnd fault => exact ⟨rfl, fault, rfl⟩
      | _ => cases h

theorem doInputs_of_ok {w w₁ : World} {batch next : Batch} {path target : String}
    (h : Ran (doInput (World.site s.frontEnd) s.options batch path) { w with current := some path }
      (.ok (target, next)) w₁) :
    ∃ w₂, (∀ outputs rest r w'',
        Ran (doInputs (World.site s.frontEnd) s.options next (outputs.addUnit target) rest)
          w₂ r w'' →
        Ran (doInputs (World.site s.frontEnd) s.options batch outputs (path :: rest)) w r w'') ∧
      Delivers [] w₁ w₂ := by
  refine ⟨_, ?_, delivers_note [info s!"translated {path} -> {target}"] w₁⟩
  intro outputs rest r w'' going
  rw [doInputs]
  refine (ran_setCurrent s.frontEnd (some path) w).bind ?_
  exact h.attempt ((ran_note s.frontEnd _ w₁).bind going)

theorem doInputs_of_refused {w w₁ : World} {batch : Batch} {path : String} {fault : FrontEndFault}
    (h : Ran (doInput (World.site s.frontEnd) s.options batch path) { w with current := some path }
      (.error (.frontEnd fault)) w₁)
    (shared : batch.shared = true) :
    ∃ w₂, (∀ outputs rest r w'',
        Ran (doInputs (World.site s.frontEnd) s.options batch (outputs.skip path) rest) w₂ r w'' →
        Ran (doInputs (World.site s.frontEnd) s.options batch outputs (path :: rest)) w r w'') ∧
      Delivers [] w₁ w₂ := by
  refine ⟨_, ?_, delivers_note [warning s!"skipping {path}: {fault.message}"] w₁⟩
  intro outputs rest r w'' going
  rw [doInputs]
  refine (ran_setCurrent s.frontEnd (some path) w).bind (h.attempt ?_)
  dsimp only
  rw [if_pos shared]
  exact (ran_note s.frontEnd _ w₁).bind going

/-- A trouble that does not make the run skip the file ends it there, with the file at work. -/
theorem doInputs_stop {w w₁ : World} {batch : Batch} {path : String} {trouble : Trouble}
    (h : Ran (doInput (World.site s.frontEnd) s.options batch path) { w with current := some path }
      (.error trouble) w₁)
    (unskipped : batch.shared = true → ∀ fault, trouble ≠ .frontEnd fault) (outputs : Outputs)
    (rest : List String) :
    Ran (doInputs (World.site s.frontEnd) s.options batch outputs (path :: rest)) w
      (.error trouble) w₁ ∧ w₁.current = some path := by
  refine ⟨?_, h.keepsCurrent (keepsCurrent_doInput s.frontEnd s.options batch path)⟩
  rw [doInputs]
  refine (ran_setCurrent s.frontEnd (some path) w).bind (h.attempt ?_)
  cases trouble with
  | frontEnd fault =>
      dsimp only
      rw [if_neg fun shared => unskipped shared fault rfl]
      exact ran_throw _ w₁
  | _ => exact ran_throw _ w₁

/-- Files of which none fails are done, and the run goes on behind them with the batch that the
session leaves. -/
theorem doInputs_append {batch last : Batch} {paths texts : List String} {files : FileStore}
    (outputs : Outputs) (w : World) (mode : batch.shared = s.isShared)
    (folded : s.session batch (s.accepted paths) = .ok (texts, last))
    (delivered : deliverAll (s.deliveries (s.accepted paths) texts) w.files = .ok files)
    (undisturbed :
      s.Undisturbed paths (s.deliveries (s.accepted paths) texts) w.files) :
    ∃ w', Delivers (s.deliveries (s.accepted paths) texts) w w' ∧
      ∀ rest r w'',
        Ran (doInputs (World.site s.frontEnd) s.options last
          (s.extend paths outputs) rest) w' r w'' →
        Ran (doInputs (World.site s.frontEnd) s.options batch outputs (paths ++ rest)) w r w'' := by
  induction paths generalizing batch outputs texts w with
  | nil =>
      cases folded
      refine ⟨w, delivers_nothing rfl rfl, ?_⟩
      intro rest r w'' go
      rwa [extend_nil] at go
  | cons path paths ih =>
      by_cases skip : s.skips path = true
      · rw [accepted_cons_of_skips skip] at folded delivered undisturbed ⊢
        obtain ⟨shared, refused⟩ := Bool.and_eq_true_iff.1 skip
        obtain ⟨kept, fault, failed⟩ := unit_of_refuses batch refused
        obtain ⟨w₁, attempt, untouched⟩ := doInput_error (w := { w with current := some path })
          (undisturbed.now path (List.mem_cons_self ..)) failed (by rw [kept]; rfl)
        rw [kept] at untouched
        have untouched := (delivers_setCurrent (some path) w).trans untouched
        obtain ⟨w₂, skipping, untouched'⟩ := doInputs_of_refused attempt (mode.trans shared)
        have same : w₂.files = w.files := untouched'.files_eq.trans untouched.files_eq
        rw [← same] at delivered undisturbed
        obtain ⟨w', delivers, go⟩ := ih _ _ mode folded delivered
          (undisturbed.fewer fun p hp => List.mem_cons_of_mem path hp)
        refine ⟨w', (untouched.then untouched').trans delivers, ?_⟩
        intro rest r w'' going
        rw [extend_cons_of_skips skip] at going
        exact skipping _ _ _ _ (go rest r w'' going)
      · rw [accepted_cons_of_not_skips skip] at folded delivered undisturbed ⊢
        obtain ⟨text, next, more, unit, remaining, rfl⟩ := session_cons folded
        rw [deliveries_cons] at delivered undisturbed ⊢
        obtain ⟨middle, first, second⟩ := deliverAll_split delivered
        obtain ⟨w₁, doing, delivers⟩ := doInput_ok (w := { w with current := some path })
          (undisturbed.now path (List.mem_cons_self ..)) unit first
        have delivers := (delivers_setCurrent (some path) w).trans delivers
        obtain ⟨w₂, adding, untouched⟩ := doInputs_of_ok doing
        have same : middle = w₂.files := by
          rw [untouched.files_eq]
          exact Except.ok.inj (first.symm.trans delivers.files)
        have later := (undisturbed.later first).fewer fun p hp => List.mem_cons_of_mem path hp
        rw [same] at second later
        obtain ⟨w', delivers', go⟩ :=
          ih _ _ ((shared_unit unit).trans mode) remaining second later
        refine ⟨w', (delivers.then untouched).trans delivers', ?_⟩
        intro rest r w'' going
        rw [extend_cons_of_not_skips skip] at going
        exact adding _ _ _ _ (go rest r w'' going)

/-- The globals of a run with a directory. -/
def globalsFor (s : Start) (dir : String) (batch : Batch) : Delivery :=
  ⟨joined (s.options.outputDir.getD dir) s.options.globalsFile, batch.globalsFile, true⟩

theorem deliverGlobals_ok {w : World} {dir : String} {batch : Batch} {files : FileStore}
    (h : deliverAll [s.globalsFor dir batch] w.files = .ok files) :
    ∃ w', Ran (deliverGlobals (World.site s.frontEnd) s.options dir batch) w
        (.ok (s.globalsFor dir batch).path) w' ∧ Delivers [s.globalsFor dir batch] w w' := by
  have noted := delivers_note batch.globalsJournal w
  rw [← noted.files_eq] at h
  obtain ⟨w₁, delivering, delivers⟩ := deliver_ok s.frontEnd h
  refine ⟨_, (ran_note s.frontEnd _ w).bind (delivering.bind
    ((ran_note s.frontEnd _ w₁).bind (ran_pure _ _))), ?_⟩
  exact noted.trans (delivers.then (delivers_note _ w₁))

theorem deliverGlobals_error {w : World} {dir : String} {batch : Batch} {cause : FileFault}
    (h : (s.globalsFor dir batch).into w.files = .error cause) :
    ∃ w', Ran (deliverGlobals (World.site s.frontEnd) s.options dir batch) w
        (.error (.file cause)) w' ∧ Undelivered (s.globalsFor dir batch) w w' := by
  obtain ⟨w₁, delivering, fails⟩ := deliver_error s.frontEnd
    (w := { w with journal := w.journal ++ batch.globalsJournal }) h
  exact ⟨w₁, (ran_note s.frontEnd _ w).bind delivering.bind_error, fails.files, fails.written⟩

/-- The globals file is delivered in a run with a directory only. -/
def globals (s : Start) (batch : Batch) : List Delivery :=
  s.dir?.toList.map fun dir => s.globalsFor dir batch

def world (s : Start) : World := { files := s.files }

/-- What is left to do after the last file. -/
def ending (s : Start) (done : Batch × Outputs) : ExceptT Trouble (StateM World) Outputs := do
  ExceptT.lift ((World.site s.frontEnd).setCurrent none)
  match s.dir? with
  | none => pure done.2
  | some dir =>
      let path ← deliverGlobals (World.site s.frontEnd) s.options dir done.1
      pure { done.2 with globals := some path }

theorem ran_expandAll :
    Ran (expandAll (World.site s.frontEnd) s.options.inputs) s.world (.ok (s.dir?, s.paths))
      s.world :=
  expandAll_ran s.world rfl s.options.inputs

/-- A run that fails tells its trouble with the input at work. -/
theorem run_eq (some_paths : s.paths ≠ []) {r : Except Trouble Outputs} {w : World}
    (h : Ran (doInputs (World.site s.frontEnd) s.options s.fresh {} s.paths >>= s.ending)
      s.world r w) :
    Ran (run (World.site s.frontEnd) s.options) s.world
      (r.mapError fun trouble => { trouble, input := w.current }) w := by
  have all : Ran (doAll (World.site s.frontEnd) s.options) s.world r w := by
    refine ran_expandAll.bind ?_
    dsimp only
    rw [if_neg some_paths]
    exact h
  refine all.attempt ?_
  cases r with
  | ok outputs => exact ran_pure _ w
  | error trouble => rfl

theorem ending_ok {w : World} {batch : Batch} (outputs : Outputs) {files : FileStore}
    (h : deliverAll (s.globals batch) w.files = .ok files) :
    ∃ w', Ran (s.ending (batch, outputs)) w
        (.ok { outputs with
          globals :=
            (s.dir?.map fun dir => (s.globalsFor dir batch).path) <|> outputs.globals }) w' ∧
      Delivers (s.globals batch) w w' ∧ w'.current = none := by
  have cleared := ran_setCurrent (ε := Trouble) s.frontEnd none w
  unfold globals at h ⊢
  unfold ending
  cases hd : s.dir? with
  | none => exact ⟨_, cleared.bind (ran_pure _ _), delivers_setCurrent none w, rfl⟩
  | some dir =>
      rw [hd] at h
      obtain ⟨w', delivering, delivers⟩ := deliverGlobals_ok (w := { w with current := none }) h
      exact ⟨w', cleared.bind (delivering.bind (ran_pure _ w')),
        (delivers_setCurrent none w).trans delivers,
        delivering.keepsCurrent (keepsCurrent_deliverGlobals s.frontEnd s.options dir batch)⟩

theorem ending_error {w : World} {batch : Batch} (outputs : Outputs) {g : Delivery}
    {cause : FileFault} (hg : g ∈ s.globals batch) (h : g.into w.files = .error cause) :
    ∃ w', Ran (s.ending (batch, outputs)) w (.error (.file cause)) w' ∧ Undelivered g w w' ∧
      w'.current = none := by
  unfold globals at hg
  unfold ending
  cases hd : s.dir? with
  | none =>
      rw [hd] at hg
      cases hg
  | some dir =>
      rw [hd] at hg
      obtain rfl := List.mem_singleton.1 hg
      obtain ⟨w', delivering, fails⟩ := deliverGlobals_error (w := { w with current := none }) h
      exact ⟨w', (ran_setCurrent s.frontEnd none w).bind delivering.bind_error,
        ⟨fails.files, fails.written⟩,
        delivering.keepsCurrent (keepsCurrent_deliverGlobals s.frontEnd s.options dir batch)⟩

theorem refuses_of_unit {batch : Batch} {path : String} {fault : FrontEndFault}
    (h : s.unit batch path = .error (.frontEnd fault)) : s.refuses path = true := by
  unfold unit at h
  unfold refuses
  cases hr : s.read path with
  | error trouble =>
      rw [hr] at h
      cases h
      rfl
  | ok loaded =>
      rw [hr] at h
      change translate batch loaded = _ at h
      unfold translate at h
      cases hp : parseUnit loaded.1 with
      | error flaw => rw [hp] at h; cases h
      | ok root =>
          rw [hp] at h
          change (((batch.render root loaded.2).result.mapError _).map _ = _) at h
          cases hb : (batch.render root loaded.2).result <;> rw [hb] at h <;> cases h

theorem ne_frontEnd_of_not_skips {batch : Batch} {path : String} {trouble : Trouble}
    (h : s.unit batch path = .error trouble) (unskipped : s.skips path = false)
    (isShared : s.isShared = true) (fault : FrontEndFault) : trouble ≠ .frontEnd fault := by
  rintro rfl
  rw [skips, isShared, refuses_of_unit h] at unskipped
  cases unskipped

/-- One session over some files of a run succeeds, except for those that are skipped. What it
delivers can be written, and does not change what the run reads. -/
structure Reaches (s : Start) (paths texts : List String) (batch : Batch) (files : FileStore) :
    Prop where
  folded : s.session s.fresh (s.accepted paths) = .ok (texts, batch)
  delivered : deliverAll (s.deliveries (s.accepted paths) texts) s.files = .ok files
  undisturbed : s.Undisturbed s.paths (s.deliveries (s.accepted paths) texts) s.files

/-- The run ends with a stop, which has the input at work, and it has written some deliveries. -/
def StopsWith (s : Start) (stop : Stop) (written : List Delivery) (files : FileStore) : Prop :=
  ∃ w, Ran (run (World.site s.frontEnd) s.options) s.world (.error stop) w ∧
    w.written = written.map Delivery.entry ∧ w.files = files ∧ w.current = stop.input

section Reaches

variable {before texts : List String} {batch : Batch} {files : FileStore}

/-- The files that are accepted and those of the run may be given as lists. -/
theorem Reaches.of_lists {accepted paths : List String} (ha : s.accepted before = accepted)
    (hp : s.paths = paths) (folded : s.session s.fresh accepted = .ok (texts, batch))
    (delivered : deliverAll (s.deliveries accepted texts) s.files = .ok files)
    (undisturbed : s.Undisturbed paths (s.deliveries accepted texts) s.files) :
    s.Reaches before texts batch files := by
  subst ha hp
  exact ⟨folded, delivered, undisturbed⟩

/-- The first files of a run are done, and it goes on behind them. -/
theorem Reaches.ran (h : s.Reaches before texts batch files) {rest : List String}
    (split : s.paths = before ++ rest) :
    ∃ w, w.files = files ∧ Delivers (s.deliveries (s.accepted before) texts) s.world w ∧
      ∀ r w', Ran (doInputs (World.site s.frontEnd) s.options batch (s.extend before {}) rest)
          w r w' →
        Ran (doInputs (World.site s.frontEnd) s.options s.fresh {} s.paths) s.world r w' := by
  obtain ⟨w, delivers, go⟩ := doInputs_append {} s.world rfl h.folded h.delivered
    (h.undisturbed.fewer fun p hp => by rw [split]; exact List.mem_append_left _ hp)
  refine ⟨w, Except.ok.inj (delivers.files.symm.trans h.delivered), delivers, ?_⟩
  rw [split]
  exact go rest

theorem Reaches.steady (h : s.Reaches before texts batch files) : s.Steady s.paths files := by
  have undisturbed := h.undisturbed
  rw [← List.append_nil (s.deliveries (s.accepted before) texts)] at undisturbed
  exact undisturbed.later h.delivered

/-- A file that fails ends the run, which tells the trouble with this file. -/
theorem Reaches.stop (h : s.Reaches before texts batch files) {path : String} {after : List String}
    (split : s.paths = before ++ path :: after) {trouble : Trouble}
    (final : s.isShared = true → ∀ fault, trouble ≠ .frontEnd fault) {ds : List Delivery}
    {left : FileStore}
    (failed : ∀ w, w.files = files →
      ∃ w', Ran (doInput (World.site s.frontEnd) s.options batch path) w (.error trouble) w' ∧
        w'.files = left ∧ w'.written = w.written ++ ds.map Delivery.entry) :
    s.StopsWith { trouble, input := some path }
      (s.deliveries (s.accepted before) texts ++ ds) left := by
  obtain ⟨w, same, delivers, go⟩ := h.ran split
  obtain ⟨w', attempt, filesLeft, writing⟩ := failed { w with current := some path } same
  obtain ⟨stopped, current⟩ := doInputs_stop attempt
    (fun shared => final ((shared_session h.folded).symm.trans shared)) (s.extend before {}) after
  have some_paths : s.paths ≠ [] := by
    rw [split]
    exact List.append_ne_nil_of_right_ne_nil _ (List.cons_ne_nil _ _)
  refine ⟨w', ?_, ?_, filesLeft, current⟩
  · have ran := run_eq some_paths (go _ _ stopped).bind_error
    rw [current] at ran
    exact ran
  · rw [writing, List.map_append]
    exact congrArg (· ++ ds.map Delivery.entry) delivers.written

end Reaches

end Start

open Start

/-- A run does what one session does with the files that are not skipped: it delivers the texts of
their units and then the globals, and no input is at work in the end. If the globals cannot be
written, it ends with that trouble and without an input, after all units. If a file fails otherwise,
or its tree cannot be kept, or its unit cannot be written, the run ends there with that trouble and
this file; what is written is what was delivered for the files before it, and its tree if that is
kept. -/
theorem run_is_one_session (s : Start) (some_paths : s.paths ≠ []) :
    (∀ texts last files, s.Reaches s.paths texts last files →
      (∀ final, deliverAll (s.globals last) files = .ok final →
        ∃ w, Ran (run (World.site s.frontEnd) s.options) s.world
            (.ok { units := (s.accepted s.paths).map (unitPath s.options.outputDir)
                   globals := s.dir?.map fun dir => (s.globalsFor dir last).path
                   skipped := s.skipped s.paths }) w ∧
          Delivers (s.deliveries (s.accepted s.paths) texts ++ s.globals last) s.world w ∧
          w.current = none) ∧
      ∀ g ∈ s.globals last, ∀ cause, g.into files = .error cause →
        s.StopsWith { trouble := .file cause } (s.deliveries (s.accepted s.paths) texts)
          (g.tried files)) ∧
    ∀ before path after texts batch files, s.paths = before ++ path :: after →
      s.Reaches before texts batch files →
      (∀ trouble kept, s.skips path = false → s.unit batch path = .error trouble →
        deliverAll (s.keptTree path) files = .ok kept →
        s.StopsWith { trouble, input := some path }
          (s.deliveries (s.accepted before) texts ++ s.keptTree path) kept) ∧
      (∀ tree ∈ s.keptTree path, ∀ cause, tree.into files = .error cause →
        s.StopsWith { trouble := .file cause, input := some path }
          (s.deliveries (s.accepted before) texts) (tree.tried files)) ∧
      ∀ text next kept cause, s.unit batch path = .ok (text, next) →
        deliverAll (s.keptTree path) files = .ok kept →
        (s.unitFor path text).into kept = .error cause →
        s.StopsWith { trouble := .file cause, input := some path }
          (s.deliveries (s.accepted before) texts ++ s.keptTree path)
          ((s.unitFor path text).tried kept) := by
  constructor
  · intro texts last files reaches
    obtain ⟨w₁, same, delivers, go⟩ := reaches.ran (List.append_nil _).symm
    have done := go _ w₁ (ran_pure _ w₁)
    constructor
    · intro final globals
      rw [← same] at globals
      obtain ⟨w₂, ended, delivers', current⟩ := ending_ok (s.extend s.paths {}) globals
      refine ⟨w₂, ?_, delivers.trans delivers', current⟩
      have whole := run_eq some_paths (done.bind ended)
      simpa [Start.extend, Except.mapError] using whole
    · intro g hg cause fails
      rw [← same] at fails
      obtain ⟨w₂, ended, undelivered, current⟩ := ending_error (s.extend s.paths {}) hg fails
      refine ⟨w₂, ?_, undelivered.written.trans delivers.written, ?_, current⟩
      · have whole := run_eq some_paths (done.bind ended)
        rw [current] at whole
        exact whole
      · rw [undelivered.files, same]
  · intro before path after texts batch files split reaches
    have now : s.readIn files path = s.read path :=
      reaches.steady path (by rw [split]; simp)
    refine ⟨?_, ?_, ?_⟩
    · intro trouble kept unskipped failed delivered
      refine reaches.stop split (ne_frontEnd_of_not_skips failed unskipped) ?_
      intro w same
      rw [← same] at now delivered
      obtain ⟨w', attempt, keeps⟩ := doInput_error now failed delivered
      exact ⟨w', attempt, Except.ok.inj (keeps.files.symm.trans delivered), keeps.written⟩
    · intro tree ht cause fails
      rw [← List.append_nil (s.deliveries (s.accepted before) texts)]
      refine reaches.stop split (fun _ _ other => by cases other) ?_
      intro w same
      rw [← same] at now fails ⊢
      obtain ⟨w', loading, undelivered⟩ := load_unkept now ht fails
      refine ⟨w', loading.bind_error, undelivered.files, ?_⟩
      rw [undelivered.written]
      exact (List.append_nil _).symm
    · intro text next kept cause translated delivered fails
      refine reaches.stop split (fun _ _ other => by cases other) ?_
      intro w same
      rw [← same] at now delivered
      obtain ⟨w₁, w', attempt, keeps, undelivered⟩ :=
        doInput_undelivered now translated delivered fails
      refine ⟨w', attempt, ?_, undelivered.written.trans keeps.written⟩
      rw [undelivered.files, Except.ok.inj (keeps.files.symm.trans delivered)]

/-- A front end with one tree, which it does not print for `d/b.c` and breaks off for `d/c.c`. -/
def smallFrontEnd : FrontEnd := fun _ command =>
  if "d/b.c" ∈ command.arguments then .ok { success := false }
  else if "d/c.c" ∈ command.arguments then .ok {}
  else .ok { stdout := "\x7b\"kind\":\"TranslationUnitDecl\"\x7d".toUTF8 }

/-- A run over a directory that holds the given items. -/
def smallStart (keepAst : Bool) (items : List (String × Item)) : Start where
  frontEnd := smallFrontEnd
  options := { inputs := ["d"], keepAst }
  files := { items := ([['d']], .directory) ::
    items.map fun item => ([['d'], item.1.toList], item.2) }

def smallSources (names : List String) : List (String × Item) :=
  names.map fun name => (name, .file .empty)

/-- A directory stands for its C files, which need no sorting if they are in order. -/
theorem paths_of_directory (s : Start) (dir : String) (names : List String)
    (inputs : s.options.inputs = [dir]) (isDir : s.files.isDir dir = true)
    (listed : (s.files.fileNames dir).filter (fun name => extension? name = some "c") = names)
    (ordered : names.Pairwise fun a b => decide (a ≤ b) = true) :
    s.paths = names.map (joined dir) := by
  rw [Start.paths, inputs, List.flatMap_singleton, Start.standsFor, if_pos isDir, listed,
    List.mergeSort_of_pairwise ordered]

/-- The files after some deliveries that all succeed. -/
def Start.filesAfter (s : Start) (ds : List Delivery) : FileStore :=
  (deliverAll ds s.files).toOption.getD {}

/-- One run that succeeds, and one for each way to stop: at the globals, at a document, at a tree
that is kept and at a unit. -/
theorem smallRuns_are_sessions :
    (∃ w, Ran (run (World.site smallFrontEnd) { inputs := ["d"] })
        (smallStart false (smallSources ["a.c", "b.c"])).world
        (.ok { units := ["d/a.v"], globals := some "d/_globals.v", skipped := ["d/b.c"] }) w ∧
      w.written = [("d/a.v", unitHeader), ("d/_globals.v", "[translated]\n")] ∧
      w.current = none) ∧
    (∃ w, Ran (run (World.site smallFrontEnd) { inputs := ["d"] })
        (smallStart false (("_globals.v", .directory) :: smallSources ["a.c"])).world
        (.error { trouble := .file .isDirectory }) w ∧
      w.written = [("d/a.v", unitHeader)] ∧ w.current = none) ∧
    (∃ w, Ran (run (World.site smallFrontEnd) { inputs := ["d"] })
        (smallStart false (smallSources ["a.c", "b.c", "c.c"])).world
        (.error { trouble := .document .truncated, input := some "d/c.c" }) w ∧
      w.written = [("d/a.v", unitHeader)] ∧ w.current = some "d/c.c") ∧
    (∃ w, Ran (run (World.site smallFrontEnd) { inputs := ["d"], keepAst := true })
        (smallStart true (("a.json", .directory) :: smallSources ["a.c"])).world
        (.error { trouble := .file .isDirectory, input := some "d/a.c" }) w ∧
      w.written = [] ∧ w.current = some "d/a.c") ∧
    ∃ w, Ran (run (World.site smallFrontEnd) { inputs := ["d"], keepAst := true })
        (smallStart true (("a.v", .directory) :: smallSources ["a.c"])).world
        (.error { trouble := .file .isDirectory, input := some "d/a.c" }) w ∧
      w.written = [("d/a.json", "\x7b\"kind\":\"TranslationUnitDecl\"\x7d")] ∧
      w.current = some "d/a.c" := by
  refine ⟨?_, ?_, ?_, ?_, ?_⟩
  · let s := smallStart false (smallSources ["a.c", "b.c"])
    have paths : s.paths = ["d/a.c", "d/b.c"] := by
      rw [paths_of_directory s "d" ["a.c", "b.c"] rfl (by decide +kernel) (by decide +kernel)
        (by decide)]
      decide +kernel
    have accepted : s.accepted s.paths = ["d/a.c"] := by rw [paths]; decide +kernel
    have skipped : s.skipped s.paths = ["d/b.c"] := by rw [paths]; decide +kernel
    let units := s.deliveries ["d/a.c"] [unitHeader]
    have reaches : s.Reaches s.paths [unitHeader] s.fresh (s.filesAfter units) :=
      .of_lists accepted paths (by decide +kernel) (by decide +kernel) (by decide +kernel)
    obtain ⟨w, ran, delivers, current⟩ :=
      ((run_is_one_session s (by rw [paths]; exact List.cons_ne_nil _ _)).1 _ _ _ reaches).1
        (s.filesAfter (units ++ s.globals s.fresh)) (by decide +kernel)
    have names : (s.accepted s.paths).map (unitPath s.options.outputDir) = ["d/a.v"] := by
      rw [accepted]; decide +kernel
    have globals :
        s.dir?.map (fun dir => (s.globalsFor dir s.fresh).path) = some "d/_globals.v" := by
      decide +kernel
    rw [names, globals, skipped] at ran
    rw [accepted] at delivers
    refine ⟨w, ran, ?_, current⟩
    rw [delivers.written]
    decide +kernel
  · let s := smallStart false (("_globals.v", .directory) :: smallSources ["a.c"])
    have paths : s.paths = ["d/a.c"] := by
      rw [paths_of_directory s "d" ["a.c"] rfl (by decide +kernel) (by decide +kernel) (by decide)]
      decide +kernel
    have accepted : s.accepted s.paths = ["d/a.c"] := by rw [paths]; decide +kernel
    let units := s.deliveries ["d/a.c"] [unitHeader]
    have reaches : s.Reaches s.paths [unitHeader] s.fresh (s.filesAfter units) :=
      .of_lists accepted paths (by decide +kernel) (by decide +kernel) (by decide +kernel)
    obtain ⟨w, ran, written, -, current⟩ :=
      ((run_is_one_session s (by rw [paths]; exact List.cons_ne_nil _ _)).1 _ _ _ reaches).2
        (s.globalsFor "d" s.fresh) (List.mem_singleton.2 rfl) .isDirectory (by decide +kernel)
    rw [accepted] at written
    refine ⟨w, ran, ?_, current⟩
    rw [written]
    decide +kernel
  · let s := smallStart false (smallSources ["a.c", "b.c", "c.c"])
    have paths : s.paths = ["d/a.c", "d/b.c"] ++ "d/c.c" :: [] := by
      rw [paths_of_directory s "d" ["a.c", "b.c", "c.c"] rfl (by decide +kernel) (by decide +kernel)
        (by decide)]
      decide +kernel
    have accepted : s.accepted ["d/a.c", "d/b.c"] = ["d/a.c"] := by decide +kernel
    let units := s.deliveries ["d/a.c"] [unitHeader]
    have reaches : s.Reaches ["d/a.c", "d/b.c"] [unitHeader] s.fresh (s.filesAfter units) :=
      .of_lists accepted paths (by decide +kernel) (by decide +kernel) (by decide +kernel)
    obtain ⟨w, ran, written, -, current⟩ :=
      ((run_is_one_session s (by rw [paths]; exact List.cons_ne_nil _ _)).2 _ _ _ _ _ _ paths
        reaches).1 (.document .truncated) (s.filesAfter units) (by decide +kernel)
        (by decide +kernel) (by decide +kernel)
    rw [accepted] at written
    refine ⟨w, ran, ?_, current⟩
    rw [written]
    decide +kernel
  · let s := smallStart true (("a.json", .directory) :: smallSources ["a.c"])
    have paths : s.paths = [] ++ "d/a.c" :: [] := by
      rw [paths_of_directory s "d" ["a.c"] rfl (by decide +kernel) (by decide +kernel) (by decide)]
      decide +kernel
    have reaches : s.Reaches [] [] s.fresh s.files := ⟨rfl, rfl, fun _ _ => rfl⟩
    obtain ⟨w, ran, written, -, current⟩ :=
      ((run_is_one_session s (by rw [paths]; exact List.cons_ne_nil _ _)).2 _ _ _ _ _ _ paths
        reaches).2.1 ⟨"d/a.json", "\x7b\"kind\":\"TranslationUnitDecl\"\x7d", false⟩
        (by decide +kernel) .isDirectory (by decide +kernel)
    exact ⟨w, ran, written, current⟩
  · let s := smallStart true (("a.v", .directory) :: smallSources ["a.c"])
    have paths : s.paths = [] ++ "d/a.c" :: [] := by
      rw [paths_of_directory s "d" ["a.c"] rfl (by decide +kernel) (by decide +kernel) (by decide)]
      decide +kernel
    have reaches : s.Reaches [] [] s.fresh s.files := ⟨rfl, rfl, fun _ _ => rfl⟩
    obtain ⟨w, ran, written, -, current⟩ :=
      ((run_is_one_session s (by rw [paths]; exact List.cons_ne_nil _ _)).2 _ _ _ _ _ _ paths
        reaches).2.2 unitHeader s.fresh (s.filesAfter (s.keptTree "d/a.c")) .isDirectory
        (by decide +kernel) (by decide +kernel) (by decide +kernel)
    refine ⟨w, ran, ?_, current⟩
    rw [written]
    decide +kernel

/-- No file fails, and yet the run does, if the globals file cannot be written. -/
theorem run_fails_on_globals :
    ∃ s : Start, s.paths ≠ [] ∧ s.skipped s.paths = [] ∧
      s.session s.fresh s.paths = .ok ([unitHeader], s.fresh) ∧
      (deliverAll (s.deliveries s.paths [unitHeader]) s.files).isOk = true ∧
      s.Undisturbed s.paths (s.deliveries s.paths [unitHeader] ++ s.globals s.fresh) s.files ∧
      ∃ w, Ran (run (World.site s.frontEnd) s.options) s.world
          (.error { trouble := .file .isDirectory }) w ∧
        w.written = [("d/a.v", unitHeader)] ∧ w.current = none := by
  let s := smallStart false (("_globals.v", .directory) :: smallSources ["a.c"])
  have paths : s.paths = ["d/a.c"] := by
    rw [paths_of_directory s "d" ["a.c"] rfl (by decide +kernel) (by decide +kernel) (by decide)]
    decide +kernel
  have some_paths : s.paths ≠ [] := by
    rw [paths]
    exact List.cons_ne_nil _ _
  let done := (doInputs (World.site s.frontEnd) s.options s.fresh {} ["d/a.c"] >>= s.ending).run
    s.world
  have fails : done.1 = .error (.file .isDirectory) := by decide +kernel
  have current : done.2.current = none := by decide +kernel
  have ran : Ran (doInputs (World.site s.frontEnd) s.options s.fresh {} s.paths >>= s.ending)
      s.world (.error (.file .isDirectory)) done.2 := by
    rw [paths]
    exact Prod.ext fails rfl
  have stopped := run_eq some_paths ran
  rw [current] at stopped
  refine ⟨s, some_paths, ?_, ?_, ?_, ?_, done.2, stopped, ?_, current⟩
  · rw [paths]
    decide +kernel
  · rw [paths]
    decide +kernel
  · rw [paths]
    decide +kernel
  · rw [paths]
    decide +kernel
  · decide +kernel

end VFromC.Run
