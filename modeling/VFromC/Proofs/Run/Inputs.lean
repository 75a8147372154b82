import VFromC.Proofs.Batch.Growth
import VFromC.Proofs.Run.Deliveries
/-!
What a run does with one input: how it is read and translated is read off the files at the start of
the run, and each step of the run is shown to do it and to deliver what belongs to it.
-/
namespace VFromC.Run
open VFromC.Syntax

/-- What a run starts with. -/
structure Start where
  frontEnd : FrontEnd
  options : Options
  files : FileStore

namespace Start

variable (s : Start)

/-- The files that an input stands for. -/
def standsFor (input : String) : List String :=
  if s.files.isDir input then
    (((s.files.fileNames input).filter fun name => extension? name = some "c").mergeSort
      fun a b => decide (a ≤ b)).map (joined input)
  else [input]

def paths : List String := s.options.inputs.flatMap s.standsFor

/-- The first input that is a directory. -/
def dir? : Option String := s.options.inputs.find? s.files.isDir

/-- The run has a directory among its inputs. -/
def isShared : Bool := s.dir?.isSome

/-- The batch of a run before its first file. -/
def fresh : Batch := { shared := s.isShared }

/-- The tree that the front end prints for a file. -/
def treeIn (files : FileStore) (path : String) : Except FrontEndFault String :=
  let command := treeCommand s.options.clang s.options.clangFlags path
  let started := if command.isIntact then s.frontEnd files command else .error .badWord
  (started.mapError (.notStarted s.options.clang)).bind fun reply => reply.tree path

/-- What is read for an input: its tree as a document, and the C text if it is at hand. -/
def readIn (files : FileStore) (path : String) : Except Trouble (String × Option String) :=
  if extension? path = some "json" then
    ((files.readText path).mapError .file).map fun document =>
      (document, (files.readText (withExtension path "c")).toOption)
  else
    ((files.readText path).mapError .file).bind fun source =>
      ((s.treeIn files path).mapError .frontEnd).map fun document => (document, some source)

def read (path : String) : Except Trouble (String × Option String) := s.readIn s.files path

/-- The front end fails on the file. -/
def refuses (path : String) : Bool :=
  match s.read path with
  | .error (.frontEnd _) => true
  | _ => false

/-- The files that are skipped are those on which the front end fails, in a run with a directory. -/
def skips (path : String) : Bool := s.isShared && s.refuses path

def accepted (paths : List String) : List String := paths.filter fun path => !s.skips path

def skipped (paths : List String) : List String := paths.filter s.skips

/-- The tree of a C file is kept beside it if that is asked for. -/
def keptTree (path : String) : List Delivery :=
  match s.read path with
  | .ok loaded =>
      if s.options.keepAst ∧ extension? path ≠ some "json" then
        [⟨withExtension path "json", loaded.1, false⟩]
      else []
  | .error _ => []

def unitFor (path text : String) : Delivery := ⟨unitPath s.options.outputDir path, text, true⟩

/-- What is delivered for files and the texts of their units. -/
def deliveries (paths texts : List String) : List Delivery :=
  (paths.zip texts).flatMap fun entry => s.keptTree entry.1 ++ [s.unitFor entry.1 entry.2]

/-- The outputs after some files are done or skipped. -/
def extend (paths : List String) (outputs : Outputs) : Outputs :=
  { outputs with
    units := outputs.units ++ (s.accepted paths).map (unitPath s.options.outputDir)
    skipped := outputs.skipped ++ s.skipped paths }

theorem extend_nil (outputs : Outputs) : s.extend [] outputs = outputs := by
  simp [extend, accepted, skipped]

variable {s}

section Cons

variable {path : String} {paths : List String} {outputs : Outputs}

theorem accepted_cons_of_skips (h : s.skips path = true) :
    s.accepted (path :: paths) = s.accepted paths := by
  simp [accepted, h]

theorem accepted_cons_of_not_skips (h : ¬s.skips path = true) :
    s.accepted (path :: paths) = path :: s.accepted paths := by
  simp [accepted, h]

theorem extend_cons_of_skips (h : s.skips path = true) :
    s.extend (path :: paths) outputs = s.extend paths (outputs.skip path) := by
  simp [extend, accepted_cons_of_skips h, skipped, h, Outputs.skip]

theorem extend_cons_of_not_skips (h : ¬s.skips path = true) :
    s.extend (path :: paths) outputs =
      s.extend paths (outputs.addUnit (unitPath s.options.outputDir path)) := by
  simp [extend, accepted_cons_of_not_skips h, skipped, h, Outputs.addUnit]

end Cons

end Start

/-- The text of a unit and the batch after it. -/
def translate (batch : Batch) (loaded : String × Option String) : Except Trouble (String × Batch) :=
  ((parseUnit loaded.1).mapError .document).bind fun root =>
    ((batch.render root loaded.2).result.mapError .unit).map fun text =>
      (text, (batch.render root loaded.2).batch)

theorem shared_translate {batch : Batch} {loaded : String × Option String} {out : String × Batch}
    (h : translate batch loaded = .ok out) : out.2.shared = batch.shared := by
  obtain ⟨root, -, h⟩ := bind_eq_ok h
  cases hr : (batch.render root loaded.2).result with
  | error fault => rw [hr] at h; cases h
  | ok text =>
      rw [hr] at h
      cases h
      exact Batch.shared_render batch root loaded.2

namespace Start

variable (s : Start)

/-- What a session makes of one file. -/
def unit (batch : Batch) (path : String) : Except Trouble (String × Batch) :=
  (s.read path).bind (translate batch)

variable {s}

theorem list_of_isDir {files : FileStore} {path : String} (h : files.isDir path = true) :
    files.list path = .ok (files.fileNames path) := by
  unfold FileStore.isDir at h
  unfold FileStore.list
  split at h
  · rename_i found
    rw [found]
  · cases h

theorem expand_ran (w : World) (hw : w.files = s.files) (input : String) :
    Ran (expand (World.site s.frontEnd) input) w (.ok (s.files.isDir input, s.standsFor input))
      w := by
  unfold expand standsFor
  refine (show Ran (ExceptT.lift ((World.site s.frontEnd).isDir input)) w
    (.ok (w.files.isDir input)) w from rfl).bind ?_
  rw [hw]
  cases hd : s.files.isDir input with
  | false => exact ran_pure _ w
  | true =>
      have listing : Ran (withFiles ((World.site s.frontEnd).fileNames input)) w
          ((w.files.list input).mapError .file) w := rfl
      rw [hw, list_of_isDir hd] at listing
      exact listing.bind (ran_pure _ w)

theorem expandAll_ran (w : World) (hw : w.files = s.files) (inputs : List String) :
    Ran (expandAll (World.site s.frontEnd) inputs) w
      (.ok (inputs.find? s.files.isDir, inputs.flatMap s.standsFor)) w := by
  induction inputs with
  | nil => exact ran_pure _ w
  | cons input rest ih =>
      rw [expandAll, List.find?_cons, List.flatMap_cons]
      refine (expand_ran w hw input).bind (ih.bind ?_)
      cases s.files.isDir input <;> exact ran_pure _ w

theorem startCommand_ran (w : World) (command : Command) :
    ∃ w', startCommand (World.site s.frontEnd) command w =
      (if command.isIntact then s.frontEnd w.files command else .error .badWord, w') ∧
        Delivers [] w w' := by
  unfold startCommand
  cases command.isIntact with
  | false => exact ⟨w, rfl, delivers_nothing rfl rfl⟩
  | true =>
      change ∃ w', World.start s.frontEnd command w = _ ∧ _
      unfold World.start
      cases s.frontEnd w.files command with
      | error cause => exact ⟨w, rfl, delivers_nothing rfl rfl⟩
      | ok reply => exact ⟨_, rfl, delivers_nothing rfl rfl⟩

theorem dumpTree_ran (w : World) (path : String) :
    ∃ w', Ran (dumpTree (World.site s.frontEnd) s.options path) w
      ((s.treeIn w.files path).mapError .frontEnd) w' ∧ Delivers [] w w' := by
  let command := treeCommand s.options.clang s.options.clangFlags path
  let noted : World := { w with journal := w.journal ++ [debug s!"running {command.line}"] }
  obtain ⟨w', started, untouched⟩ := startCommand_ran (s := s) noted command
  refine ⟨w', ?_, (delivers_note _ w).then untouched⟩
  change Ran _ w (((Except.mapError _ (if command.isIntact then s.frontEnd noted.files command
    else .error .badWord)).bind _).mapError _) w'
  generalize
    (if command.isIntact then s.frontEnd noted.files command else .error .badWord) = outcome
    at started ⊢
  refine (ran_note s.frontEnd _ w).bind (Ran.attempt started ?_)
  cases outcome with
  | error cause => rfl
  | ok reply =>
      change Ran _ w' ((reply.tree path).mapError _) w'
      dsimp only
      cases reply.tree path <;> rfl

theorem load_error {w : World} {path : String} {trouble : Trouble}
    (h : s.readIn w.files path = .error trouble) :
    ∃ w', Ran (load (World.site s.frontEnd) s.options path) w (.error trouble) w' ∧
      Delivers [] w w' := by
  have reading := ran_readText s.frontEnd path w
  unfold readIn at h
  unfold load
  by_cases hj : extension? path = some "json"
  · rw [if_pos hj] at h ⊢
    cases hd : (w.files.readText path).mapError Trouble.file with
    | ok document => rw [hd] at h; cases h
    | error fault =>
        rw [hd] at h reading
        cases h
        exact ⟨w, reading.bind_error, delivers_nothing rfl rfl⟩
  · rw [if_neg hj] at h ⊢
    cases hd : (w.files.readText path).mapError Trouble.file with
    | error fault =>
        rw [hd] at h reading
        cases h
        exact ⟨w, reading.bind_error, delivers_nothing rfl rfl⟩
    | ok source =>
        rw [hd] at h reading
        obtain ⟨w', dumped, untouched⟩ := dumpTree_ran (s := s) w path
        cases ht : (s.treeIn w.files path).mapError Trouble.frontEnd with
        | ok document =>
            rw [Except.bind, ht] at h
            cases h
        | error fault =>
            rw [Except.bind, ht] at h
            rw [ht] at dumped
            cases h
            exact ⟨w', reading.bind dumped.bind_error, untouched⟩

theorem read_of_keptTree {path : String} {d : Delivery} (h : d ∈ s.keptTree path) :
    ∃ loaded, s.read path = .ok loaded ∧ s.options.keepAst = true ∧
      extension? path ≠ some "json" ∧ d = ⟨withExtension path "json", loaded.1, false⟩ := by
  unfold keptTree at h
  split at h
  · rename_i loaded read
    split at h
    · rename_i asked
      exact ⟨loaded, read, asked.1, asked.2, List.mem_singleton.1 h⟩
    · cases h
  · cases h

theorem load_ok {w : World} {path : String} {loaded : String × Option String} {files : FileStore}
    (undisturbed : s.readIn w.files path = s.read path) (h : s.read path = .ok loaded)
    (delivered : deliverAll (s.keptTree path) w.files = .ok files) :
    ∃ w', Ran (load (World.site s.frontEnd) s.options path) w (.ok loaded) w' ∧
      Delivers (s.keptTree path) w w' := by
  have kept : s.keptTree path = if s.options.keepAst ∧ extension? path ≠ some "json" then
      [⟨withExtension path "json", loaded.1, false⟩] else [] := by
    rw [keptTree, h]
  have reading := ran_readText s.frontEnd path w
  rw [← undisturbed] at h
  unfold readIn at h
  unfold load
  by_cases hj : extension? path = some "json"
  · rw [if_pos hj] at h ⊢
    rw [if_neg fun both => both.2 hj] at kept
    cases hd : (w.files.readText path).mapError Trouble.file with
    | error fault => rw [hd] at h; cases h
    | ok document =>
        rw [hd] at h reading
        cases h
        rw [kept]
        exact ⟨w, reading.bind ((ran_lookAt s.frontEnd _ w).bind (ran_pure _ w)),
          delivers_nothing rfl rfl⟩
  · rw [if_neg hj] at h ⊢
    obtain ⟨source, hd, h⟩ := bind_eq_ok h
    rw [hd] at reading
    obtain ⟨w', dumped, untouched⟩ := dumpTree_ran (s := s) w path
    cases ht : (s.treeIn w.files path).mapError Trouble.frontEnd with
    | error fault => rw [ht] at h; cases h
    | ok document =>
        rw [ht] at h dumped
        cases h
        by_cases hk : s.options.keepAst
        · rw [if_pos ⟨hk, hj⟩] at kept
          rw [kept] at delivered ⊢
          rw [← untouched.files_eq] at delivered
          obtain ⟨w'', writing, keeps⟩ := writeText_ok s.frontEnd delivered
          refine ⟨w'', reading.bind (dumped.bind ?_), untouched.trans keeps⟩
          rw [if_pos hk]
          exact writing.bind (ran_pure _ w'')
        · rw [if_neg fun both => hk both.1] at kept
          rw [kept]
          refine ⟨w', reading.bind (dumped.bind ?_), untouched⟩
          rw [if_neg hk]
          exact ran_pure _ w'

/-- A tree that cannot be kept ends the work on its file. -/
theorem load_unkept {w : World} {path : String} {d : Delivery} {cause : FileFault}
    (undisturbed : s.readIn w.files path = s.read path) (kept : d ∈ s.keptTree path)
    (h : d.into w.files = .error cause) :
    ∃ w', Ran (load (World.site s.frontEnd) s.options path) w (.error (.file cause)) w' ∧
      Undelivered d w w' := by
  obtain ⟨loaded, read, keepAst, hj, rfl⟩ := read_of_keptTree kept
  rw [Delivery.into_beside] at h
  have reading := ran_readText s.frontEnd path w
  rw [← undisturbed] at read
  unfold readIn at read
  unfold load
  rw [if_neg hj] at read ⊢
  obtain ⟨source, hd, read⟩ := bind_eq_ok read
  rw [hd] at reading
  obtain ⟨w', dumped, untouched⟩ := dumpTree_ran (s := s) w path
  cases ht : (s.treeIn w.files path).mapError Trouble.frontEnd with
  | error fault => rw [ht] at read; cases read
  | ok document =>
      rw [ht] at read dumped
      cases read
      rw [← untouched.files_eq] at h
      refine ⟨w', reading.bind (dumped.bind ?_), untouched.files_eq, ?_⟩
      · rw [if_pos keepAst]
        exact (ran_writeText_error s.frontEnd h).bind_error
      · rw [untouched.written]
        exact List.append_nil _

theorem render_ran (w : World) (batch : Batch) (loaded : String × Option String) :
    ∃ w', Ran (render (World.site s.frontEnd) batch loaded.1 loaded.2) w
        (translate batch loaded) w' ∧ Delivers [] w w' := by
  unfold render translate
  cases parseUnit loaded.1 with
  | error flaw => exact ⟨w, rfl, delivers_nothing rfl rfl⟩
  | ok root =>
      refine ⟨_, (ran_note s.frontEnd _ w).bind ?_,
        delivers_note (batch.render root loaded.2).journal w⟩
      change Ran _ _ (((batch.render root loaded.2).result.mapError _).map _) _
      cases (batch.render root loaded.2).result <;> rfl

/-- A file that is translated is delivered. -/
theorem doInput_ok {w : World} {batch next : Batch} {path text : String} {files : FileStore}
    (undisturbed : s.readIn w.files path = s.read path) (h : s.unit batch path = .ok (text, next))
    (delivered : deliverAll (s.keptTree path ++ [s.unitFor path text]) w.files = .ok files) :
    ∃ w', Ran (doInput (World.site s.frontEnd) s.options batch path) w
        (.ok (unitPath s.options.outputDir path, next)) w' ∧
      Delivers (s.keptTree path ++ [s.unitFor path text]) w w' := by
  obtain ⟨loaded, read, translated⟩ := bind_eq_ok h
  obtain ⟨middle, kept, last⟩ := deliverAll_split delivered
  obtain ⟨w₁, loading, keeps⟩ := load_ok undisturbed read kept
  obtain ⟨w₂, rendering, untouched⟩ := render_ran (s := s) w₁ batch loaded
  rw [translated] at rendering
  have same : middle = w₂.files := by
    rw [untouched.files_eq]
    exact Except.ok.inj (kept.symm.trans keeps.files)
  rw [same] at last
  obtain ⟨w₃, delivering, delivers⟩ := deliver_ok s.frontEnd last
  refine ⟨w₃, ?_, (keeps.then untouched).trans delivers⟩
  exact loading.bind (rendering.bind (delivering.bind (ran_pure _ w₃)))

/-- A file that fails leaves at most its tree behind. -/
theorem doInput_error {w : World} {batch : Batch} {path : String} {trouble : Trouble}
    {files : FileStore} (undisturbed : s.readIn w.files path = s.read path)
    (h : s.unit batch path = .error trouble)
    (delivered : deliverAll (s.keptTree path) w.files = .ok files) :
    ∃ w', Ran (doInput (World.site s.frontEnd) s.options batch path) w (.error trouble) w' ∧
      Delivers (s.keptTree path) w w' := by
  unfold unit at h
  cases read : s.read path with
  | error fault =>
      rw [read] at h
      cases h
      have kept : s.keptTree path = [] := by rw [keptTree, read]
      obtain ⟨w', loading, untouched⟩ := load_error (undisturbed.trans read)
      rw [kept]
      exact ⟨w', loading.bind_error, untouched⟩
  | ok loaded =>
      rw [read] at h
      obtain ⟨w₁, loading, keeps⟩ := load_ok undisturbed read delivered
      obtain ⟨w₂, rendering, untouched⟩ := render_ran (s := s) w₁ batch loaded
      rw [show translate batch loaded = _ from h] at rendering
      exact ⟨w₂, loading.bind rendering.bind_error, keeps.then untouched⟩

/-- A unit that cannot be written leaves at most the tree of its file behind. -/
theorem doInput_undelivered {w : World} {batch next : Batch} {path text : String}
    {kept : FileStore} {cause : FileFault} (undisturbed : s.readIn w.files path = s.read path)
    (h : s.unit batch path = .ok (text, next))
    (delivered : deliverAll (s.keptTree path) w.files = .ok kept)
    (undelivered : (s.unitFor path text).into kept = .error cause) :
    ∃ w₁ w', Ran (doInput (World.site s.frontEnd) s.options batch path) w
        (.error (.file cause)) w' ∧
      Delivers (s.keptTree path) w w₁ ∧ Undelivered (s.unitFor path text) w₁ w' := by
  obtain ⟨loaded, read, translated⟩ := bind_eq_ok h
  obtain ⟨w₁, loading, keeps⟩ := load_ok undisturbed read delivered
  obtain ⟨w₂, rendering, untouched⟩ := render_ran (s := s) w₁ batch loaded
  rw [translated] at rendering
  have same : kept = w₂.files := by
    rw [untouched.files_eq]
    exact Except.ok.inj (delivered.symm.trans keeps.files)
  rw [same] at undelivered
  obtain ⟨w₃, delivering, fails⟩ := deliver_error s.frontEnd undelivered
  exact ⟨w₂, w₃, loading.bind (rendering.bind delivering.bind_error), keeps.then untouched, fails⟩

end Start

end VFromC.Run
