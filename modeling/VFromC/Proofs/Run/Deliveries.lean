import VFromC.Run.Job
/-!
What the steps of a run do to a world: the texts that they deliver to its files, in order.
-/
namespace VFromC.Run
open VFromC.Syntax

/-- A text and the file that it goes to. The directories on the way to a result are made; a tree
that is kept stands beside its input. -/
structure Delivery where
  path : String
  text : String
  makesDirs : Bool
deriving DecidableEq

namespace Delivery

/-- The directory that is made for a delivery, empty if none is. -/
def dir (d : Delivery) : String := if d.makesDirs then (parent? d.path).getD "" else ""

def into (d : Delivery) (files : FileStore) : Except FileFault FileStore :=
  if d.dir = "" then files.writeFile d.path d.text.toUTF8
  else (files.makeDirs d.dir).bind fun made => made.writeFile d.path d.text.toUTF8

/-- The files after a delivery that has failed. The directories for it may have been made. -/
def tried (d : Delivery) (files : FileStore) : FileStore :=
  if d.dir = "" then files else (files.makeDirs d.dir).toOption.getD files

def entry (d : Delivery) : String × String := (d.path, d.text)

theorem into_beside {path text : String} {files : FileStore} :
    into ⟨path, text, false⟩ files = files.writeFile path text.toUTF8 :=
  if_pos rfl

end Delivery

/-- The files after some deliveries, if all of them succeed. -/
def deliverAll : List Delivery → FileStore → Except FileFault FileStore
  | [], files => .ok files
  | d :: rest, files => (d.into files).bind (deliverAll rest)

theorem deliverAll_append (ds es : List Delivery) (files : FileStore) :
    deliverAll (ds ++ es) files = (deliverAll ds files).bind (deliverAll es) := by
  induction ds generalizing files with
  | nil => rfl
  | cons d rest ih =>
      rw [List.cons_append, deliverAll, deliverAll]
      cases d.into files with
      | error => rfl
      | ok next => exact ih next

theorem bind_eq_ok {ε α β : Type} {x : Except ε α} {f : α → Except ε β} {b : β}
    (h : x.bind f = .ok b) : ∃ a, x = .ok a ∧ f a = .ok b := by
  cases x with
  | error => cases h
  | ok a => exact ⟨a, rfl, h⟩

theorem deliverAll_split {ds es : List Delivery} {a c : FileStore}
    (h : deliverAll (ds ++ es) a = .ok c) :
    ∃ b, deliverAll ds a = .ok b ∧ deliverAll es b = .ok c := by
  rw [deliverAll_append] at h
  exact bind_eq_ok h

/-- The deliveries lead from one world to the other, and they are what was written in between. -/
structure Delivers (ds : List Delivery) (w w' : World) : Prop where
  files : deliverAll ds w.files = .ok w'.files
  written : w'.written = w.written ++ ds.map Delivery.entry

theorem Delivers.trans {ds es : List Delivery} {w w' w'' : World} (h : Delivers ds w w')
    (h' : Delivers es w' w'') : Delivers (ds ++ es) w w'' where
  files := by
    rw [deliverAll_append, h.files]
    exact h'.files
  written := by rw [h'.written, h.written, List.map_append, List.append_assoc]

theorem delivers_nothing {w w' : World} (files : w'.files = w.files)
    (written : w'.written = w.written) : Delivers [] w w' where
  files := by rw [files]; rfl
  written := by rw [written]; exact (List.append_nil _).symm

theorem Delivers.then {ds : List Delivery} {w w' w'' : World} (h : Delivers ds w w')
    (h' : Delivers [] w' w'') : Delivers ds w w'' := by
  have both := h.trans h'
  rwa [List.append_nil] at both

theorem Delivers.files_eq {w w' : World} (h : Delivers [] w w') : w'.files = w.files :=
  (Except.ok.inj h.files).symm

/-- The delivery fails on the way from one world to the other, and nothing is written. -/
structure Undelivered (d : Delivery) (w w' : World) : Prop where
  files : w'.files = d.tried w.files
  written : w'.written = w.written

section Ran

variable {ε ε' α β : Type}

/-- A step that is carried out in a world, what becomes of it, and the world afterwards. -/
def Ran (x : ExceptT ε (StateM World) α) (w : World) (r : Except ε α) (w' : World) : Prop :=
  x.run w = (r, w')

theorem ran_pure (a : α) (w : World) : Ran (pure a : ExceptT ε (StateM World) α) w (.ok a) w := rfl

theorem ran_throw (e : ε) (w : World) :
    Ran (throw e : ExceptT ε (StateM World) α) w (.error e) w := rfl

theorem Ran.bind {x : ExceptT ε (StateM World) α} {f : α → ExceptT ε (StateM World) β}
    {w w' w'' : World} {a : α} {r : Except ε β} (hx : Ran x w (.ok a) w')
    (hf : Ran (f a) w' r w'') : Ran (x >>= f) w r w'' := by
  have step : (x >>= f).run w = ExceptT.bindCont f (x.run w).1 (x.run w).2 := rfl
  rw [Ran, step, hx]
  exact hf

theorem Ran.bind_error {x : ExceptT ε (StateM World) α} {f : α → ExceptT ε (StateM World) β}
    {w w' : World} {e : ε} (hx : Ran x w (.error e) w') : Ran (x >>= f) w (.error e) w' := by
  have step : (x >>= f).run w = ExceptT.bindCont f (x.run w).1 (x.run w).2 := rfl
  rw [Ran, step, hx]
  rfl

/-- What a step comes to is looked at by the one that follows it. -/
theorem Ran.attempt {x : ExceptT ε (StateM World) α}
    {f : Except ε α → ExceptT ε' (StateM World) β} {w w' w'' : World} {r : Except ε α}
    {r' : Except ε' β} (hx : Ran x w r w') (hf : Ran (f r) w' r' w'') :
    Ran (ExceptT.lift x.run >>= f) w r' w'' := by
  have step : (ExceptT.lift x.run >>= f).run w = (f (x.run w).1).run (x.run w).2 := rfl
  rw [Ran, step, hx]
  exact hf

end Ran

section Site

variable {ε : Type} (frontEnd : FrontEnd)

theorem ran_note (entries : Journal) (w : World) :
    Ran (ExceptT.lift ((World.site frontEnd).note entries) : ExceptT ε (StateM World) Unit) w
      (.ok ()) { w with journal := w.journal ++ entries } := rfl

theorem ran_readText (path : String) (w : World) :
    Ran (withFiles ((World.site frontEnd).readText path)) w
      ((w.files.readText path).mapError .file) w := rfl

theorem ran_lookAt (path : String) (w : World) :
    Ran (ExceptT.lift ((World.site frontEnd).readText path) : ExceptT ε (StateM World) _) w
      (.ok (w.files.readText path)) w := rfl

theorem ran_setCurrent (input : Option String) (w : World) :
    Ran (ExceptT.lift ((World.site frontEnd).setCurrent input) : ExceptT ε (StateM World) Unit) w
      (.ok ()) { w with current := input } := rfl

theorem delivers_note (entries : Journal) (w : World) :
    Delivers [] w { w with journal := w.journal ++ entries } := delivers_nothing rfl rfl

theorem delivers_setCurrent (input : Option String) (w : World) :
    Delivers [] w { w with current := input } := delivers_nothing rfl rfl

theorem ran_writeText {path text : String} {w : World} {files : FileStore}
    (h : w.files.writeFile path text.toUTF8 = .ok files) :
    Ran (withFiles ((World.site frontEnd).writeText path text)) w (.ok ())
      { w with files, written := w.written ++ [(path, text)] } := by
  have step : (withFiles ((World.site frontEnd).writeText path text)).run w =
      ((World.write path text w).1.mapError .file, (World.write path text w).2) := rfl
  rw [Ran, step, World.write, h]
  rfl

theorem ran_makeDirs {path : String} {w : World} {files : FileStore}
    (h : w.files.makeDirs path = .ok files) :
    Ran (withFiles ((World.site frontEnd).makeDirs path)) w (.ok ()) { w with files } := by
  have step : (withFiles ((World.site frontEnd).makeDirs path)).run w =
      ((World.change (fun files => files.makeDirs path) w).1.mapError .file,
        (World.change (fun files => files.makeDirs path) w).2) := rfl
  rw [Ran, step, World.change, h]
  rfl

theorem ran_writeText_error {path text : String} {w : World} {cause : FileFault}
    (h : w.files.writeFile path text.toUTF8 = .error cause) :
    Ran (withFiles ((World.site frontEnd).writeText path text)) w (.error (.file cause)) w := by
  have step : (withFiles ((World.site frontEnd).writeText path text)).run w =
      ((World.write path text w).1.mapError .file, (World.write path text w).2) := rfl
  rw [Ran, step, World.write, h]
  rfl

theorem ran_makeDirs_error {path : String} {w : World} {cause : FileFault}
    (h : w.files.makeDirs path = .error cause) :
    Ran (withFiles ((World.site frontEnd).makeDirs path)) w (.error (.file cause)) w := by
  have step : (withFiles ((World.site frontEnd).makeDirs path)).run w =
      ((World.change (fun files => files.makeDirs path) w).1.mapError .file,
        (World.change (fun files => files.makeDirs path) w).2) := rfl
  rw [Ran, step, World.change, h]
  rfl

theorem writeText_ok {path text : String} {w : World} {files : FileStore}
    (h : deliverAll [⟨path, text, false⟩] w.files = .ok files) :
    ∃ w', Ran (withFiles ((World.site frontEnd).writeText path text)) w (.ok ()) w' ∧
      Delivers [⟨path, text, false⟩] w w' := by
  have delivered := h
  obtain ⟨stored, into, h⟩ := bind_eq_ok h
  cases h
  rw [Delivery.into_beside] at into
  exact ⟨_, ran_writeText frontEnd into, delivered, rfl⟩

theorem deliver_ok {path text : String} {w : World} {files : FileStore}
    (h : deliverAll [⟨path, text, true⟩] w.files = .ok files) :
    ∃ w', Ran (deliver (World.site frontEnd) path text) w (.ok ()) w' ∧
      Delivers [⟨path, text, true⟩] w w' := by
  have delivered := h
  rw [deliverAll] at h
  obtain ⟨stored, into, h⟩ := bind_eq_ok h
  cases h
  refine ⟨{ w with files, journal := w.journal ++ [debug s!"writing {path}"],
                   written := w.written ++ [(path, text)] }, ?_, delivered, rfl⟩
  unfold Delivery.into Delivery.dir at into
  rw [if_pos rfl] at into
  unfold deliver
  by_cases hd : (parent? path).getD "" = ""
  · rw [if_pos hd] at into
    rw [if_neg fun h => h hd]
    exact (ran_note frontEnd _ w).bind (ran_writeText frontEnd into)
  · rw [if_neg hd] at into
    obtain ⟨made, making, writing⟩ := bind_eq_ok into
    rw [if_pos hd]
    exact (ran_makeDirs frontEnd making).bind
      ((ran_note frontEnd _ _).bind (ran_writeText frontEnd writing))

theorem deliver_error {path text : String} {w : World} {cause : FileFault}
    (h : (Delivery.mk path text true).into w.files = .error cause) :
    ∃ w', Ran (deliver (World.site frontEnd) path text) w (.error (.file cause)) w' ∧
      Undelivered ⟨path, text, true⟩ w w' := by
  have dir : (Delivery.mk path text true).dir = (parent? path).getD "" := rfl
  have tried : (Delivery.mk path text true).tried w.files =
      if (parent? path).getD "" = "" then w.files
      else (w.files.makeDirs ((parent? path).getD "")).toOption.getD w.files := rfl
  rw [Delivery.into, dir] at h
  unfold deliver
  by_cases hd : (parent? path).getD "" = ""
  · rw [if_pos hd] at h tried
    rw [if_neg fun h => h hd]
    exact ⟨_, (ran_note frontEnd _ w).bind (ran_writeText_error frontEnd h), tried.symm, rfl⟩
  · rw [if_neg hd] at h tried
    rw [if_pos hd]
    cases hm : w.files.makeDirs ((parent? path).getD "") with
    | error fault =>
        rw [hm] at h tried
        cases h
        exact ⟨w, (ran_makeDirs_error frontEnd hm).bind_error, tried.symm, rfl⟩
    | ok made =>
        rw [hm] at h tried
        exact ⟨_, (ran_makeDirs frontEnd hm).bind ((ran_note frontEnd _ _).bind
          (ran_writeText_error frontEnd h)), tried.symm, rfl⟩

end Site

section Current

variable {ε α β : Type}

/-- The step leaves the note of the input at work alone. -/
def KeepsCurrent (x : ExceptT ε (StateM World) α) : Prop := ∀ w, (x.run w).2.current = w.current

theorem Ran.keepsCurrent {x : ExceptT ε (StateM World) α} {w w' : World} {r : Except ε α}
    (h : Ran x w r w') (kept : KeepsCurrent x) : w'.current = w.current := by
  have same := kept w
  rwa [h] at same

theorem keepsCurrent_pure (a : α) : KeepsCurrent (pure a : ExceptT ε (StateM World) α) :=
  fun _ => rfl

theorem keepsCurrent_throw (e : ε) : KeepsCurrent (throw e : ExceptT ε (StateM World) α) :=
  fun _ => rfl

theorem KeepsCurrent.bind {x : ExceptT ε (StateM World) α} {f : α → ExceptT ε (StateM World) β}
    (hx : KeepsCurrent x) (hf : ∀ a, KeepsCurrent (f a)) : KeepsCurrent (x >>= f) := by
  intro w
  have step : (x >>= f).run w = ExceptT.bindCont f (x.run w).1 (x.run w).2 := rfl
  have first := hx w
  rw [step]
  cases hr : x.run w with
  | mk r w' =>
      rw [hr] at first
      cases r with
      | ok a => exact (hf a w').trans first
      | error e => exact first

theorem keepsCurrent_lift {x : StateM World α} (h : ∀ w, (x w).2.current = w.current) :
    KeepsCurrent (ExceptT.lift x : ExceptT ε (StateM World) α) := h

theorem keepsCurrent_withFiles {x : StateM World (Except FileFault α)}
    (h : ∀ w, (x w).2.current = w.current) : KeepsCurrent (withFiles x) := h

variable (frontEnd : FrontEnd)

theorem keepsCurrent_note (entries : Journal) :
    KeepsCurrent (ExceptT.lift ((World.site frontEnd).note entries) :
      ExceptT ε (StateM World) Unit) :=
  fun _ => rfl

theorem keepsCurrent_writeText (path text : String) :
    KeepsCurrent (withFiles ((World.site frontEnd).writeText path text)) := by
  refine keepsCurrent_withFiles fun w => ?_
  change (World.write path text w).2.current = _
  unfold World.write
  cases w.files.writeFile path text.toUTF8 <;> rfl

theorem keepsCurrent_makeDirs (path : String) :
    KeepsCurrent (withFiles ((World.site frontEnd).makeDirs path)) := by
  refine keepsCurrent_withFiles fun w => ?_
  change (World.change (fun files => files.makeDirs path) w).2.current = _
  unfold World.change
  dsimp only
  cases w.files.makeDirs path <;> rfl

theorem keepsCurrent_deliver (path text : String) :
    KeepsCurrent (deliver (World.site frontEnd) path text) := by
  have writing := (keepsCurrent_note frontEnd [debug s!"writing {path}"]).bind fun _ =>
    keepsCurrent_writeText frontEnd path text
  unfold deliver
  dsimp only
  split
  · exact (keepsCurrent_makeDirs frontEnd _).bind fun _ => writing
  · exact writing

theorem keepsCurrent_startCommand (command : Command) :
    KeepsCurrent (ExceptT.lift (startCommand (World.site frontEnd) command) :
      ExceptT ε (StateM World) _) := by
  refine keepsCurrent_lift fun w => ?_
  unfold startCommand
  split
  · change (World.start frontEnd command w).2.current = _
    unfold World.start
    cases frontEnd w.files command <;> rfl
  · rfl

theorem keepsCurrent_dumpTree (options : Options) (path : String) :
    KeepsCurrent (dumpTree (World.site frontEnd) options path) := by
  refine (keepsCurrent_note frontEnd _).bind fun _ => ?_
  refine (keepsCurrent_startCommand frontEnd _).bind fun started => ?_
  cases started with
  | error cause => exact keepsCurrent_throw _
  | ok reply =>
      dsimp only
      cases reply.tree path with
      | error fault => exact keepsCurrent_throw _
      | ok tree => exact keepsCurrent_pure tree

theorem keepsCurrent_load (options : Options) (path : String) :
    KeepsCurrent (load (World.site frontEnd) options path) := by
  have reading : KeepsCurrent (withFiles ((World.site frontEnd).readText path)) := fun _ => rfl
  unfold load
  split
  · exact reading.bind fun _ => KeepsCurrent.bind (fun _ => rfl) fun _ => keepsCurrent_pure _
  · refine reading.bind fun _ => (keepsCurrent_dumpTree frontEnd options path).bind fun _ => ?_
    split
    · exact (keepsCurrent_writeText frontEnd _ _).bind fun _ => keepsCurrent_pure _
    · exact keepsCurrent_pure _

theorem keepsCurrent_render (batch : Batch) (document : String) (source : Option String) :
    KeepsCurrent (render (World.site frontEnd) batch document source) := by
  unfold render
  cases parseUnit document with
  | error flaw => exact keepsCurrent_throw _
  | ok root =>
      refine (keepsCurrent_note frontEnd _).bind fun _ => ?_
      cases (batch.render root source).result with
      | ok text => exact keepsCurrent_pure _
      | error fault => exact keepsCurrent_throw _

theorem keepsCurrent_doInput (options : Options) (batch : Batch) (path : String) :
    KeepsCurrent (doInput (World.site frontEnd) options batch path) :=
  (keepsCurrent_load frontEnd options path).bind fun _ =>
    (keepsCurrent_render frontEnd batch _ _).bind fun _ =>
      (keepsCurrent_deliver frontEnd _ _).bind fun _ => keepsCurrent_pure _

theorem keepsCurrent_deliverGlobals (options : Options) (dir : String) (batch : Batch) :
    KeepsCurrent (deliverGlobals (World.site frontEnd) options dir batch) :=
  (keepsCurrent_note frontEnd _).bind fun _ =>
    (keepsCurrent_deliver frontEnd _ _).bind fun _ =>
      (keepsCurrent_note frontEnd _).bind fun _ => keepsCurrent_pure _

end Current

end VFromC.Run
