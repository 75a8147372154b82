import VFromC.Journal
import VFromC.Run.FrontEnd
/-!
What a run needs from the place where it runs, and a place that is only a value.
-/
namespace VFromC.Run

/-- The means of a run: files, a front end, a journal, and a note of the input at work. -/
structure Site (m : Type → Type) where
  isDir : String → m Bool
  fileNames : String → m (Except FileFault (List String))
  readText : String → m (Except FileFault String)
  writeText : String → String → m (Except FileFault Unit)
  makeDirs : String → m (Except FileFault Unit)
  start : Command → m (Except FileFault Reply)
  note : Journal → m Unit
  setCurrent : Option String → m Unit
  current : m (Option String)

/-- A place to run in: its files, and what has happened there. -/
structure World where
  files : FileStore := {}
  journal : Journal := []
  calls : List Command := []
  /-- The texts that were written, each with the path it went to. -/
  written : List (String × String) := []
  /-- The input at work. -/
  current : Option String := none

namespace World

/-- Changes the files, if that is possible. -/
def change (f : FileStore → Except FileFault FileStore) : StateM World (Except FileFault Unit) :=
  fun w => match f w.files with
    | .ok files => (.ok (), { w with files })
    | .error e => (.error e, w)

/-- Writes a text and keeps it in mind if it could be written. -/
def write (path text : String) : StateM World (Except FileFault Unit) :=
  fun w => match w.files.writeFile path text.toUTF8 with
    | .ok files => (.ok (), { w with files, written := w.written ++ [(path, text)] })
    | .error e => (.error e, w)

/-- Starts a command and keeps it in mind if it could be started. -/
def start (frontEnd : FrontEnd) (command : Command) : StateM World (Except FileFault Reply) :=
  fun w => match frontEnd w.files command with
    | .ok reply => (.ok reply, { w with calls := w.calls ++ [command] })
    | .error e => (.error e, w)

/-- The means that a world offers. -/
def site (frontEnd : FrontEnd) : Site (StateM World) where
  isDir path := fun w => (w.files.isDir path, w)
  fileNames path := fun w => (w.files.list path, w)
  readText path := fun w => (w.files.readText path, w)
  writeText := write
  makeDirs path := change fun files => files.makeDirs path
  start := start frontEnd
  note entries := fun w => ((), { w with journal := w.journal ++ entries })
  setCurrent input := fun w => ((), { w with current := input })
  current := fun w => (w.current, w)

end World

end VFromC.Run
