import VFromC.Run.Job
/-!
The command line: the run on the files of the machine.
-/
namespace VFromC.Main
open VFromC.Run

def faultOf : IO.Error → FileFault
  | .noFileOrDirectory .. => .notFound
  | .permissionDenied .. => .denied
  | .alreadyExists .. => .alreadyExists
  | .inappropriateType _ 20 _ => .notDirectory
  | .inappropriateType _ 21 _ => .isDirectory
  | e => .other (toString e)

def caught {α : Type} (x : IO α) : IO (Except FileFault α) := do
  match ← x.toBaseIO with
  | .ok a => pure (.ok a)
  | .error e => pure (.error (faultOf e))

def entryOf (path : String) : IO.FS.DirEntry := { root := path, fileName := "" }

def readText (path : String) : IO (Except FileFault String) := do
  match ← caught (IO.FS.readBinFile path) with
  | .error e => pure (.error e)
  | .ok content =>
      match String.fromUTF8? content with
      | some text => pure (.ok text)
      | none => pure (.error .notText)

def isFile (entry : IO.FS.DirEntry) : IO Bool := do
  match ← caught entry.path.metadata with
  | .ok data => pure (data.type == .file)
  | .error _ => pure false

def fileNames (path : String) : IO (Except FileFault (List String)) := do
  match ← caught (entryOf path).root.readDir with
  | .ok entries => return .ok ((← entries.toList.filterM isFile).map (·.fileName))
  | .error e => pure (.error e)

/-- The machine as a place to run in. It starts no programs, so that inputs are syntax trees. -/
def machine (level : Level) (current : IO.Ref (Option String)) : Site IO where
  isDir path := (entryOf path).root.isDir
  fileNames := fileNames
  readText := readText
  writeText path text := caught (IO.FS.writeFile path text)
  makeDirs path := caught (IO.FS.createDirAll path)
  start _ := pure (.error (.other "no programs can be started from here"))
  note entries := (Journal.lines entries level).forM IO.eprintln
  setCurrent input := current.set input
  current := current.get

def levelOf (args : List String) : Level :=
  match Options.parse args with
  | .ok options => if options.verbose then .debug else .warn
  | .error _ => .warn

end VFromC.Main

def main (args : List String) : IO UInt32 := do
  let current ← IO.mkRef none
  let machine := VFromC.Main.machine (VFromC.Main.levelOf args) current
  let ending ← VFromC.Run.invoke machine args
  match VFromC.Run.Options.parse args with
  | .error .helpAsked => IO.print VFromC.Run.usage
  | _ => IO.eprint (ending.complaint.getD VFromC.Run.usage)
  return ending.code.toUInt32
