import VFromC.Run.Path
/-!
The files that a run can see: a tree of directories and files, named by paths from its top.
-/
namespace VFromC.Run

/-- The ways in which work on a file or the start of a program can fail. -/
inductive FileFault where
  | notFound
  | denied
  | alreadyExists
  | notDirectory
  | isDirectory
  | notText
  | nameTooLong
  | badName
  | badWord
  | other (text : String)
deriving DecidableEq, Repr

def FileFault.message : FileFault → String
  | .notFound => "No such file or directory (os error 2)"
  | .denied => "Permission denied (os error 13)"
  | .alreadyExists => "File exists (os error 17)"
  | .notDirectory => "Not a directory (os error 20)"
  | .isDirectory => "Is a directory (os error 21)"
  | .notText => "stream did not contain valid UTF-8"
  | .nameTooLong => "File name too long (os error 36)"
  | .badName => "file name contained an unexpected NUL byte"
  | .badWord => "nul byte found in provided data"
  | .other text => text

inductive Item where
  | directory
  | file (content : ByteArray)

instance : DecidableEq Item
  | .directory, .directory => isTrue rfl
  | .directory, .file _ | .file _, .directory => isFalse (by simp)
  | .file a, .file b =>
      decidable_of_iff (a.data = b.data) (by rw [Item.file.injEq, ByteArray.ext_iff])

/-- The way to an item: the names on it from the top. A way that leaves the top starts with dots, and one
from the root of all files with a slash. -/
abbrev Route := List (List Char)

def rootRoute : Route := [['/']]

/-- The route leads to the top, to a directory above it or to the root. -/
def Route.isAbove (route : Route) : Bool := route = rootRoute || route.all (· = ['.', '.'])

def Route.up (route : Route) : Route :=
  if route = rootRoute then route
  else if route.isAbove then route ++ [['.', '.']]
  else route.dropLast

structure FileStore where
  items : List (Route × Item) := []
deriving DecidableEq

namespace FileStore

/-- The item at the end of a route. The top and what is above it are always there. -/
def get? (store : FileStore) (route : Route) : Option Item :=
  if route.isAbove then some .directory
  else (store.items.find? fun entry => entry.1 = route).map Prod.snd

def put (store : FileStore) (route : Route) (item : Item) : FileStore :=
  { items := store.items.filter (fun entry => entry.1 ≠ route) ++ [(route, item)] }

/-- A name has at most 255 bytes. -/
def isTooLong (name : List Char) : Bool := 255 < (String.ofList name).utf8ByteSize

/-- Follows segments from a directory. All but the last name have to lead to directories; the last one
may name nothing. -/
def follow (store : FileStore) : Route → List (List Char) → Except FileFault Route
  | here, [] => .ok here
  | here, s :: rest =>
      if s = [] ∨ s = ['.'] then store.follow here rest
      else if s = ['.', '.'] then store.follow (Route.up here) rest
      else if isTooLong s then .error .nameTooLong
      else if rest = [] then .ok (here ++ [s])
      else match store.get? (here ++ [s]) with
        | some .directory => store.follow (here ++ [s]) rest
        | some (.file _) => .error .notDirectory
        | none => .error .notFound

/-- Where the route of a path starts. -/
def start (path : String) : Route := if path.toList.head? = some '/' then rootRoute else []

/-- The segments of a path that can be looked up: it has no NUL, is not empty and has fewer than 4096
bytes. -/
def pathSegments (path : String) : Except FileFault (List (List Char)) :=
  if path.toList.contains '\x00' then .error .badName
  else if path = "" then .error .notFound
  else if 4096 ≤ path.utf8ByteSize then .error .nameTooLong
  else .ok (segments path.toList)

/-- The route that a path takes. -/
def locate (store : FileStore) (path : String) : Except FileFault Route :=
  (pathSegments path).bind (store.follow (start path))

def find (store : FileStore) (path : String) : Except FileFault Item :=
  (store.locate path).bind fun route =>
    match store.get? route with
    | some item => .ok item
    | none => .error .notFound

def isDir (store : FileStore) (path : String) : Bool :=
  match store.find path with
  | .ok .directory => true
  | _ => false

def readText (store : FileStore) (path : String) : Except FileFault String :=
  match store.find path with
  | .error e => .error e
  | .ok .directory => .error .isDirectory
  | .ok (.file content) =>
      match String.fromUTF8? content with
      | some text => .ok text
      | none => .error .notText

/-- The name under which an item stands directly in a directory, if it does and is a file. -/
def fileNameIn (dir : Route) : Route × Item → Option String
  | (route, .file _) =>
      match route.getLast? with
      | some name => if route = dir ++ [name] then some (String.ofList name) else none
      | none => none
  | (_, .directory) => none

def fileNames (store : FileStore) (path : String) : List String :=
  match store.locate path with
  | .ok dir => store.items.filterMap (fileNameIn dir)
  | .error _ => []

/-- The names of the files in a directory. Nothing else can be listed. -/
def list (store : FileStore) (path : String) : Except FileFault (List String) :=
  match store.find path with
  | .error e => .error e
  | .ok .directory => .ok (store.fileNames path)
  | .ok (.file _) => .error .notDirectory

/-- Makes the directories along segments, as far as they are missing. -/
def makeAlong (store : FileStore) : Route → List (List Char) → Except FileFault FileStore
  | _, [] => .ok store
  | here, s :: rest =>
      if s = [] ∨ s = ['.'] then makeAlong store here rest
      else if s = ['.', '.'] then makeAlong store (Route.up here) rest
      else if isTooLong s then .error .nameTooLong
      else match store.get? (here ++ [s]) with
        | some .directory => makeAlong store (here ++ [s]) rest
        | some (.file _) =>
            .error (if dropIdle (s :: rest).reverse = [s] then .alreadyExists else .notDirectory)
        | none => makeAlong (store.put (here ++ [s]) .directory) (here ++ [s]) rest

def makeDirs (store : FileStore) (path : String) : Except FileFault FileStore :=
  (pathSegments path).bind (store.makeAlong (start path))

/-- Where a file is written. A path with a slash at its end names a directory, whether it is there or
not. -/
def locateTarget (store : FileStore) (path : String) : Except FileFault Route :=
  (pathSegments path).bind fun parts =>
    if parts.getLast? = some [] then
      (store.follow (start path) (parts.reverse.dropWhile (· = [])).reverse).bind fun _ =>
        .error .isDirectory
    else store.follow (start path) parts

def writeFile (store : FileStore) (path : String) (content : ByteArray) :
    Except FileFault FileStore :=
  (store.locateTarget path).bind fun route =>
    match store.get? route with
    | some .directory => .error .isDirectory
    | _ => .ok (store.put route (.file content))

/-- The files of the store that are not the same in `before`. -/
def changedSince (store before : FileStore) : List (Route × ByteArray) :=
  store.items.filterMap fun entry =>
    match entry.2, before.get? entry.1 with
    | .directory, _ => none
    | .file content, some (.file old) => if content.data = old.data then none else some (entry.1, content)
    | .file content, _ => some (entry.1, content)

end FileStore

end VFromC.Run
