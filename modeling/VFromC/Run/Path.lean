/-!
Names of files. A path is a list of segments between slashes; an empty segment or a dot after the first
segment stands for nothing.
-/
namespace VFromC.Run

def segments : List Char → List (List Char)
  | [] => [[]]
  | c :: rest =>
      if c = '/' then [] :: segments rest
      else match segments rest with
        | [] => [[c]]
        | s :: more => (c :: s) :: more

def ofSegments (parts : List (List Char)) : List Char := ['/'].intercalate parts

/-- Drops the segments that stand for nothing from a list that begins with the last one. -/
def dropIdle : List (List Char) → List (List Char)
  | [] => []
  | s :: rest => if (s = [] ∨ s = ['.']) ∧ rest ≠ [] then dropIdle rest else s :: rest

/-- The segments that count, the last one first. -/
def backwards (path : String) : List (List Char) := dropIdle (segments path.toList).reverse

def isName (s : List Char) : Bool := s ≠ [] && s ≠ ['.'] && s ≠ ['.', '.']

def fileName? (path : String) : Option (List Char) :=
  match backwards path with
  | s :: _ => if isName s then some s else none
  | [] => none

/-- A name cut at its last dot, which is dropped. A dot at the start does not count. -/
def cutName (name : List Char) : List Char × Option (List Char) :=
  let after := name.reverse.takeWhile (· ≠ '.')
  match name.reverse.dropWhile (· ≠ '.') with
  | _ :: before@(_ :: _) => (before.reverse, some after.reverse)
  | _ => (name, none)

def extension? (path : String) : Option String :=
  (fileName? path).bind fun name => (cutName name).2.map String.ofList

def stem? (path : String) : Option String :=
  (fileName? path).map fun name => String.ofList (cutName name).1

/-- Puts an extension on the stem of the last name. A path without a last name stays as it is. -/
def setExtension (path ext : String) : String :=
  match fileName? path with
  | none => path
  | some name =>
      let named := (cutName name).1 ++ '.' :: ext.toList
      String.ofList (ofSegments (named :: (backwards path).tail).reverse)

/-- The path with the letters of its extension cut off; the dot before them stays. -/
def withoutExtension (path : String) : String :=
  match extension? path with
  | none => path
  | some ext => String.ofList (path.toList.take (path.toList.length - ext.toList.length))

/-- The path with another extension. Where only dots are left of the last name once its extension is
cut off, they stand for a directory and the new extension is not put on. -/
def withExtension (path ext : String) : String := setExtension (withoutExtension path) ext

/-- The path without its last segment. The empty path and the root have none. -/
def parent? (path : String) : Option String :=
  match backwards path with
  | [] => none
  | [[]] => none
  | _ :: rest =>
      let kept := dropIdle rest
      some (if kept = [[]] then "/" else String.ofList (ofSegments kept.reverse))

/-- The path `name` seen from `base`. -/
def joined (base name : String) : String :=
  if name.toList.head? = some '/' ∨ base = "" then name
  else if base.toList.getLast? = some '/' then base ++ name
  else base ++ "/" ++ name

def withName (path name : String) : String :=
  if (fileName? path).isSome then joined ((parent? path).getD "") name else joined path name

/-- Where the unit of an input goes: beside the input or into `dir`, with the extension `v`. -/
def unitPath (dir : Option String) (input : String) : String :=
  let name := setExtension ((stem? input).getD input) "v"
  match dir with
  | some d => joined d name
  | none => withName input name

end VFromC.Run
