import VFromC.Run.FileStore
import VFromC.Text.Escaped
import VFromC.Text.OnStrings
import VFromC.Text.Utf8
/-!
The C front end, a program of its own that prints the syntax tree of a source file.
-/
namespace VFromC.Run

structure Command where
  program : String
  arguments : List String
  isIntact : Bool := true
deriving DecidableEq, Repr

/-- A word of a command ends where a NUL stands, so that it cannot hold one. -/
def canPass (word : String) : Bool := !word.toList.contains '\x00'

/-- The word, or a note in place of one that cannot be passed. -/
def passed (word : String) : String := if canPass word then word else "<string-with-nul>"

def Command.of (program : String) (arguments : List String) : Command where
  program := passed program
  arguments := arguments.map passed
  isIntact := (program :: arguments).all canPass

/-- Asks the front end for the syntax tree of a file. -/
def treeCommand (program : String) (flags : List String) (path : String) : Command :=
  Command.of program
    (["-w", "-Xclang", "-ast-dump=json", "-fsyntax-only", "-fno-diagnostics-color", "-c", path] ++ flags)

def hexPair (n : Nat) : List Char := [Nat.digitChar (n / 16), Nat.digitChar (n % 16)]

/-- A character of a program's name: both quotes are escaped, and controls are written as bytes. -/
def shownChar (c : Char) : List Char :=
  if c = '"' ∨ c = '\'' ∨ c = '\\' then ['\\', c]
  else if c = '\n' then ['\\', 'n']
  else if c = '\r' then ['\\', 'r']
  else if c = '\t' then ['\\', 't']
  else if c.toNat < 0x20 ∨ c.toNat = 0x7F then '\\' :: 'x' :: hexPair c.toNat
  else if Text.isUnseen c then Text.codePoint c
  else [c]

def shownProgram (program : String) : String :=
  "\"" ++ String.ofList (program.toList.flatMap shownChar) ++ "\""

def Command.line (c : Command) : String :=
  " ".intercalate (shownProgram c.program :: c.arguments.map Text.escapedQuote)

/-- What a program that ran to its end leaves. -/
structure Reply where
  stdout : ByteArray := .empty
  stderr : ByteArray := .empty
  success : Bool := true

/-- Runs commands among the given files; a command can fail to start. -/
abbrev FrontEnd := FileStore → Command → Except FileFault Reply

inductive FrontEndFault where
  | notStarted (program : String) (cause : FileFault)
  | failed (path : String) (complaint : String)
deriving DecidableEq, Repr

def FrontEndFault.message : FrontEndFault → String
  | .notStarted program cause => s!"failed to run `{program}`: {cause.message}"
  | .failed path complaint => s!"clang failed on {path}: {complaint}"

/-- The syntax tree in a reply, or the complaint of the front end. -/
def Reply.tree (r : Reply) (path : String) : Except FrontEndFault String :=
  if r.success then .ok (Text.showBytes r.stdout)
  else .error (.failed path (Text.trimmed (Text.showBytes r.stderr)))

end VFromC.Run
