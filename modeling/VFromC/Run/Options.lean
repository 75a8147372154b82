/-!
The command line of a run: inputs, and options before, between or after them.
-/
namespace VFromC.Run

structure Options where
  /-- C files, syntax trees and directories of C files. -/
  inputs : List String := []
  /-- Where the results go, if not beside the inputs. -/
  outputDir : Option String := none
  verbose : Bool := false
  /-- The program of the C front end. -/
  clang : String := "clang"
  clangFlags : List String := []
  keepAst : Bool := false
  globalsFile : String := "_globals.v"
deriving DecidableEq, Repr

/-- The things that a command line can give. -/
inductive Slot where
  | inputs
  | outputDir
  | verbose
  | clang
  | clangFlag
  | keepAst
  | globalsFile
  | help
deriving DecidableEq, Repr

namespace Slot

/-- The slot takes a value; the others are switches. -/
def takesValue : Slot → Bool
  | .inputs | .outputDir | .clang | .clangFlag | .globalsFile => true
  | .verbose | .keepAst | .help => false

/-- The values are names of files, which are never empty. -/
def isPath : Slot → Bool
  | .inputs | .outputDir | .clang => true
  | _ => false

/-- The slot can be given several times. -/
def repeats : Slot → Bool
  | .inputs | .clangFlag => true
  | _ => false

def ofLong : String → Option Slot
  | "output-dir" => some .outputDir
  | "verbose" => some .verbose
  | "clang" => some .clang
  | "clang-flag" => some .clangFlag
  | "keep-ast" => some .keepAst
  | "globals-file" => some .globalsFile
  | "help" => some .help
  | _ => none

def ofShort : Char → Option Slot
  | 'o' => some .outputDir
  | 'v' => some .verbose
  | 'h' => some .help
  | _ => none

end Slot

/-- Why a command line asks for no run. -/
inductive Usage where
  | missingInput
  | unknownArgument
  | invalidValue
  | givenTwice
  | needlessValue
  | helpAsked
deriving DecidableEq, Repr

def usage : String := "\n".intercalate [
  "Usage: [OPTIONS] <INPUTS>...",
  "",
  "Options:",
  "  -o, --output-dir <DIR>",
  "  -v, --verbose",
  "      --clang <PATH>         [default: clang]",
  "      --clang-flag <FLAG>",
  "      --keep-ast",
  "      --globals-file <NAME>  [default: _globals.v]",
  "  -h, --help",
  ""]

/-- The command line up to some argument. -/
structure Reading where
  options : Options := {}
  given : List Slot := []
  /-- The slot that is being filled, with its values so far. -/
  pending : Option (Slot × List String) := none
  /-- The next argument is a value of the open slot. -/
  awaiting : Bool := false
  /-- Options have ended, and what follows are inputs. -/
  inputsOnly : Bool := false
deriving DecidableEq, Repr

namespace Reading

def store (o : Options) : Slot → List String → Options
  | .inputs, values => { o with inputs := o.inputs ++ values }
  | .clangFlag, values => { o with clangFlags := o.clangFlags ++ values }
  | .outputDir, values => { o with outputDir := values.getLast? }
  | .clang, values => { o with clang := values.getLast?.getD o.clang }
  | .globalsFile, values => { o with globalsFile := values.getLast?.getD o.globalsFile }
  | .verbose, _ => { o with verbose := true }
  | .keepAst, _ => { o with keepAst := true }
  | .help, _ => o

/-- Fills a slot, after a look at its values and at what is filled already. -/
def fill (r : Reading) (slot : Slot) (values : List String) : Except Usage Reading :=
  if slot.takesValue && values.isEmpty then .error .invalidValue
  else if !slot.repeats && r.given.contains slot then .error .givenTwice
  else if slot.isPath && values.contains "" then .error .invalidValue
  else .ok { r with options := store r.options slot values, given := slot :: r.given }

def settle (r : Reading) : Except Usage Reading :=
  match r.pending with
  | none => .ok r
  | some (slot, values) => ({ r with pending := none } : Reading).fill slot values

def give (r : Reading) (slot : Slot) (values : List String) : Except Usage Reading := do
  let r ← r.settle
  if slot = .help then .error .helpAsked
  else ({ r with awaiting := false } : Reading).fill slot values

def await (r : Reading) (slot : Slot) : Except Usage Reading := do
  let r ← r.settle
  .ok { r with pending := some (slot, []), awaiting := true }

def push (r : Reading) (value : String) : Reading :=
  { r with
    pending := r.pending.map fun entry => (entry.1, entry.2 ++ [value])
    awaiting := false }

/-- Takes an argument that is no option. -/
def input (r : Reading) (value : String) : Except Usage Reading :=
  match r.pending with
  | some (.inputs, _) => .ok (r.push value)
  | _ => do
      let r ← r.settle
      .ok { r with pending := some (.inputs, [value]), awaiting := false }

/-- Takes an argument that is neither an option nor the mark that ends them. -/
def value (r : Reading) (arg : String) : Except Usage Reading :=
  if r.awaiting && !r.inputsOnly then .ok (r.push arg) else r.input arg

/-- Takes an option with a long name, given without its two dashes. -/
def long (r : Reading) (text : List Char) : Except Usage Reading :=
  let name := String.ofList (text.takeWhile (· ≠ '='))
  match Slot.ofLong name, text.dropWhile (· ≠ '=') with
  | none, _ => .error .unknownArgument
  | some slot, [] => if slot.takesValue then r.await slot else r.give slot []
  | some slot, _ :: attached =>
      if slot.takesValue then r.give slot [String.ofList attached] else .error .needlessValue

/-- Takes options with one letter each, given without their dash. What follows the letter of an option
with a value is that value. -/
def short (r : Reading) : List Char → Except Usage Reading
  | [] => .ok r
  | c :: rest =>
      match Slot.ofShort c with
      | none => .error .unknownArgument
      | some slot =>
          if !slot.takesValue then (r.give slot []).bind fun r => r.short rest
          else match rest with
            | [] => r.await slot
            | '=' :: attached => r.give slot [String.ofList attached]
            | attached => r.give slot [String.ofList attached]

/-- The open slot takes its value even if that starts with a dash. -/
def takesAnything (r : Reading) : Bool :=
  r.awaiting && r.pending.any fun entry => entry.1 = .clangFlag

def step (r : Reading) (arg : String) : Except Usage Reading :=
  if r.inputsOnly then r.input arg
  else if r.takesAnything then .ok (r.push arg)
  else match arg.toList with
    | ['-', '-'] => .ok { r with inputsOnly := true }
    | '-' :: '-' :: text => r.long text
    | '-' :: c :: text => r.short (c :: text)
    | _ => r.value arg

def finish (r : Reading) : Except Usage Options := do
  let r ← r.settle
  if r.options.inputs = [] then .error .missingInput else .ok r.options

end Reading

/-- Reads a command line, without the name of the program. -/
def Options.parse (args : List String) : Except Usage Options :=
  (args.foldlM Reading.step {}).bind Reading.finish

end VFromC.Run
