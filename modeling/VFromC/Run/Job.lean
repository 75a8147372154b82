import VFromC.Batch
import VFromC.Syntax.Decode
import VFromC.Run.Site
import VFromC.Run.Options
/-!
A run over files: each input is read as a syntax tree, with the front end where it is C, and its unit is
written. The units of a run share one batch.
-/
namespace VFromC.Run
open VFromC.Syntax

inductive Trouble where
  | file (cause : FileFault)
  | document (flaw : Json.Flaw)
  | frontEnd (fault : FrontEndFault)
  | unit (fault : Fault)
  | noInputs
deriving DecidableEq, Repr

/-- What is told about a trouble. The flaw of a document is not described further. -/
def Trouble.message : Trouble → String
  | .file cause => s!"I/O error: {cause.message}"
  | .document _ => "invalid AST JSON: "
  | .frontEnd fault => fault.message
  | .unit fault => fault.message
  | .noInputs => "no .c or .json inputs found"

/-- A trouble and the input at which it ended the run. -/
structure Stop where
  trouble : Trouble
  input : Option String := none
deriving DecidableEq, Repr

def Stop.report (stop : Stop) : String :=
  s!"\x1b[31mError\x1b[0m: {stop.trouble.message}\n" ++
    (match stop.input with
      | some path => s!" --> {path}\n"
      | none => "")

structure Outputs where
  units : List String := []
  globals : Option String := none
  skipped : List String := []
deriving DecidableEq, Repr

def Outputs.addUnit (o : Outputs) (path : String) : Outputs := { o with units := o.units ++ [path] }

def Outputs.skip (o : Outputs) (path : String) : Outputs := { o with skipped := o.skipped ++ [path] }

section
variable {m : Type → Type} [Monad m]

def withFiles {α : Type} (x : m (Except FileFault α)) : ExceptT Trouble m α :=
  ExceptT.mk (Except.mapError Trouble.file <$> x)

/-- Whether an input is a directory, and the files that it stands for: the C files of a directory by
name, or the input itself. -/
def expand (site : Site m) (input : String) : ExceptT Trouble m (Bool × List String) := do
  if ← ExceptT.lift (site.isDir input) then
    let names ← withFiles (site.fileNames input)
    let sources := names.filter fun name => extension? name = some "c"
    pure (true, (sources.mergeSort fun a b => decide (a ≤ b)).map (joined input))
  else pure (false, [input])

/-- The first directory among the inputs, and the files that the inputs stand for. -/
def expandAll (site : Site m) : List String → ExceptT Trouble m (Option String × List String)
  | [] => pure (none, [])
  | input :: rest => do
      let here ← expand site input
      let others ← expandAll site rest
      pure (if here.1 then some input else others.1, here.2 ++ others.2)

/-- Starts a command, unless a word of it could not be taken over. -/
def startCommand (site : Site m) (command : Command) : m (Except FileFault Reply) :=
  if command.isIntact then site.start command else pure (.error .badWord)

def dumpTree (site : Site m) (options : Options) (path : String) : ExceptT Trouble m String := do
  let command := treeCommand options.clang options.clangFlags path
  ExceptT.lift (site.note [debug s!"running {command.line}"])
  match ← ExceptT.lift (startCommand site command) with
  | .error cause => throw (.frontEnd (.notStarted options.clang cause))
  | .ok reply =>
      match reply.tree path with
      | .ok tree => pure tree
      | .error fault => throw (.frontEnd fault)

/-- The syntax tree of an input as a document, and the C text if it is at hand. -/
def load (site : Site m) (options : Options) (path : String) :
    ExceptT Trouble m (String × Option String) := do
  if extension? path = some "json" then
    let document ← withFiles (site.readText path)
    let source ← ExceptT.lift (site.readText (withExtension path "c"))
    pure (document, source.toOption)
  else
    let source ← withFiles (site.readText path)
    let document ← dumpTree site options path
    if options.keepAst then
      withFiles (site.writeText (withExtension path "json") document)
    pure (document, some source)

/-- The unit of a document, and the batch after it. -/
def render (site : Site m) (batch : Batch) (document : String) (source : Option String) :
    ExceptT Trouble m (String × Batch) := do
  match parseUnit document with
  | .error flaw => throw (.document flaw)
  | .ok root =>
      let outcome := batch.render root source
      ExceptT.lift (site.note outcome.journal)
      match outcome.result with
      | .ok text => pure (text, outcome.batch)
      | .error fault => throw (.unit fault)

def deliver (site : Site m) (path text : String) : ExceptT Trouble m Unit := do
  let dir := (parent? path).getD ""
  if dir ≠ "" then
    withFiles (site.makeDirs dir)
  ExceptT.lift (site.note [debug s!"writing {path}"])
  withFiles (site.writeText path text)

/-- Does one input: the path of its unit, and the batch after it. -/
def doInput (site : Site m) (options : Options) (batch : Batch) (path : String) :
    ExceptT Trouble m (String × Batch) := do
  let loaded ← load site options path
  let rendered ← render site batch loaded.1 loaded.2
  let target := unitPath options.outputDir path
  deliver site target rendered.1
  pure (target, rendered.2)

/-- Does inputs one after the other. In a directory an input on which the front end fails is skipped;
any other trouble ends the run. -/
def doInputs (site : Site m) (options : Options) :
    Batch → Outputs → List String → ExceptT Trouble m (Batch × Outputs)
  | batch, outputs, [] => pure (batch, outputs)
  | batch, outputs, path :: rest => do
      ExceptT.lift (site.setCurrent (some path))
      match ← ExceptT.lift (doInput site options batch path).run with
      | .ok done =>
          ExceptT.lift (site.note [info s!"translated {path} -> {done.1}"])
          doInputs site options done.2 (outputs.addUnit done.1) rest
      | .error (.frontEnd fault) =>
          if batch.shared then
            ExceptT.lift (site.note [warning s!"skipping {path}: {fault.message}"])
            doInputs site options batch (outputs.skip path) rest
          else throw (.frontEnd fault)
      | .error trouble => throw trouble

def deliverGlobals (site : Site m) (options : Options) (dir : String) (batch : Batch) :
    ExceptT Trouble m String := do
  let path := joined (options.outputDir.getD dir) options.globalsFile
  ExceptT.lift (site.note batch.globalsJournal)
  deliver site path batch.globalsFile
  ExceptT.lift (site.note [info s!"wrote globals to {path}"])
  pure path

/-- Does all inputs. If one of them is a directory, the globals go to a file of their own, when no
input is at work any more. -/
def doAll (site : Site m) (options : Options) : ExceptT Trouble m Outputs := do
  let expanded ← expandAll site options.inputs
  if expanded.2 = [] then throw .noInputs
  let done ← doInputs site options { shared := expanded.1.isSome } {} expanded.2
  ExceptT.lift (site.setCurrent none)
  match expanded.1 with
  | none => pure done.2
  | some dir =>
      let path ← deliverGlobals site options dir done.1
      pure { done.2 with globals := some path }

/-- Does a run. A trouble is told with the input that is at work when it happens. -/
def run (site : Site m) (options : Options) : ExceptT Stop m Outputs := do
  match ← ExceptT.lift (doAll site options).run with
  | .ok outputs => pure outputs
  | .error trouble => throw { trouble, input := ← ExceptT.lift site.current }

structure Ending where
  code : Nat
  /-- What it says in the end; nothing for a command line that cannot be read. -/
  complaint : Option String := none
deriving DecidableEq, Repr

def invoke (site : Site m) (args : List String) : m Ending := do
  match Options.parse args with
  | .error .helpAsked => pure { code := 0, complaint := some "" }
  | .error _ => pure { code := 2 }
  | .ok options =>
      match ← (run site options).run with
      | .ok outputs =>
          site.note [info
            s!"translated {outputs.units.length} files, skipped {outputs.skipped.length}"]
          pure { code := 0, complaint := some "" }
      | .error stop => pure { code := 1, complaint := some stop.report }

end

end VFromC.Run
