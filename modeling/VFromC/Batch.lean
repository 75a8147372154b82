import VFromC.Decl.TopLevel
import VFromC.Syntax.Prepare
/-!
A batch of units that share their symbols, so that what several units declare is written once.
-/
namespace VFromC
open VFromC.Syntax VFromC.Output VFromC.Decl

structure Batch where
  symbols : Symbols := {}
  /-- The units belong to one directory, and their globals go to a file of their own. -/
  shared : Bool := false
deriving DecidableEq, Repr

def unitHeader : String := "[translated]\nmodule main\n\n"

def fileDeclaration : String := "[typedef]\nstruct C.FILE \x7b\x7d\n\n"

/-- The result of a step, with the batch as it is afterwards and what was noted on the way. -/
structure Outcome (α : Type) where
  result : Except Fault α
  batch : Batch
  journal : Journal

namespace Batch

/-- The text of a unit around its body. The type for open files is declared where it is used,
unless the globals file declares it. -/
def unitText (shared : Bool) (body : String) : String :=
  if !shared && Text.occursIn "C.FILE" (unitHeader ++ body) then
    unitHeader ++ fileDeclaration ++ body
  else unitHeader ++ body

/-- Notes in the symbols whether a unit uses open files. -/
def noteFile (symbols : Symbols) (body : String) : Symbols :=
  if Text.occursIn "FILE" (unitHeader ++ body) then symbols.markFile else symbols

def unitOf (b : Batch) (root : Node) (source : Option String) : SourceUnit :=
  { root := root.prepare, source, shared := b.shared }

/-- Writes one unit when some labels are known beforehand. -/
def renderKnowing (b : Batch) (labels : Labels) (root : Node) (source : Option String) :
    Outcome String :=
  let done := (b.unitOf root source).compose b.symbols labels
  match done.result.bind fun _ => done.draft.finish with
  | .ok body =>
      { result := .ok (unitText b.shared body)
        batch := { b with symbols := noteFile done.symbols body }
        journal := done.draft.journal }
  | .error e =>
      { result := .error e
        batch := { b with symbols := done.symbols }
        journal := done.draft.journal }

/-- Writes one unit. `source` is its C text, if it is at hand. -/
def render (b : Batch) (root : Node) (source : Option String) : Outcome String :=
  b.renderKnowing {} root source

/-- The parts of the globals file, which are set on lines of their own. -/
def globalsParts (b : Batch) : List String :=
  ["[translated]\n"] ++ (if b.symbols.usesFile then [Text.trimmedEnd fileDeclaration] else []) ++
    b.symbols.globalTexts.map Prod.snd

def globalsFile (b : Batch) : String :=
  let text := "\n".intercalate b.globalsParts
  if Text.ends "\n" text then text else text ++ "\n"

def globalsJournal (b : Batch) : Journal :=
  b.symbols.globalTexts.map fun entry => debug s!"collecting global {entry.1}"

end Batch

end VFromC
