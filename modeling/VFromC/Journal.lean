import VFromC.Syntax.Kind
/-!
What is told about a run: the journal, which reports its work in order, and the conditions under
which the work on a unit stops.
-/
namespace VFromC
open VFromC.Syntax

/-- Levels from the most severe to the most talkative. -/
inductive Level where
  | error
  | warn
  | info
  | debug
deriving DecidableEq, Repr

namespace Level

def rank : Level → Nat
  | .error => 0
  | .warn => 1
  | .info => 2
  | .debug => 3

def word : Level → String
  | .error => "ERROR"
  | .warn => "WARN"
  | .info => "INFO"
  | .debug => "DEBUG"

end Level

structure Entry where
  level : Level
  text : String
deriving DecidableEq, Repr

abbrev Journal := List Entry

def Entry.line (e : Entry) : String := s!"{e.level.word} {e.text}"

/-- The lines of the entries that are at least as severe as `level`. -/
def Journal.lines (journal : Journal) (level : Level) : List String :=
  (journal.filter fun e => e.level.rank ≤ level.rank).map Entry.line

def debug (text : String) : Entry := ⟨.debug, text⟩

def info (text : String) : Entry := ⟨.info, text⟩

def warning (text : String) : Entry := ⟨.warn, text⟩

inductive Fault where
  | unhandledNode (kind : Kind) (place : String)
  | missingChild (parent : Kind) (expected : String)
  | localExtern (name : String)
  | unsizedArray (name type : String)
  | conflictingGlobal (name existing new : String)
  | unresolvedLabel (id : String)
  | switchShape (what : String)
  | unhandledTopLevel (kind : Kind)
deriving DecidableEq, Repr

namespace Fault

def message : Fault → String
  | .unhandledNode kind place => s!"unhandled {kind.name} node in {place}"
  | .missingChild parent expected => s!"{parent.name} node is missing its {expected} child"
  | .localExtern name => s!"local extern variables are not supported: `{name}`"
  | .unsizedArray name type =>
      s!"uninitialized fixed array without a size: `{name}` of type `{type}`"
  | .conflictingGlobal name existing new =>
      s!"duplicate global `{name}` with different types: `{existing}` and `{new}`; rename one of them"
  | .unresolvedLabel id => s!"goto target with label id {id} is never defined"
  | .switchShape what => s!"unexpected switch body shape: {what}"
  | .unhandledTopLevel kind => s!"unhandled top level node {kind.name}"

end Fault

end VFromC
