import VFromC.Text.OnStrings
import VFromC.Journal
/-!
Labels of jumps.

A jump knows its label only by an identifier. When the name is not known yet a mark is written in
its place, and the marks are replaced once the whole unit is there.
-/
namespace VFromC.Output
open VFromC.Text

structure Labels where
  /-- Names by identifier, the latest first. -/
  names : List (String × String) := []
  /-- Identifiers that were needed before they were named, in the order of their first use. -/
  pending : List String := []
deriving DecidableEq, Repr

namespace Labels

def markStart : String := "__GOTO_PLACEHOLDER_"

def markOf (id : String) : String := markStart ++ id ++ "__"

def hasMark (text : String) : Bool := occursIn markStart text

def define (labels : Labels) (id name : String) : Labels :=
  { labels with names := (id, name) :: labels.names }

/-- What a jump to `id` writes, and the labels that then wait for a name. -/
def target (labels : Labels) (id : String) : String × Labels :=
  match labels.names.lookup id with
  | some name => (name, labels)
  | none =>
      (markOf id,
        { labels with
          pending := if labels.pending.contains id then labels.pending
                     else labels.pending ++ [id] })

def resolveAll (names : List (String × String)) : List String → String → Except Fault String
  | [], text => .ok text
  | id :: ids, text =>
      match names.lookup id with
      | some name => resolveAll names ids (replaced (markOf id) name text)
      | none => .error (.unresolvedLabel id)

/-- Replaces every mark in `text`; fails at the first label that never got a name. -/
def resolve (labels : Labels) (text : String) : Except Fault String :=
  resolveAll labels.names labels.pending text

end Labels

end VFromC.Output
