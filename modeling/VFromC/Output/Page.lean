import VFromC.Text.OnStrings
/-!
A page collects text line by line.

Text is added to the pending line, and the indentation in force when a line ends is the one it
gets. Lines are trimmed at both ends.
-/
namespace VFromC.Output
open VFromC.Text

structure Page where
  /-- The lines that are complete. -/
  done : String := ""
  /-- The line being written. -/
  pending : String := ""
  indent : Nat := 0
deriving DecidableEq, Repr

/-- A line as it is stored: blank lines lose everything but their end. -/
def lineText (indent : Nat) (line : String) : String :=
  if trimmed line = "" then "\n"
  else String.ofList (List.replicate indent '\t') ++ trimmed line ++ "\n"

/-- Cuts a text after the characters that fit into the first `n` bytes. -/
def cutBytes : Nat → List Char → List Char × List Char
  | _, [] => ([], [])
  | n, c :: s =>
      if c.utf8Size ≤ n then
        let parts := cutBytes (n - c.utf8Size) s
        (c :: parts.1, parts.2)
      else ([], c :: s)

namespace Page

def write (p : Page) (s : String) : Page := { p with pending := p.pending ++ s }

def flush (p : Page) : Page :=
  { p with done := p.done ++ lineText p.indent p.pending, pending := "" }

def writeLine (p : Page) (s : String) : Page := (p.write s).flush

/-- Ends the pending line if there is anything on it. -/
def endLine (p : Page) : Page :=
  if trimmed p.pending = "" then { p with pending := "" } else p.flush

def deeper (p : Page) : Page := { p with indent := p.indent + 1 }

def shallower (p : Page) : Page := { p with indent := p.indent - 1 }

/-- The size in bytes of the complete text, which any pending line joins first. -/
def mark (p : Page) : Nat × Page := (p.endLine.done.utf8ByteSize, p.endLine)

/-- Takes out what was written since `mark`. -/
def takeFrom (p : Page) (mark : Nat) : String × Page :=
  let parts := cutBytes mark p.endLine.done.toList
  (String.ofList parts.2, { p.endLine with done := String.ofList parts.1 })

def finish (p : Page) : String := p.endLine.done

end Page

end VFromC.Output
