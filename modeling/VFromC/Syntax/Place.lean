/-!
Places in source files.

A front end prints the file of a location only when it differs from the last one it printed, and
prints two locations for what a macro expands to. `Place.ofPrinted` flattens what is printed for
one node; the files that are left out are filled in afterwards from the marks.
-/
namespace VFromC.Syntax

structure Point where
  offset : Option Nat := none
  file : String := ""
  line : Nat := 0
  includedFrom : String := ""
deriving DecidableEq, Repr, Inhabited

/-- A location, with where a macro's text was written and where it was expanded. -/
structure Spot where
  plain : Point := {}
  spelling : Point := {}
  expansion : Point := {}
deriving DecidableEq, Repr, Inhabited

structure Extent where
  start : Spot := {}
  stop : Spot := {}
deriving DecidableEq, Repr, Inhabited

/-- A change of file in the printed text. -/
structure Mark where
  file : String := ""
  includedFrom : String := ""
deriving DecidableEq, Repr, Inhabited

structure Place where
  offset : Nat := 0
  file : String := ""
  line : Nat := 0
  includedFrom : String := ""
  spellingFile : String := ""
  extentSpellingFile : String := ""
  hasPosition : Bool := false
  /-- File changes printed with the location itself. -/
  marks : List Mark := []
  /-- File changes printed with the extent, after those of the location. -/
  extentMarks : List Mark := []
deriving DecidableEq, Repr, Inhabited

def Point.mark? (p : Point) : Option Mark :=
  if p.file = "" then none else some ⟨p.file, p.includedFrom⟩

/-- File changes in the order in which they are printed. -/
def Spot.marks (s : Spot) : List Mark :=
  [s.spelling, s.expansion, s.plain].filterMap Point.mark?

def Spot.hasPosition (s : Spot) : Bool :=
  s.plain.offset.isSome || s.spelling.offset.isSome || s.expansion.offset.isSome

/-- The point that stands for the node: where the macro was expanded if only nested locations are
there, the plain one otherwise. -/
def Spot.main (s : Spot) : Point :=
  if s.plain.offset.isNone && s.expansion.offset.isSome then s.expansion else s.plain

namespace Place

def ofPrinted (loc : Spot) (extent : Extent) : Place where
  offset := loc.main.offset.getD 0
  file := loc.main.file
  line := loc.main.line
  includedFrom := loc.main.includedFrom
  spellingFile := loc.spelling.file
  extentSpellingFile := extent.start.spelling.file
  hasPosition := loc.hasPosition
  marks := loc.marks
  extentMarks := extent.start.marks ++ extent.stop.marks

/-- No place at all, as declarations of the compiler itself have it. -/
def isEmpty (p : Place) : Bool :=
  !p.hasPosition && p.file = "" && p.spellingFile = "" && p.extentSpellingFile = ""

/-- The file in force after the location was printed. -/
def fileAfter (p : Place) (current : Mark) : Mark := p.marks.getLast?.getD current

/-- The file in force after the extent was printed too. -/
def fileAfterExtent (p : Place) (current : Mark) : Mark := p.extentMarks.getLast?.getD current

/-- Fills in the file of a place that was printed without one. -/
def complete (p : Place) (current : Mark) : Place :=
  if p.hasPosition && p.file = "" then
    { p with
      file := current.file
      includedFrom := if p.includedFrom = "" then current.includedFrom else p.includedFrom }
  else p

end Place

end VFromC.Syntax
