import VFromC.Syntax.Decode
import VFromC.Syntax.Prepare
/-!
Files that are left out in print.

A front end knows the file of every location, and prints it only where it is another one than the
last one printed. Completing the printed tree gives every node its file back.
-/
namespace VFromC.Syntax

/-- A location as the front end knows it. -/
structure Position where
  offset : Nat
  line : Nat
  file : String
  named : file ≠ ""

/-- Where something stands: what a macro expands to is written in one place and expanded in
another. -/
inductive Whereabouts where
  | nowhere
  | plain (here : Position)
  | expanded (spelling expansion : Position)

/-- A tree whose nodes know where they stand. -/
structure Placed where
  info : Info
  loc : Whereabouts
  start : Whereabouts
  stop : Whereabouts
  filler : List Placed
  inner : List Placed

/-- A tree as it is printed. -/
structure PrintedTree where
  info : Info
  loc : Spot
  extent : Extent
  filler : List PrintedTree
  inner : List PrintedTree

section Print

variable (origin : String → String)

/-- The file and where it is included from are printed unless `last` is that file. -/
def Position.print (last : String) (p : Position) : Point :=
  if p.file = last then { offset := some p.offset, line := p.line }
  else
    { offset := some p.offset
      file := p.file
      line := p.line
      includedFrom := origin p.file }

def Whereabouts.print (last : String) : Whereabouts → Spot
  | .nowhere => {}
  | .plain here => { plain := here.print origin last }
  | .expanded spelling expansion =>
      { spelling := spelling.print origin last
        expansion := expansion.print origin spelling.file }

/-- The file last printed once a location is printed. -/
def Whereabouts.lastFile (last : String) : Whereabouts → String
  | .nowhere => last
  | .plain here => here.file
  | .expanded _ expansion => expansion.file

mutual

/-- Prints a tree in the order of the document, when `last` is the file last printed. Gives the
file printed last. -/
def Placed.print (last : String) : Placed → PrintedTree × String
  | ⟨info, loc, start, stop, filler, inner⟩ =>
      let behindLoc := loc.lastFile last
      let behindStart := start.lastFile behindLoc
      let fillers := Placed.printAll (stop.lastFile behindStart) filler
      let children := Placed.printAll fillers.2 inner
      (⟨info, loc.print origin last,
          ⟨start.print origin behindLoc, stop.print origin behindStart⟩, fillers.1, children.1⟩,
        children.2)

def Placed.printAll (last : String) : List Placed → List PrintedTree × String
  | [] => ([], last)
  | t :: rest =>
      let first := Placed.print last t
      let others := Placed.printAll first.2 rest
      (first.1 :: others.1, others.2)

end

end Print

mutual

/-- The tree that is read from a printed one. -/
def PrintedTree.toNode : PrintedTree → Node
  | ⟨info, loc, extent, filler, inner⟩ =>
      Printed.toNode
        ⟨info, loc, extent, PrintedTree.toNodes filler, PrintedTree.toNodes inner⟩

def PrintedTree.toNodes : List PrintedTree → List Node
  | [] => []
  | t :: rest => t.toNode :: PrintedTree.toNodes rest

end

def Place.mark (p : Place) : Mark := ⟨p.file, p.includedFrom⟩

/-- The files of a tree, node by node. -/
structure FileTree where
  here : Mark
  filler : List FileTree
  inner : List FileTree

mutual

def Node.files : Node → FileTree
  | ⟨info, filler, inner⟩ =>
      ⟨info.place.mark, Node.filesOf filler, Node.filesOf inner⟩

def Node.filesOf : List Node → List FileTree
  | [] => []
  | n :: rest => n.files :: Node.filesOf rest

end

section Truth

variable (origin : String → String)

/-- The file of a location is the one where a macro is expanded. -/
def Whereabouts.file : Whereabouts → Mark
  | .nowhere => {}
  | .plain here => ⟨here.file, origin here.file⟩
  | .expanded _ expansion => ⟨expansion.file, origin expansion.file⟩

mutual

def Placed.files : Placed → FileTree
  | ⟨_, loc, _, _, filler, inner⟩ =>
      ⟨loc.file origin, Placed.filesOf filler, Placed.filesOf inner⟩

def Placed.filesOf : List Placed → List FileTree
  | [] => []
  | t :: rest => t.files :: Placed.filesOf rest

end

end Truth

section Restored

variable {origin : String → String}

/-- The mark in force when a file was printed last; none is in force at the start. -/
def markOf (origin : String → String) (last : String) : Mark :=
  if last = "" then {} else ⟨last, origin last⟩

theorem markOf_file (p : Position) : markOf origin p.file = ⟨p.file, origin p.file⟩ :=
  if_neg p.named

theorem mark?_print (last : String) (p : Position) :
    (p.print origin last).mark? = if p.file = last then none else some (markOf origin p.file) := by
  by_cases h : p.file = last
  · simp [Position.print, Point.mark?, h]
  · simp [Position.print, Point.mark?, h, p.named, markOf_file]

/-- Printed or not, the mark of a position is in force behind it. -/
theorem getD_mark?_print (last : String) (p : Position) :
    (p.print origin last).mark?.getD (markOf origin last) = markOf origin p.file := by
  rw [mark?_print]
  by_cases h : p.file = last
  · rw [if_pos h, Option.getD_none, h]
  · rw [if_neg h, Option.getD_some]

theorem marks_nowhere (last : String) :
    ((Whereabouts.nowhere).print origin last).marks = [] := rfl

theorem marks_plain (last : String) (p : Position) :
    ((Whereabouts.plain p).print origin last).marks = (p.print origin last).mark?.toList := by
  have none : ({} : Point).mark? = none := rfl
  simp only [Whereabouts.print, Spot.marks, List.filterMap_cons, none, List.filterMap_nil]
  cases (p.print origin last).mark? <;> rfl

theorem marks_expanded (last : String) (spelling expansion : Position) :
    ((Whereabouts.expanded spelling expansion).print origin last).marks =
      (spelling.print origin last).mark?.toList ++
        (expansion.print origin spelling.file).mark?.toList := by
  have none : ({} : Point).mark? = none := rfl
  simp only [Whereabouts.print, Spot.marks, List.filterMap_cons, none, List.filterMap_nil]
  cases (spelling.print origin last).mark? <;>
    cases (expansion.print origin spelling.file).mark? <;> rfl

/-- The last of some marks, or the one before them, when the marks of a position come first. -/
theorem lastMark_append (o : Option Mark) (rest : List Mark) (before : Mark) :
    (o.toList ++ rest).getLast?.getD before = rest.getLast?.getD (o.getD before) := by
  rw [List.getLast?_append]
  cases rest.getLast? with
  | some _ => rfl
  | none => cases o <;> rfl

theorem lastMark_print (last : String) (w : Whereabouts) :
    (w.print origin last).marks.getLast?.getD (markOf origin last) =
      markOf origin (w.lastFile last) := by
  cases w with
  | nowhere => rw [marks_nowhere]; rfl
  | plain p =>
      have step := lastMark_append (p.print origin last).mark? [] (markOf origin last)
      rw [List.append_nil, getD_mark?_print] at step
      rw [marks_plain, step]
      rfl
  | expanded spelling expansion =>
      have step := lastMark_append (expansion.print origin spelling.file).mark? []
        (markOf origin spelling.file)
      rw [List.append_nil, getD_mark?_print] at step
      rw [marks_expanded, lastMark_append, getD_mark?_print, step]
      rfl

theorem fileAfter_print (last : String) (loc : Whereabouts) (extent : Extent) :
    (Place.ofPrinted (loc.print origin last) extent).fileAfter (markOf origin last) =
      markOf origin (loc.lastFile last) :=
  lastMark_print last loc

theorem fileAfterExtent_print (loc : Spot) (last : String) (start stop : Whereabouts) :
    (Place.ofPrinted loc
        ⟨start.print origin last, stop.print origin (start.lastFile last)⟩).fileAfterExtent
        (markOf origin last) =
      markOf origin (stop.lastFile (start.lastFile last)) := by
  have first : (start.print origin last).marks.getLast?.getD (markOf origin last) =
      markOf origin (start.lastFile last) :=
    lastMark_print last start
  have second : (stop.print origin (start.lastFile last)).marks.getLast?.getD
      (markOf origin (start.lastFile last)) = markOf origin (stop.lastFile (start.lastFile last)) :=
    lastMark_print (start.lastFile last) stop
  rw [Place.fileAfterExtent, Place.ofPrinted, List.getLast?_append, ← second, ← first]
  cases (stop.print origin (start.lastFile last)).marks.getLast? <;> rfl

/-- The file of a position that was printed, filled in from the mark in force if it was left
out. -/
theorem filled_print (last : String) (p : Position) {place : Place}
    (hp : place.hasPosition = true) (hf : place.file = (p.print origin last).file)
    (hi : place.includedFrom = (p.print origin last).includedFrom) :
    (place.complete (markOf origin p.file)).mark = ⟨p.file, origin p.file⟩ := by
  by_cases h : p.file = last
  · rw [Position.print, if_pos h] at hf hi
    simp [Place.mark, Place.complete, hp, hf, hi, markOf_file]
  · rw [Position.print, if_neg h] at hf hi
    simp [Place.mark, Place.complete, hp, hf, hi, p.named]

theorem offset_print (last : String) (p : Position) :
    (p.print origin last).offset = some p.offset := by
  unfold Position.print
  split <;> rfl

theorem mark_complete_print (last : String) (loc : Whereabouts) (extent : Extent) :
    ((Place.ofPrinted (loc.print origin last) extent).complete
      (markOf origin (loc.lastFile last))).mark = loc.file origin := by
  cases loc with
  | nowhere => rfl
  | plain p =>
      have main : ((Whereabouts.plain p).print origin last).main = p.print origin last := by
        simp [Whereabouts.print, Spot.main, offset_print]
      refine filled_print last p ?_ (congrArg Point.file main) (congrArg Point.includedFrom main)
      simp [Place.ofPrinted, Whereabouts.print, Spot.hasPosition, offset_print]
  | expanded spelling expansion =>
      have main : ((Whereabouts.expanded spelling expansion).print origin last).main =
          expansion.print origin spelling.file := by
        simp [Whereabouts.print, Spot.main, offset_print]
      refine filled_print spelling.file expansion ?_ (congrArg Point.file main)
        (congrArg Point.includedFrom main)
      simp [Place.ofPrinted, Whereabouts.print, Spot.hasPosition, offset_print]

mutual

/-- The induction goes over the tree in the order of printing; the mark in force is that of the
file last printed. -/
theorem completeFiles_print (last : String) :
    ∀ t : Placed,
      let done := (t.print origin last).1.toNode.completeFiles (markOf origin last)
      done.1.files = t.files origin ∧ done.2 = markOf origin (t.print origin last).2
  | ⟨info, loc, start, stop, filler, inner⟩ => by
      simp only [Placed.print, PrintedTree.toNode, Printed.toNode, Node.completeFiles,
        fileAfter_print, fileAfterExtent_print]
      obtain ⟨fillers, behindFillers⟩ :=
        completeAll_print (stop.lastFile (start.lastFile (loc.lastFile last))) filler
      rw [behindFillers]
      obtain ⟨children, behindChildren⟩ := completeAll_print
        (Placed.printAll origin (stop.lastFile (start.lastFile (loc.lastFile last))) filler).2 inner
      rw [behindChildren]
      refine ⟨?_, rfl⟩
      simp only [Node.files, Placed.files, fillers, children, mark_complete_print]

theorem completeAll_print (last : String) :
    ∀ l : List Placed,
      let done := Node.completeAll (PrintedTree.toNodes (Placed.printAll origin last l).1)
        (markOf origin last)
      Node.filesOf done.1 = Placed.filesOf origin l ∧
        done.2 = markOf origin (Placed.printAll origin last l).2
  | [] => by
      simp only [Placed.printAll, PrintedTree.toNodes, Node.completeAll, Node.filesOf,
        Placed.filesOf, and_self]
  | t :: rest => by
      obtain ⟨first, behind⟩ := completeFiles_print last t
      obtain ⟨others, behindAll⟩ := completeAll_print (t.print origin last).2 rest
      simp only [Placed.printAll, PrintedTree.toNodes, Node.completeAll, behind, behindAll]
      simp only [Node.filesOf, Placed.filesOf, first, others, and_self]

end

end Restored

/-- Whatever tree is printed with its files left out, completing what is read from the print gives
every node that stands somewhere its file and where that is included from, and the others none. -/
theorem files_restored (origin : String → String) (t : Placed) :
    ((t.print origin "").1.toNode.completeFiles {}).1.files = t.files origin :=
  (completeFiles_print "" t).1

end VFromC.Syntax
