import VFromC.Journal
import VFromC.Output.Page
import VFromC.Output.Labels
import VFromC.Syntax.Node
/-!
Commands: the output of a unit as data, carried out on a draft.
-/
namespace VFromC.Output
open VFromC.Syntax

/-- As what a name is declared. -/
inductive Role where
  | global
  | function
  | parameter
  /-- A member of an enumeration without a name. -/
  | constant
  /-- A variable inside of a function. -/
  | inner
deriving DecidableEq, Repr

/-- How the declaration of a type starts. A record or an alias has its name in C, an enumeration the
one that it gets. -/
inductive Heading where
  | record (isUnion : Bool) (tag : String)
  | aliased (name target : String)
  | enum (name : String)
deriving DecidableEq, Repr

/-- The name of the type that is declared. -/
def Heading.name : Heading → String
  | .record _ tag => Ident.typeName tag
  | .aliased name _ => Ident.typeName name
  | .enum name => name

def Heading.text (h : Heading) : String :=
  match h with
  | .record isUnion _ => (if isUnion then "union " else "struct ") ++ h.name ++ " \x7b"
  | .aliased _ target => "type " ++ h.name ++ " = " ++ target
  | .enum _ => "enum " ++ h.name ++ " \x7b"

inductive Command where
  /-- Adds text to the pending line. -/
  | write (s : String)
  /-- Adds text and ends the line. -/
  | line (s : String)
  /-- Adds the start of the declaration of a type and ends the line. -/
  | head (h : Heading)
  | endLine
  | deeper
  | shallower
  /-- Adds the name of a declaration, where it is declared. -/
  | declare (role : Role) (what : Reference) (s : String)
  /-- Adds the name of a declaration, where it is referred to. -/
  | refer (what : Reference) (s : String)
  /-- Names a label. -/
  | label (id name : String)
  /-- Writes a jump on a line of its own. -/
  | jump (id : String)
  | note (e : Entry)
  /-- Remembers the place reached in the text. -/
  | mark
  /-- Moves what was written since the place last remembered to the texts of globals. -/
  | take (name : String)
deriving DecidableEq, Repr

/-- What a unit has produced so far. -/
structure Draft where
  page : Page := {}
  labels : Labels := {}
  journal : Journal := []
  /-- The place last remembered. -/
  place : Nat := 0
  /-- The globals whose text was moved away, each with that text, in order. -/
  taken : List (String × String) := []
deriving DecidableEq, Repr

def Draft.apply (d : Draft) : Command → Draft
  | .write s => { d with page := d.page.write s }
  | .line s => { d with page := d.page.writeLine s }
  | .head h => { d with page := d.page.writeLine h.text }
  | .endLine => { d with page := d.page.endLine }
  | .deeper => { d with page := d.page.deeper }
  | .shallower => { d with page := d.page.shallower }
  | .declare _ _ s => { d with page := d.page.write s }
  | .refer _ s => { d with page := d.page.write s }
  | .label id name =>
      { d with
        labels := d.labels.define id name
        journal := d.journal ++ [debug s!"label {name} defined with id {id}"] }
  | .jump id =>
      { d with
        page := d.page.writeLine s!"goto {(d.labels.target id).1}"
        labels := (d.labels.target id).2 }
  | .note e => { d with journal := d.journal ++ [e] }
  | .mark => { d with page := d.page.mark.2, place := d.page.mark.1 }
  | .take name =>
      { d with
        page := (d.page.takeFrom d.place).2
        taken := d.taken ++ [(name, (d.page.takeFrom d.place).1)] }

def Draft.run (d : Draft) (commands : List Command) : Draft := commands.foldl Draft.apply d

/-- The complete text with every jump resolved. -/
def Draft.finish (d : Draft) : Except Fault String := d.labels.resolve d.page.finish

theorem Draft.run_append (d : Draft) (c₁ c₂ : List Command) :
    d.run (c₁ ++ c₂) = (d.run c₁).run c₂ := by
  simp [Draft.run]

end VFromC.Output
