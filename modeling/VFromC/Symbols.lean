import VFromC.Journal
import VFromC.Spelling.Convert
/-!
The symbols that a run has declared so far. One table serves all units of a run, and the first
declaration of a name wins.
-/
namespace VFromC
open VFromC.Spelling

/-- Puts `value` at `key`: an entry that is there keeps its place, a new one comes last. -/
def putEntry {α : Type} (key : String) (value : α) : List (String × α) → List (String × α)
  | [] => [(key, value)]
  | (k, v) :: rest => if k = key then (key, value) :: rest else (k, v) :: putEntry key value rest

def insertName (name : String) (names : List String) : List String :=
  if names.contains name then names else names ++ [name]

structure Global where
  name : String
  type : String
  isExtern : Bool
deriving DecidableEq, Repr

/-- What is to be done with one more declaration of a global. -/
inductive Verdict where
  /-- It is the first one, or it completes one without storage. -/
  | emit
  /-- A definition of the same type is already there. -/
  | duplicate
deriving DecidableEq, Repr

structure Symbols where
  types : List String := []
  enums : List String := []
  functions : List String := []
  consts : List String := []
  /-- Enumerations with their members, in order of declaration. -/
  members : List (String × List String) := []
  globals : List (String × Global) := []
  /-- Text of each global that goes to the file shared by a directory. -/
  globalTexts : List (String × String) := []
  usesFile : Bool := false
deriving DecidableEq, Repr

namespace Symbols

def hasType (t : Symbols) (name : String) : Bool := t.types.contains name

def hasEnum (t : Symbols) (name : String) : Bool := t.enums.contains name

def hasFunction (t : Symbols) (name : String) : Bool := t.functions.contains name

def hasConst (t : Symbols) (name : String) : Bool := t.consts.contains name

def hasGlobal (t : Symbols) (name : String) : Bool := (t.globals.lookup name).isSome

def addType (t : Symbols) (name : String) : Symbols := { t with types := insertName name t.types }

def addFunction (t : Symbols) (name : String) : Symbols :=
  { t with functions := insertName name t.functions }

def addConst (t : Symbols) (name : String) : Symbols :=
  { t with consts := insertName name t.consts }

/-- Members given to an enumeration that is there already join its members. -/
def addEnum (t : Symbols) (name : String) (members : List String) : Symbols :=
  { t with
    enums := insertName name t.enums
    members :=
      putEntry name (members.foldl (fun ms m => insertName m ms) ((t.members.lookup name).getD []))
        t.members }

/-- The enumeration that a member belongs to; the first one that has it wins. -/
def enumOf (t : Symbols) (member : String) : Option String :=
  (t.members.find? fun entry => entry.2.contains member).map Prod.fst

def addGlobal (t : Symbols) (g : Global) : Symbols :=
  { t with globals := putEntry g.name g t.globals }

/-- Judges a declaration of `name` by the earlier ones. -/
def checkGlobal (t : Symbols) (name type : String) : Except Fault Verdict :=
  match t.globals.lookup name with
  | none => .ok .emit
  | some g =>
      if !sameType g.type type then .error (.conflictingGlobal name g.type type)
      else if g.isExtern then .ok .emit
      else .ok .duplicate

def setGlobalText (t : Symbols) (name text : String) : Symbols :=
  { t with globalTexts := putEntry name text t.globalTexts }

def addTexts (t : Symbols) (texts : List (String × String)) : Symbols :=
  texts.foldl (fun t entry => t.setGlobalText entry.1 entry.2) t

def markFile (t : Symbols) : Symbols := { t with usesFile := true }

end Symbols

theorem lookup_putEntry {α : Type} (key k : String) (value : α) (table : List (String × α)) :
    (putEntry key value table).lookup k = if k = key then some value else table.lookup k := by
  induction table with
  | nil => by_cases h : k = key <;> simp [putEntry, List.lookup_cons, h, beq_false_of_ne]
  | cons entry rest ih =>
      obtain ⟨a, b⟩ := entry
      simp only [putEntry]
      by_cases ha : a = key
      · subst ha
        by_cases h : k = a <;> simp [List.lookup_cons, h, beq_false_of_ne]
      · by_cases h : k = a
        · subst h
          simp [ha]
        · simp only [if_neg ha, List.lookup_cons, beq_false_of_ne h, ih]

theorem mem_insertName {a name : String} {names : List String} :
    a ∈ insertName name names ↔ a = name ∨ a ∈ names := by
  unfold insertName
  split
  · rename_i h
    have : name ∈ names := by simpa using h
    constructor
    · exact Or.inr
    · rintro (rfl | h)
      · exact this
      · exact h
  · simp [or_comm]

end VFromC
