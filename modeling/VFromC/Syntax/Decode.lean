import VFromC.Json.Record
import VFromC.Syntax.Node
/-!
Reading syntax trees from the JSON text that a front end prints.
-/
namespace VFromC.Syntax
open VFromC.Json

/-- Brackets and braces may be nested this deep. -/
def maxLevels : Nat := 127

def fileFields : List (FieldReader String) := [.of "file" readText fun _ s => s]

def readFile (levels : Nat) : Doc → Except Flaw String := readRecord levels (fun _ => fileFields) ""

def pointFields (levels : Nat) : List (FieldReader Point) := [
  .of "offset" (readOptional readNat) fun p n => { p with offset := n },
  .of "file" readText fun p s => { p with file := s },
  .of "line" readNat fun p n => { p with line := n },
  .of "includedFrom" (readFile levels) fun p s => { p with includedFrom := s }]

def readPoint (levels : Nat) : Doc → Except Flaw Point := readRecord levels pointFields {}

/-- A field of the plain location as a field of the whole. -/
def plainField (field : FieldReader Point) : FieldReader Spot :=
  ⟨field.key, fun doc s => (field.store doc s.plain).map fun p => { s with plain := p }⟩

def spotFields (levels : Nat) : List (FieldReader Spot) :=
  (pointFields levels).map plainField ++ [
    .of "spellingLoc" (readPoint levels) fun s p => { s with spelling := p },
    .of "expansionLoc" (readPoint levels) fun s p => { s with expansion := p }]

def readSpot (levels : Nat) : Doc → Except Flaw Spot := readRecord levels spotFields {}

def extentFields (levels : Nat) : List (FieldReader Extent) := [
  .of "begin" (readSpot levels) fun e s => { e with start := s },
  .of "end" (readSpot levels) fun e s => { e with stop := s }]

def readExtent (levels : Nat) : Doc → Except Flaw Extent := readRecord levels extentFields {}

def typeFields : List (FieldReader TypeText) := [
  .of "qualType" readText fun t s => { t with spelling := s },
  .of "desugaredQualType" readText fun t s => { t with canonical := s }]

def readType (levels : Nat) : Doc → Except Flaw TypeText :=
  readRecord levels (fun _ => typeFields) {}

def referenceFields : List (FieldReader Reference) := [
  .of "id" readText fun r s => { r with id := s },
  .of "kind" readText fun r s => { r with kind := Kind.ofWord s },
  .of "name" readText fun r s => { r with name := s }]

def readReference (levels : Nat) : Doc → Except Flaw Reference :=
  readRecord levels (fun _ => referenceFields) {}

/-- A literal is a word, a 64-bit integer or a text. Anything else is read to its end before it is
refused. -/
def readLiteral (levels : Nat) : Doc → Except Flaw Literal
  | .bool b => .ok (.bool b)
  | .number (.natural n) => if n ≤ maxI64 then .ok (.int n) else .error .mistyped
  | .number (.negative n) => .ok (.int (-n))
  | .text (some s) => .ok (.text s)
  | doc => .error ((readFlaw? levels doc).getD .mistyped)

/-- A node as it is printed, before its location is flattened. -/
structure Printed where
  info : Info := {}
  loc : Spot := {}
  extent : Extent := {}
  filler : List Node := []
  inner : List Node := []

def Printed.toNode (p : Printed) : Node :=
  ⟨{ p.info with kind := Kind.ofWord p.info.kindWord, place := Place.ofPrinted p.loc p.extent },
    p.filler, p.inner⟩

/-- A field that belongs to the node itself. -/
def infoField {α : Type} (key : String) (read : Doc → Except Flaw α) (set : Info → α → Info) :
    FieldReader Printed :=
  .of key read fun p a => { p with info := set p.info a }

def nodeFields (levels : Nat) (child : Doc → Except Flaw Node) : List (FieldReader Printed) := [
  infoField "id" readText fun i s => { i with id := s },
  infoField "kind" readText fun i s => { i with kindWord := s },
  .of "loc" (readSpot levels) fun p s => { p with loc := s },
  .of "range" (readExtent levels) fun p e => { p with extent := e },
  infoField "previousDecl" (readOptional readText) fun i s => { i with previousDecl := s },
  infoField "name" readText fun i s => { i with name := s },
  infoField "type" (readType levels) fun i t => { i with type := t },
  infoField "storageClass" readText fun i s => { i with storageClass := s },
  infoField "tagUsed" readText fun i s => { i with tagUsed := s },
  infoField "init" readText fun i s => { i with init := s },
  infoField "value" (readOptional (readLiteral levels)) fun i v => { i with value := v },
  infoField "opcode" readText fun i s => { i with opcode := s },
  infoField "argType" (readType levels) fun i t => { i with argType := t },
  .of "array_filler" (readList levels child) fun p l => { p with filler := l },
  infoField "declId" readText fun i s => { i with declId := s },
  infoField "targetLabelDeclId" readText fun i s => { i with targetLabelId := s },
  infoField "isPostfix" readBool fun i b => { i with isPostfix := b },
  infoField "isArrow" readBool fun i b => { i with isArrow := b },
  .of "inner" (readList levels child) fun p l => { p with inner := l },
  infoField "referencedDecl" (readOptional (readReference levels)) fun i r =>
    { i with reference := r }]

/-- A node, in which `levels` brackets and braces may be nested. -/
def readNode : Nat → Doc → Except Flaw Node
  | 0, doc => .error (tooDeep doc)
  | 1, doc => (storeRecord (nodeFields 0 fun d => .error (tooDeep d)) {} doc).map Printed.toNode
  | levels + 2, doc =>
      (storeRecord (nodeFields (levels + 1) (readNode levels)) {} doc).map Printed.toNode

def parseUnit (text : String) : Except Flaw Node := do
  let (doc, rest) := readDoc text.toList
  let node ← readNode maxLevels doc
  if skipBlank rest = [] then .ok node else .error .malformed

end VFromC.Syntax
