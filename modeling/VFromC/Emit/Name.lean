import VFromC.Emit.Script
/-!
References to declarations.
-/
namespace VFromC.Emit
open VFromC.Syntax VFromC.Output

/-- A member of an enumeration, written after its owner unless the switch around is about that
enumeration. In an index it is converted to a number. -/
def memberText (symbols : Symbols) (ctx : Context) (name : String) : String :=
  let member := Ident.spellMember name
  let qualified :=
    match symbols.enumOf member with
    | none => member
    | some owner =>
        if !ctx.inIndex && ctx.switchEnum = some owner then "." ++ member
        else owner ++ "." ++ member
  if ctx.inIndex then "int(" ++ qualified ++ ")" else qualified

/-- Constants and globals keep their letters, all other names are written small. -/
def variableText (symbols : Symbols) (name : String) : String :=
  if symbols.hasConst name || symbols.hasGlobal (Ident.spell name) then Ident.spell name
  else Ident.spell (Text.lowered name)

def referenceText (symbols : Symbols) (ctx : Context) (ref : Reference) : String :=
  if ref.kind = .enumConstantDecl then memberText symbols ctx ref.name
  else variableText symbols ref.name

def reference (n : Node) : Script Unit :=
  match n.info.reference with
  | none => Script.write (Ident.spell n.name)
  | some ref => do
      Script.command (.refer ref (referenceText (← Script.symbols) (← Script.context) ref))

/-- The name of a field without the arrow or dot that may stand before it. -/
def fieldName (name : String) : String := Text.withoutCopies "." (Text.withoutCopies "->" name)

def memberAccess (em : Emitter) (n : Node) : Script Unit := do
  let base ← childAt n 0 "base"
  em.value base
  Script.when (fieldName n.name ≠ "") (Script.write s!".{Ident.spell (fieldName n.name)}")

/-- A variable of an enumeration type is converted to a number when it is an index. -/
def isEnumVariable (symbols : Symbols) (n : Node) : Bool :=
  n.kind = .declRefExpr && !n.refersTo .enumConstantDecl &&
    (Text.begins "enum " n.spelling || symbols.hasEnum (Spelling.typeOf n.spelling))

/-- What is between the brackets of a subscript. -/
def Surroundings.index : Surroundings where
  enter c := { c with inIndex := true }
  leave before c := { c with inIndex := before.inIndex }
  leave_enter _ := rfl

def arraySubscript (em : Emitter) (n : Node) : Script Unit := do
  let base ← childAt n 0 "base"
  let index ← childAt n 1 "index"
  em.value base
  Script.write "["
  let isEnum := isEnumVariable (← Script.symbols) index.bare
  Script.within .index do
    Script.when isEnum (Script.write "int(")
    em.value index
    Script.when isEnum (Script.write ")")
  Script.write "]"

end VFromC.Emit
