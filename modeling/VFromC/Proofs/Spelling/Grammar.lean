import VFromC.Spelling.Convert
/-!
C types as they are printed by a front end, and the types that stand for them.
-/
namespace VFromC.Spelling
open VFromC.Text

/-- Letters, digits and underscores. -/
def isNameChar (c : Char) : Bool := c.isAlphanum || c == '_'

inductive Qualifier where
  | const
  | volatile
deriving DecidableEq, Repr

def Qualifier.word : Qualifier → List Char
  | .const => "const".toList
  | .volatile => "volatile".toList

inductive RecordWord where
  | struct
  | union
deriving DecidableEq, Repr

def RecordWord.word : RecordWord → List Char
  | .struct => "struct".toList
  | .union => "union".toList

def qualifierWords : List (List Char) := ["const".toList, "volatile".toList, "static".toList]

/-- The words that are looked for with a blank behind them. A name that ends in one of them is taken
apart. -/
def droppedWords : List (List Char) := qualifierWords ++ ["struct".toList, "union".toList]

/-- The words that mean something at the start of a type. -/
def leadWords : List String := ["enum", "signed", "func"]

/-- Names that are read as names: not those with a word in them that means something else. -/
def isTypeName (s : List Char) : Bool :=
  s.all isNameChar && s.any (· ≠ '_') && !leadWords.contains (String.ofList s) &&
    !contains "__va_list_tag".toList s && droppedWords.all fun w => !endsWith w s

structure TypeName where
  chars : List Char
  isName : isTypeName chars = true

/-- The spellings of the table of base types but for the one with a bracket in it. -/
def primitiveSpellings : List String :=
  (targetPrimitives ++ primitiveTable.map Prod.fst).filter (· ≠ "bool (int)")

inductive Base where
  | primitive (p : String) (listed : p ∈ primitiveSpellings)
  | named (record : Option RecordWord) (name : TypeName)

namespace Base

def name : Base → List Char
  | .primitive p _ => p.toList
  | .named _ name => name.chars

def text : Base → List Char
  | .named (some record) name => record.word ++ ' ' :: name.chars
  | base => base.name

end Base

structure Dimension where
  digits : List Char
  isNumber : digits.all Char.isDigit = true

def Dimension.text (d : Dimension) : List Char := '[' :: d.digits ++ [']']

/-- What follows the base: stars, perhaps with `const` behind the last one or with dimensions. -/
inductive Ending where
  | stars (count : Nat)
  /-- One star more than `more`. -/
  | constStars (more : Nat)
  | array (count : Nat) (first : Dimension) (rest : List Dimension)

namespace Ending

def count : Ending → Nat
  | .stars count => count
  | .constStars more => more + 1
  | .array count _ _ => count

def dims : Ending → List Char
  | .array _ first rest => (first :: rest).flatMap Dimension.text
  | _ => []

def isArray : Ending → Bool
  | .array .. => true
  | _ => false

/-- The ending without `const`. -/
def text (e : Ending) : List Char :=
  if e.count = 0 ∧ e.isArray = false then []
  else ' ' :: (List.replicate e.count '*' ++ e.dims)

def final : Ending → List Char
  | .constStars _ => "const".toList
  | _ => []

end Ending

/-- A type that is no function, without its leading qualifiers. -/
inductive Shape where
  | object (base : Base) (ending : Ending)
  | enumeration (name : TypeName)

namespace Shape

/-- The text without a final `const`. -/
def core : Shape → List Char
  | .object base ending => base.text ++ ending.text
  | .enumeration name => "enum ".toList ++ name.chars

def text : Shape → List Char
  | .object base ending => base.text ++ ending.text ++ ending.final
  | .enumeration name => "enum ".toList ++ name.chars

def isArray : Shape → Bool
  | .object _ ending => ending.isArray
  | .enumeration _ => false

end Shape

inductive CType where
  | simple (quals : List Qualifier) (shape : Shape)
  /-- A pointer to a function with a result that is no array. Behind a star, a blank before the
  bracket may be left out. -/
  | function (quals : List Qualifier) (shape : Shape) (noArray : shape.isArray = false)
      (spaced : Bool) (params : List CType) (variadic : Bool)

/-- A qualifier with the blank behind it, which may be left out. -/
def qualText (keep : Qualifier → Bool) (q : Qualifier) : List Char :=
  if keep q then q.word ++ [' '] else []

/-- What stands between the result and the bracket of a function pointer. -/
def gapText (keep : Qualifier → Bool) (spaced : Bool) : Shape → List Char
  | .object _ (.stars (_ + 1)) => if spaced then [' '] else []
  | .object _ (.constStars _) => qualText keep .const
  | _ => [' ']

def dots (variadic : Bool) : List (List Char) := if variadic then ["...".toList] else []

mutual

/-- A type as it is printed. Qualifiers with a blank behind them may be left out. -/
def CType.print (keep : Qualifier → Bool) : CType → List Char
  | .simple quals shape => quals.flatMap (qualText keep) ++ shape.text
  | .function quals shape _ spaced params variadic =>
      quals.flatMap (qualText keep) ++ (shape.core ++ (gapText keep spaced shape ++
        ("(*)(".toList ++ (joined ", ".toList (printAll keep params ++ dots variadic) ++
          ")".toList))))

def printAll (keep : Qualifier → Bool) : List CType → List (List Char)
  | [] => []
  | t :: rest => t.print keep :: printAll keep rest

end

/-- Each star is a sign before the type, but one star on `void` is in its name. -/
def pointing : Nat → List Char → List Char
  | 0, s => s
  | more + 1, s =>
      if s = "void".toList then List.replicate more '&' ++ "voidptr".toList
      else List.replicate (more + 1) '&' ++ s

/-- A base with its stars and dimensions, as the rules have it in general. -/
def declaredAs (base : Base) (ending : Ending) : List Char :=
  ending.dims ++ pointing ending.count (baseText base.name)

/-- Texts are pointers to bytes. -/
def isTextArray (base : Base) (ending : Ending) : Bool :=
  base.text = "char".toList && ending.count = 2 && !ending.isArray

def Shape.meaning : Shape → List Char
  | .object base ending =>
      if isTextArray base ending then "&&u8".toList else declaredAs base ending
  | .enumeration name => capitalizeFirst name.chars

def CType.isVoid : CType → Bool
  | .simple _ (.object base (.stars 0)) => base.text = "void".toList
  | _ => false

/-- The parameter `void` alone means that there is none. -/
def isNoParameter : List CType → Bool → Bool
  | [t], false => t.isVoid
  | _, _ => false

/-- A function type of the output; a result of `void` is not written. -/
def functionAs (params : List (List Char)) (result : List Char) : List Char :=
  "func (".toList ++ joined ", ".toList params ++ ")".toList ++
    if result = "void".toList then [] else ' ' :: result

mutual

/-- The type of the output that stands for a C type. -/
def CType.meaning : CType → List Char
  | .simple _ shape => shape.meaning
  | .function _ shape _ _ params variadic =>
      functionAs (if isNoParameter params variadic then [] else meaningAll params ++ dots variadic)
        shape.meaning

def meaningAll : List CType → List (List Char)
  | [] => []
  | t :: rest => t.meaning :: meaningAll rest

end

def CType.spelling (t : CType) : String := String.ofList (t.print fun _ => true)

end VFromC.Spelling
