import VFromC.Text.Search
import VFromC.Syntax.Node
/-!
Literals.
-/
namespace VFromC.Emit
open VFromC.Syntax VFromC.Text

/-- The low byte of a code in two hexadecimal digits. -/
def byteEscape (code : Int) : String :=
  let byte := (code % 256).toNat
  String.ofList ['\\', 'x', Nat.digitChar (byte / 16), Nat.digitChar (byte % 16)]

/-- The character of a code above ASCII. -/
def wideChar? (code : Int) : Option Char :=
  if 127 < code ∧ code.toNat.isValidChar then some (Char.ofNat code.toNat) else none

/-- What stands between the backticks of a character literal. -/
def runeBody (code : Int) : String :=
  if code = 0 then "\\0"
  else if code = 7 then "\\a"
  else if code = 8 then "\\b"
  else if code = 9 then "\\t"
  else if code = 10 then "\\n"
  else if code = 11 then "\\v"
  else if code = 12 then "\\f"
  else if code = 13 then "\\r"
  else if code = 92 then "\\\\"
  else if code = 96 then "\\`"
  else if 32 ≤ code ∧ code ≤ 126 then String.ofList [Char.ofNat code.toNat]
  else
    match wideChar? code with
    | some c => String.ofList [c]
    | none => byteEscape code

def runeLiteral (code : Int) : String := "`" ++ runeBody code ++ "`"

/-- The code of a character literal, zero if it is no number. -/
def runeCode (n : Node) : Int :=
  match n.info.value with
  | some (.int code) => code
  | _ => (readInteger? n.valueText.toList).getD 0

def unquoted (s : String) : String :=
  match s.toList with
  | '"' :: r =>
      match r.getLast? with
      | some '"' => String.ofList r.dropLast
      | _ => s
  | _ => s

def stringLiteral (s : String) : String := "c\"" ++ unquoted s ++ "\""

end VFromC.Emit
