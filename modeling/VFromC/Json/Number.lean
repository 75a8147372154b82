/-!
Numbers of JSON texts.

Integers that fit into 64 bits are exact. All others stand for doubles, of which only one thing
matters here: whether the value is too large for a double. A value is formed as a significand of at
most 64 bits times a power of ten, both rounded to 53 bits before they are multiplied.
-/
namespace VFromC.Json

/-- What is wrong with a text: it breaks the grammar, it has a value of the wrong type, or it ends
too early. -/
inductive Flaw where
  | malformed
  | mistyped
  | truncated
deriving DecidableEq, Repr

/-- What a reader meets where the text breaks: one flaw for a reader that needs the value, one for
a reader that skips it. -/
structure Break where
  used : Flaw
  skipped : Flaw
deriving DecidableEq, Repr

def Break.both (flaw : Flaw) : Break := ⟨flaw, flaw⟩

inductive Number where
  /-- A natural number below 2^64. -/
  | natural (n : Nat)
  /-- The negative of `n`, at most 2^63 and not zero. -/
  | negative (n : Nat)
  /-- A number that is a double. -/
  | real
  /-- A number too large for a double. -/
  | tooLarge
deriving DecidableEq, Repr

/-- `n` rounded to 53 significant bits, ties to even. -/
def round53 (n : Nat) : Nat :=
  if n < 0x20000000000000 then n
  else
    let unit := Nat.pow 2 (Nat.log2 n - 52)
    let low := n / unit
    let rest := 2 * (n % unit)
    if rest > unit ∨ (rest = unit ∧ low % 2 = 1) then (low + 1) * unit else low * unit

/-- The product of two doubles is infinite from here on. -/
def infiniteFrom : Nat := Nat.pow 2 1024 - Nat.pow 2 970

/-- Whether `significand * 10 ^ exponent` has no finite double. -/
def overflows (significand : Nat) (exponent : Int) : Bool :=
  significand ≠ 0 &&
    match exponent with
    | .ofNat e => e > 308 || round53 significand * round53 (Nat.pow 10 e) ≥ infiniteFrom
    | .negSucc _ => false

def ofParts (significand : Nat) (exponent : Int) : Number :=
  if overflows significand exponent then .tooLarge else .real

def isDigit (c : Char) : Bool := '0' ≤ c && c ≤ '9'

def digitValue (c : Char) : Nat := c.toNat - 48

def maxU64 : Nat := 0xFFFFFFFFFFFFFFFF

def maxI64 : Nat := 0x7FFFFFFFFFFFFFFF

def maxI32 : Nat := 0x7FFFFFFF

/-- Adds digits to a significand as long as it fits into 64 bits; gives the digits left over. -/
def gather (significand : Nat) : List Char → Nat × List Char
  | [] => (significand, [])
  | d :: ds =>
      if significand * 10 + digitValue d > maxU64 then (significand, d :: ds)
      else gather (significand * 10 + digitValue d) ds

inductive Scan (α : Type) where
  | done (value : α) (rest : List Char)
  | broken (b : Break)

/-- Reads the digits of an exponent, of which at least one must be there. `significand` and
`start` are the number so far. -/
def scanExponent (significand : Nat) (start : Int) (s : List Char) : Scan Number :=
  let minus := s.head? = some '-'
  let s := if minus ∨ s.head? = some '+' then s.drop 1 else s
  match s with
  | [] => .broken ⟨.truncated, .malformed⟩
  | c :: _ =>
      if !isDigit c then .broken (.both .malformed)
      else
        let exp := (s.takeWhile isDigit).foldl (fun n d => n * 10 + digitValue d) 0
        let rest := s.dropWhile isDigit
        if exp > maxI32 then
          .done (if significand ≠ 0 ∧ !minus then .tooLarge else .real) rest
        else .done (ofParts significand (if minus then start - exp else start + exp)) rest

def scanAfterFraction (significand : Nat) (exponent : Int) (s : List Char) : Scan Number :=
  match s with
  | 'e' :: r | 'E' :: r => scanExponent significand exponent r
  | _ => .done (ofParts significand exponent) s

def scanFraction (significand : Nat) (exponent : Int) (s : List Char) : Scan Number :=
  let digits := s.takeWhile isDigit
  let rest := s.dropWhile isDigit
  if digits = [] then
    .broken ⟨if rest = [] then .truncated else .malformed, .malformed⟩
  else
    let (sum, left) := gather significand digits
    scanAfterFraction sum (exponent - (digits.length - left.length : Nat)) rest

def wholeNumber (minus : Bool) (significand : Nat) : Number :=
  if !minus then .natural significand
  else if significand = 0 ∨ significand > maxI64 + 1 then .real
  else .negative significand

/-- Reads a number; `minus` tells whether a sign was read before it. -/
def scanNumber (minus : Bool) (s : List Char) : Scan Number :=
  match s with
  | [] => .broken ⟨.truncated, .malformed⟩
  | c :: r =>
      if !isDigit c then .broken (.both .malformed)
      else if c = '0' ∧ (r.head?.map isDigit).getD false then .broken (.both .malformed)
      else
        let digits := s.takeWhile isDigit
        let rest := s.dropWhile isDigit
        let (sum, left) := gather 0 digits
        match rest with
        | '.' :: r => scanFraction sum left.length r
        | 'e' :: r | 'E' :: r => scanExponent sum left.length r
        | _ =>
            if left = [] then .done (wholeNumber minus sum) rest
            else .done (ofParts sum left.length) rest

end VFromC.Json
