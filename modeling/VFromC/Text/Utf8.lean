/-!
Bytes read as text when some of them may not be text: each piece that can begin no character is shown
as one replacement character.
-/
namespace VFromC.Text

/-- Shown in place of bytes that are not text. -/
def replacement : Char := Char.ofNat 0xFFFD

/-- A character of which some bytes have been read. -/
structure Started where
  /-- How many bytes are still to come, less one. -/
  more : Nat
  /-- The bits of the bytes read so far. -/
  bits : Nat
  low : Nat := 0x80
  high : Nat := 0xBF
deriving DecidableEq, Repr

/-- The first byte of a character: what can be shown at once and what has begun. -/
def firstByte (b : Nat) : List Char × Option Started :=
  if b < 0x80 then ([Char.ofNat b], none)
  else if 0xC2 ≤ b ∧ b ≤ 0xDF then ([], some { more := 0, bits := b - 0xC0 })
  else if b = 0xE0 then ([], some { more := 1, bits := 0, low := 0xA0 })
  else if b = 0xED then ([], some { more := 1, bits := 0xD, high := 0x9F })
  else if 0xE1 ≤ b ∧ b ≤ 0xEF then ([], some { more := 1, bits := b - 0xE0 })
  else if b = 0xF0 then ([], some { more := 2, bits := 0, low := 0x90 })
  else if 0xF1 ≤ b ∧ b ≤ 0xF3 then ([], some { more := 2, bits := b - 0xF0 })
  else if b = 0xF4 then ([], some { more := 2, bits := 4, high := 0x8F })
  else ([replacement], none)

/-- A byte after the first one. One that cannot continue the character begins another. -/
def Started.next (s : Started) (b : Nat) : List Char × Option Started :=
  if s.low ≤ b ∧ b ≤ s.high then
    let bits := s.bits * 64 + (b - 0x80)
    match s.more with
    | 0 => ([Char.ofNat bits], none)
    | more + 1 => ([], some { more, bits })
  else
    let begun := firstByte b
    (replacement :: begun.1, begun.2)

def nextByte : Option Started → Nat → List Char × Option Started
  | none, b => firstByte b
  | some s, b => s.next b

/-- The characters of the bytes, read after `state`. -/
def showBytesFrom : Option Started → List UInt8 → List Char
  | none, [] => []
  | some _, [] => [replacement]
  | state, b :: rest =>
      let step := nextByte state b.toNat
      step.1 ++ showBytesFrom step.2 rest

def showBytes (bytes : ByteArray) : String :=
  String.ofList (showBytesFrom none bytes.toList)

end VFromC.Text
