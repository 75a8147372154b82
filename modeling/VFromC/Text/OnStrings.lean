import VFromC.Text.CaseTable
import VFromC.Text.Search
/-!
Small and capital letters, and the text operations on strings, each through the characters of the
string.

The maps between small and capital letters are the full ones: one character may become several, and
a capital sigma at the end of a word becomes the final small sigma.
-/
namespace VFromC.Text

def CaseRow.covers (row : CaseRow) (code : Nat) : Bool :=
  row.first ≤ code && code ≤ row.last && (code - row.first) % row.step == 0

/-- The code point that the first row covering `code` leads to, or `code` itself. -/
def shiftCase (rows : List CaseRow) (code : Nat) : Nat :=
  match rows.find? (·.covers code) with
  | some row => (Int.ofNat code + row.shift).toNat
  | none => code

def inRanges (ranges : List (Nat × Nat)) (c : Char) : Bool :=
  ranges.any fun (first, last) => first ≤ c.toNat && c.toNat ≤ last

def isCased (c : Char) : Bool := inRanges casedRanges c

def isCaseIgnorable (c : Char) : Bool := inRanges caseIgnorableRanges c

/-- The small form of one character, its neighbours left aside. -/
def smallForm (c : Char) : List Char :=
  if c.toNat < 0x80 then [c.toLower]
  else if c.toNat = 0x130 then ['i', Char.ofNat 0x307]
  else [Char.ofNat (shiftCase smallRows c.toNat)]

def capitalForm (c : Char) : List Char :=
  if c.toNat < 0x80 then [c.toUpper]
  else
    match wideCapitals.lookup c.toNat with
    | some codes => codes.map Char.ofNat
    | none => [Char.ofNat (shiftCase capitalRows c.toNat)]

/-- A letter follows, with nothing but ignorable characters before it. -/
def letterFollows (s : List Char) : Bool :=
  match s.dropWhile isCaseIgnorable with
  | c :: _ => isCased c
  | [] => false

/-- Lowers what comes next; `before` holds the characters already passed, the nearest first. -/
def lowerAfter (before : List Char) : List Char → List Char
  | [] => []
  | c :: rest =>
      let small :=
        if c.toNat = 0x3A3 then
          if letterFollows before && !letterFollows rest then [Char.ofNat 0x3C2]
          else [Char.ofNat 0x3C3]
        else smallForm c
      small ++ lowerAfter (c :: before) rest

def lower (s : List Char) : List Char := lowerAfter [] s

def capitalizeFirst : List Char → List Char
  | [] => []
  | c :: rest => capitalForm c ++ rest

def trimmed (s : String) : String := String.ofList (trim s.toList)

def trimmedEnd (s : String) : String := String.ofList (trimEnd s.toList)

def occursIn (pat s : String) : Bool := contains pat.toList s.toList

def begins (pat s : String) : Bool := startsWith pat.toList s.toList

def ends (pat s : String) : Bool := endsWith pat.toList s.toList

def replaced (pat new s : String) : String :=
  String.ofList (replaceAll pat.toList new.toList s.toList)

def lowered (s : String) : String := String.ofList (lower s.toList)

/-- `s` without the leading copies of `pat`. -/
def withoutCopies (pat s : String) : String := String.ofList (dropCopies pat.toList s.toList)

theorem toList_trimmed (s : String) : (trimmed s).toList = trim s.toList := by
  simp [trimmed]

end VFromC.Text
