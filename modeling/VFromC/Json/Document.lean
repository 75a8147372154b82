import VFromC.Json.Quoted
/-!
JSON texts as trees.

Reading never fails: where the text breaks, the tree says so at that place. A decoder that walks
the tree in order therefore meets the first problem of the text first, whether the text is broken
there or has a value of the wrong type.
-/
namespace VFromC.Json

/-- What follows the last item of a list. -/
inductive Ending where
  | closed
  /-- The text breaks after the item. -/
  | afterItem (flaw : Flaw)
  /-- The text breaks after the comma that announces one more item. -/
  | afterComma (flaw : Flaw)
deriving DecidableEq, Repr

inductive Doc where
  | null
  | bool (b : Bool)
  | number (n : Number)
  /-- A text, which is missing when it holds half a surrogate pair. -/
  | text (s : Option String)
  | list (items : List Doc) (ending : Ending)
  /-- Members by key, in order; a key is missing as a text is. The text may break before the next
  key. -/
  | record (members : List (Option String × Doc)) (ending : Option Break)
  | broken (b : Break)

def skipBlank (s : List Char) : List Char :=
  s.dropWhile fun c => c == ' ' || c == '\n' || c == '\t' || c == '\r'

def scanWord (value : Doc) : List Char → List Char → Doc × List Char
  | [], s => (value, s)
  | _ :: _, [] => (.broken (.both .truncated), [])
  | w :: word, c :: s =>
      if w = c then scanWord value word s else (.broken (.both .malformed), [])

def ofNumber : Scan Number → Doc × List Char
  | .done n rest => (.number n, rest)
  | .broken b => (.broken b, [])

def ofQuoted : Scan (Option String) → Doc × List Char
  | .done s rest => (.text s, rest)
  | .broken b => (.broken b, [])

def isBroken : Doc → Bool
  | .broken _ => true
  | _ => false

mutual

/-- Reads one value; `fuel` bounds the number of steps and is never used up when it is twice the
length of the text. -/
def readValue : Nat → List Char → Doc × List Char
  | 0, _ => (.broken (.both .truncated), [])
  | fuel + 1, s =>
      match skipBlank s with
      | [] => (.broken (.both .truncated), [])
      | 'n' :: r => scanWord .null "ull".toList r
      | 't' :: r => scanWord (.bool true) "rue".toList r
      | 'f' :: r => scanWord (.bool false) "alse".toList r
      | '"' :: r => ofQuoted (scanQuoted true [] r)
      | '-' :: r => ofNumber (scanNumber true r)
      | '[' :: r =>
          match skipBlank r with
          | [] => (.list [] (.afterItem .truncated), [])
          | ']' :: t => (.list [] .closed, t)
          | t =>
              let (items, ending, rest) := readItems fuel t
              (.list items ending, rest)
      | '{' :: r =>
          match skipBlank r with
          | [] => (.record [] (some (.both .truncated)), [])
          | '}' :: t => (.record [] none, t)
          | t =>
              let (members, ending, rest) := readMembers fuel t
              (.record members ending, rest)
      | c :: r =>
          if isDigit c then ofNumber (scanNumber false (c :: r))
          else (.broken (.both .malformed), [])

def readItems : Nat → List Char → List Doc × Ending × List Char
  | 0, _ => ([], .afterItem .truncated, [])
  | fuel + 1, s =>
      let (item, rest) := readValue fuel s
      if isBroken item then ([item], .closed, [])
      else
        match skipBlank rest with
        | [] => ([item], .afterItem .truncated, [])
        | ']' :: t => ([item], .closed, t)
        | ',' :: t =>
            match skipBlank t with
            | [] => ([item], .afterComma .truncated, [])
            | ']' :: _ => ([item], .afterComma .malformed, [])
            | t =>
                let (items, ending, rest) := readItems fuel t
                (item :: items, ending, rest)
        | _ => ([item], .afterItem .malformed, [])

def readMembers : Nat → List Char → List (Option String × Doc) × Option Break × List Char
  | 0, _ => ([], some (.both .truncated), [])
  | fuel + 1, s =>
      match s with
      | '"' :: r =>
          match scanQuoted true [] r with
          | .broken b => ([], some b, [])
          | .done key rest =>
              match skipBlank rest with
              | [] => ([(key, .broken (.both .truncated))], none, [])
              | ':' :: t =>
                  let (value, rest) := readValue fuel t
                  if isBroken value then ([(key, value)], none, [])
                  else
                    match skipBlank rest with
                    | [] => ([(key, value)], some (.both .truncated), [])
                    | '}' :: t => ([(key, value)], none, t)
                    | ',' :: t =>
                        match skipBlank t with
                        | [] => ([(key, value)], some (.both .truncated), [])
                        | t =>
                            let (members, ending, rest) := readMembers fuel t
                            ((key, value) :: members, ending, rest)
                    | _ => ([(key, value)], some (.both .malformed), [])
              | _ => ([(key, .broken (.both .malformed))], none, [])
      | _ => ([], some (.both .malformed), [])

end

/-- Reads a value from the start of a text; gives the text after it. -/
def readDoc (s : List Char) : Doc × List Char := readValue (2 * s.length + 2) s

end VFromC.Json
