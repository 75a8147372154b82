/-!
Reading a text: blank characters and trimming, finding, cutting and replacing parts, and whole
numbers in decimal digits.

A character is blank when it has the Unicode property White_Space. Every pattern given to these
functions is meant to be non-empty.
-/
namespace VFromC.Text

section Blanks

/-- The characters with the property White_Space. -/
def isBlank (c : Char) : Bool :=
  let n := c.toNat
  (9 ≤ n && n ≤ 13) || n == 0x20 || n == 0x85 || n == 0xA0 || n == 0x1680 ||
    (0x2000 ≤ n && n ≤ 0x200A) || n == 0x2028 || n == 0x2029 || n == 0x202F || n == 0x205F ||
    n == 0x3000

def trimStart (s : List Char) : List Char := s.dropWhile isBlank

/-- What is left of `s` when the longest run at its end that satisfies `p` is dropped. -/
def dropEndWhile (p : Char → Bool) (s : List Char) : List Char :=
  (s.reverse.dropWhile p).reverse

def trimEnd (s : List Char) : List Char := dropEndWhile isBlank s

def trim (s : List Char) : List Char := trimStart (trimEnd s)

theorem length_dropEndWhile_le (p : Char → Bool) (s : List Char) :
    (dropEndWhile p s).length ≤ s.length := by
  simpa [dropEndWhile] using (List.dropWhile_suffix p (l := s.reverse)).length_le

theorem length_trimEnd_le (s : List Char) : (trimEnd s).length ≤ s.length :=
  length_dropEndWhile_le isBlank s

theorem length_trim_le (s : List Char) : (trim s).length ≤ s.length :=
  Nat.le_trans (List.dropWhile_suffix isBlank).length_le (length_trimEnd_le s)

end Blanks

section Parts

/-- The rest of `s` after `pat`, when `s` starts with `pat`. -/
def afterStart? : List Char → List Char → Option (List Char)
  | [], s => some s
  | _ :: _, [] => none
  | p :: pat, c :: s => if p = c then afterStart? pat s else none

def startsWith (pat s : List Char) : Bool := pat.isPrefixOf s

def endsWith (pat s : List Char) : Bool := pat.isSuffixOf s

/-- What stands before `pat`, when `s` ends with `pat`. -/
def beforeEnd? (pat s : List Char) : Option (List Char) :=
  (afterStart? pat.reverse s.reverse).map List.reverse

/-- Cuts `s` around the first occurrence of `pat`. -/
def cut? (pat : List Char) : List Char → Option (List Char × List Char)
  | [] => (afterStart? pat []).map fun rest => ([], rest)
  | c :: s =>
      match afterStart? pat (c :: s) with
      | some rest => some ([], rest)
      | none => (cut? pat s).map fun (before, rest) => (c :: before, rest)

/-- Cuts `s` around the last occurrence of `pat`. -/
def cutLast? (pat : List Char) : List Char → Option (List Char × List Char)
  | [] => (afterStart? pat []).map fun rest => ([], rest)
  | c :: s =>
      match cutLast? pat s with
      | some (before, rest) => some (c :: before, rest)
      | none => (afterStart? pat (c :: s)).map fun rest => ([], rest)

def contains (pat s : List Char) : Bool := (cut? pat s).isSome

/-- Replaces from left to right; `skip` counts the characters of an occurrence still to be passed. -/
def replaceFrom (pat new : List Char) : Nat → List Char → List Char
  | _, [] => []
  | skip + 1, _ :: s => replaceFrom pat new skip s
  | 0, c :: s =>
      if startsWith pat (c :: s) then new ++ replaceFrom pat new (pat.length - 1) s
      else c :: replaceFrom pat new 0 s

/-- Every occurrence of `pat` that does not overlap an earlier one becomes `new`. -/
def replaceAll (pat new s : List Char) : List Char := replaceFrom pat new 0 s

def removeFirst (pat s : List Char) : List Char :=
  match cut? pat s with
  | some (before, rest) => before ++ rest
  | none => s

/-- Drops as many leading copies of `pat` as there are; `room` bounds their number. -/
def dropCopiesFrom (pat : List Char) : Nat → List Char → List Char
  | 0, s => s
  | room + 1, s =>
      match afterStart? pat s with
      | some rest => dropCopiesFrom pat room rest
      | none => s

def dropCopies (pat s : List Char) : List Char := dropCopiesFrom pat s.length s

theorem length_of_afterStart? :
    ∀ {pat s rest : List Char}, afterStart? pat s = some rest → s.length = pat.length + rest.length
  | [], s, rest, h => by simp_all [afterStart?]
  | _ :: _, [], _, h => by simp [afterStart?] at h
  | p :: pat, c :: s, rest, h => by
      simp only [afterStart?] at h
      split at h
      · have := length_of_afterStart? h
        simp only [List.length_cons]
        omega
      · simp at h

theorem length_of_beforeEnd? {pat s front : List Char} (h : beforeEnd? pat s = some front) :
    s.length = pat.length + front.length := by
  simp only [beforeEnd?, Option.map_eq_some_iff] at h
  obtain ⟨rest, hr, rfl⟩ := h
  simpa using length_of_afterStart? hr

theorem length_of_cut? {pat : List Char} :
    ∀ {s before rest : List Char}, cut? pat s = some (before, rest) →
      s.length = before.length + pat.length + rest.length
  | [], before, rest, h => by
      simp only [cut?, Option.map_eq_some_iff] at h
      obtain ⟨r, hr, hp⟩ := h
      cases hp
      simpa using length_of_afterStart? hr
  | c :: s, before, rest, h => by
      simp only [cut?] at h
      split at h
      · rename_i r hr
        cases h
        simpa using length_of_afterStart? hr
      · simp only [Option.map_eq_some_iff] at h
        obtain ⟨⟨b, r⟩, hr, hp⟩ := h
        cases hp
        have := length_of_cut? hr
        simp only [List.length_cons]
        omega

theorem length_replaceFrom_le (pat : List Char) :
    ∀ (skip : Nat) (s : List Char), (replaceFrom pat [] skip s).length ≤ s.length
  | _, [] => by simp [replaceFrom]
  | skip + 1, _ :: s => Nat.le_succ_of_le (length_replaceFrom_le pat skip s)
  | 0, c :: s => by
      simp only [replaceFrom]
      split
      · exact Nat.le_succ_of_le (length_replaceFrom_le pat _ s)
      · exact Nat.succ_le_succ (length_replaceFrom_le pat 0 s)

theorem length_replaceAll_nil_le (pat s : List Char) : (replaceAll pat [] s).length ≤ s.length :=
  length_replaceFrom_le pat 0 s

theorem length_removeFirst_le (pat s : List Char) : (removeFirst pat s).length ≤ s.length := by
  unfold removeFirst
  split
  · rename_i h
    have := length_of_cut? h
    simp only [List.length_append]
    omega
  · exact Nat.le_refl _

end Parts

section Numbers

def isDecimalDigit (c : Char) : Bool := '0' ≤ c && c ≤ '9'

/-- The number that a non-empty run of digits denotes. -/
def digitsValue? (s : List Char) : Option Nat :=
  if s ≠ [] ∧ s.all isDecimalDigit then some (s.foldl (fun n c => n * 10 + (c.toNat - 48)) 0)
  else none

/-- A natural number of at most 64 bits; a plus sign may stand before it. -/
def readNatural? (s : List Char) : Option Nat :=
  let digits := match s with
    | '+' :: r => r
    | _ => s
  (digitsValue? digits).filter (· ≤ 0xFFFFFFFFFFFFFFFF)

/-- An integer of at most 64 bits with its sign; a plus or minus sign may stand before it. -/
def readInteger? (s : List Char) : Option Int :=
  match s with
  | '-' :: r => ((digitsValue? r).filter (· ≤ 0x8000000000000000)).map fun n => -(n : Int)
  | '+' :: r => ((digitsValue? r).filter (· ≤ 0x7FFFFFFFFFFFFFFF)).map fun n => (n : Int)
  | _ => ((digitsValue? s).filter (· ≤ 0x7FFFFFFFFFFFFFFF)).map fun n => (n : Int)

end Numbers

end VFromC.Text
