import VFromC.Text.Search
/-!
The parts of a C type spelling around its base: dimensions, stars, a reference sign, name spaces
and the words of record types. Each rule works on the text alone.
-/
namespace VFromC.Spelling
open VFromC.Text

/-- Cuts `int [2][3]` into `int` and `[2][3]`. -/
def splitDimensions (s : List Char) : List Char × List Char :=
  if s.head? ≠ some '[' ∧ s.contains '[' ∧ s.getLast? = some ']' then
    (trimEnd (s.takeWhile (· ≠ '[')), s.dropWhile (· ≠ '['))
  else (s, [])

/-- Reads bracketed parts from the start of a text; `inside` tells whether a bracket is open. -/
def leadingBrackets? (inside : Bool) : List Char → Option (List Char × List Char)
  | [] => if inside then none else some ([], [])
  | c :: s =>
      if inside then
        (leadingBrackets? (c ≠ ']') s).map fun (dims, rest) => (c :: dims, rest)
      else if c = '[' then
        (leadingBrackets? true s).map fun (dims, rest) => (c :: dims, rest)
      else some ([], c :: s)

/-- Cuts `[2][3]int`, the output's own form, into `[2][3]` and `int`. -/
def leadingDimensions? (s : List Char) : Option (List Char × List Char) :=
  if s.head? = some '[' then leadingBrackets? false s else none

/-- Keeps the last segment of a name with `::` or `:` in it; a name in `C.` keeps its colons. -/
def stripNamespace (s : List Char) : List Char :=
  match cutLast? "::".toList s with
  | some (_, rest) => rest
  | none =>
      if startsWith "C.".toList s then s
      else
        match cutLast? ":".toList s with
        | some (_, rest) => rest
        | none => s

/-- Drops `struct ` and `union ` everywhere and a leading `signed `. -/
def stripRecordWords (s : List Char) : List Char :=
  let bare := replaceAll "union ".toList [] (replaceAll "struct ".toList [] s)
  (afterStart? "signed ".toList bare).getD bare

def isStarOrSpace (c : Char) : Bool := c == '*' || c == ' '

/-- The text before the trailing stars, and how many stars there are. -/
def splitStars (s : List Char) : List Char × Nat :=
  let tail := (trimEnd s).reverse.takeWhile isStarOrSpace
  (trim (dropEndWhile isStarOrSpace (trimEnd s)), tail.count '*')

/-- Drops a trailing reference sign that has a space before it, and tells whether it did. -/
def splitReference (s : List Char) : List Char × Bool :=
  match beforeEnd? "&".toList s with
  | some front => if front.getLast? = some ' ' then (trimEnd front, true) else (s, false)
  | none => (s, false)

/-- A base with its dimensions and its number of indirections. -/
structure Declarator where
  base : List Char
  stars : Nat
  dims : List Char
deriving DecidableEq, Repr

def Declarator.ofText (s : List Char) : Declarator :=
  let front := splitDimensions s
  let starred := splitStars (stripRecordWords (stripNamespace front.1))
  let referred := splitReference starred.1
  { base := referred.1
    stars := if referred.2 then starred.2 + 1 else starred.2
    dims := front.2 }

theorem leadingBrackets?_append :
    ∀ {inside : Bool} {s dims rest : List Char},
      leadingBrackets? inside s = some (dims, rest) → dims ++ rest = s
  | true, [], _, _, h => by simp [leadingBrackets?] at h
  | false, [], _, _, h => by simp [leadingBrackets?] at h; simp [h]
  | true, c :: s, dims, rest, h => by
      simp only [leadingBrackets?, if_true, Option.map_eq_some_iff] at h
      obtain ⟨⟨d, r⟩, hr, hp⟩ := h
      cases hp
      simp [leadingBrackets?_append hr]
  | false, c :: s, dims, rest, h => by
      simp only [leadingBrackets?, Bool.false_eq_true, if_false] at h
      split at h
      · simp only [Option.map_eq_some_iff] at h
        obtain ⟨⟨d, r⟩, hr, hp⟩ := h
        cases hp
        simp [leadingBrackets?_append hr]
      · cases h
        rfl

/-- What follows the dimensions is shorter than the whole. -/
theorem length_lt_of_leadingDimensions? {s dims rest : List Char}
    (h : leadingDimensions? s = some (dims, rest)) : rest.length < s.length := by
  cases s with
  | nil => simp [leadingDimensions?] at h
  | cons c s =>
      simp only [leadingDimensions?, List.head?_cons, Option.some.injEq] at h
      split at h
      · subst c
        simp only [leadingBrackets?, Bool.false_eq_true, if_false, if_true,
          Option.map_eq_some_iff] at h
        obtain ⟨⟨d, r⟩, hr, hp⟩ := h
        cases hp
        have := congrArg List.length (leadingBrackets?_append hr)
        simp only [List.length_append] at this
        simp only [List.length_cons]
        omega
      · simp at h

theorem length_of_cutLast? {pat : List Char} :
    ∀ {s before rest : List Char}, cutLast? pat s = some (before, rest) →
      s.length = before.length + pat.length + rest.length
  | [], before, rest, h => by
      simp only [cutLast?, Option.map_eq_some_iff] at h
      obtain ⟨r, hr, hp⟩ := h
      cases hp
      simpa using length_of_afterStart? hr
  | c :: s, before, rest, h => by
      simp only [cutLast?] at h
      split at h
      · rename_i b r hr
        cases h
        have := length_of_cutLast? hr
        simp only [List.length_cons]
        omega
      · simp only [Option.map_eq_some_iff] at h
        obtain ⟨r, hr, hp⟩ := h
        cases hp
        simpa using length_of_afterStart? hr

theorem length_splitDimensions_le (s : List Char) : (splitDimensions s).1.length ≤ s.length := by
  unfold splitDimensions
  split
  · exact Nat.le_trans (length_trimEnd_le _) (List.takeWhile_prefix _).length_le
  · exact Nat.le_refl _

theorem length_stripNamespace_le (s : List Char) : (stripNamespace s).length ≤ s.length := by
  unfold stripNamespace
  split
  · rename_i h
    have := length_of_cutLast? h
    omega
  · split
    · exact Nat.le_refl _
    · split
      · rename_i h
        have := length_of_cutLast? h
        omega
      · exact Nat.le_refl _

theorem length_stripRecordWords_le (s : List Char) : (stripRecordWords s).length ≤ s.length := by
  have h : (replaceAll "union ".toList [] (replaceAll "struct ".toList [] s)).length ≤ s.length :=
    Nat.le_trans (length_replaceAll_nil_le _ _) (length_replaceAll_nil_le _ _)
  unfold stripRecordWords
  simp only
  cases hr : afterStart? "signed ".toList
      (replaceAll "union ".toList [] (replaceAll "struct ".toList [] s)) with
  | none => simpa using h
  | some rest =>
      have := length_of_afterStart? hr
      simp only [Option.getD_some]
      omega

theorem length_splitStars_le (s : List Char) : (splitStars s).1.length ≤ s.length :=
  Nat.le_trans (length_trim_le _) <|
    Nat.le_trans (length_dropEndWhile_le _ _) (length_trimEnd_le s)

theorem length_splitReference_le (s : List Char) : (splitReference s).1.length ≤ s.length := by
  unfold splitReference
  split
  · rename_i front h
    have := length_of_beforeEnd? h
    split
    · exact Nat.le_trans (length_trimEnd_le _) (by omega)
    · exact Nat.le_refl _
  · exact Nat.le_refl _

theorem Declarator.base_ofText (s : List Char) :
    (Declarator.ofText s).base =
      (splitReference (splitStars (stripRecordWords (stripNamespace (splitDimensions s).1))).1).1 := by
  simp only [Declarator.ofText]

theorem Declarator.length_base_le (s : List Char) :
    (Declarator.ofText s).base.length ≤ s.length := by
  rw [Declarator.base_ofText]
  refine Nat.le_trans (length_splitReference_le _) ?_
  refine Nat.le_trans (length_splitStars_le _) ?_
  refine Nat.le_trans (length_stripRecordWords_le _) ?_
  exact Nat.le_trans (length_stripNamespace_le _) (length_splitDimensions_le s)

end VFromC.Spelling
