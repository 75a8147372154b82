import VFromC.Emit.Literal
import VFromC.Json.Quoted
/-!
Character literals, read back.

A literal is one character or one escape between backticks. Each code has its literal, which reads
back as the code itself where that is the code of a character, and as its low byte elsewhere.
-/
namespace VFromC.Emit

/-- The code that a character stands for behind a backslash. -/
def escapedCode? : Char → Option Nat
  | '0' => some 0
  | 'a' => some 7
  | 'b' => some 8
  | 't' => some 9
  | 'n' => some 10
  | 'v' => some 11
  | 'f' => some 12
  | 'r' => some 13
  | '\\' => some 92
  | '`' => some 96
  | _ => none

/-- Reads what follows a backslash: two hexadecimal digits behind an `x`, or one character. -/
def scanEscape? : List Char → Option (Nat × List Char)
  | 'x' :: high :: low :: rest => do
      return (16 * (← Json.hexValue? high) + (← Json.hexValue? low), rest)
  | c :: rest => (escapedCode? c).map fun code => (code, rest)
  | [] => none

/-- Reads an escape or a character that needs none. -/
def scanCharacter? : List Char → Option (Nat × List Char)
  | [] => none
  | c :: rest =>
      if c = '\\' then scanEscape? rest
      else if c = '`' then none
      else some (c.toNat, rest)

/-- Reads the literal at the start of a text: its code, and what follows it. -/
def scanRune? : List Char → Option (Nat × List Char)
  | '`' :: s =>
      match scanCharacter? s with
      | some (code, '`' :: rest) => some (code, rest)
      | _ => none
  | _ => none

/-- The number is the code of a character. -/
def IsScalar (code : Int) : Prop :=
  0 ≤ code ∧ code ≤ 0x10FFFF ∧ ¬(0xD800 ≤ code ∧ code ≤ 0xDFFF)

instance (code : Int) : Decidable (IsScalar code) :=
  inferInstanceAs (Decidable (_ ∧ _ ∧ ¬(_ ∧ _)))

/-- What the literal for a code stands for. -/
def literalCode (code : Int) : Nat := (if IsScalar code then code else code % 256).toNat

/-- The text between two backticks is one character or escape, with a given code. -/
def ReadsAs (body : String) (code : Nat) : Prop :=
  ∀ rest, scanCharacter? (body.toList ++ rest) = some (code, rest)

section Bodies

variable {code : Int}

theorem isScalar_iff_isValidChar (h : 0 ≤ code) : IsScalar code ↔ code.toNat.isValidChar := by
  unfold IsScalar Nat.isValidChar
  omega

theorem literalCode_of_isScalar (h : IsScalar code) : literalCode code = code.toNat := by
  rw [literalCode, if_pos h]

/-- Small codes are their own low byte. -/
theorem literalCode_of_not_wide (h : ¬(127 < code ∧ code.toNat.isValidChar)) :
    literalCode code = (code % 256).toNat := by
  by_cases scalar : IsScalar code
  · have nonneg : 0 ≤ code := scalar.1
    have small : code ≤ 127 := by
      refine Int.not_lt.mp fun wide => h ⟨wide, ?_⟩
      exact (isScalar_iff_isValidChar nonneg).mp scalar
    rw [literalCode_of_isScalar scalar, Int.emod_eq_of_lt nonneg (by omega)]
  · rw [literalCode, if_neg scalar]

theorem readsAs_escape {c : Char} {n : Nat} (h : escapedCode? c = some n) :
    ReadsAs (String.ofList ['\\', c]) n := by
  have plain : c ≠ 'x' := by
    rintro rfl
    cases h
  intro rest
  rw [String.toList_ofList]
  change scanEscape? (c :: rest) = _
  rw [scanEscape?, h, Option.map_some]
  intro _ _ _ same
  exact absurd same plain

theorem readsAs_char {c : Char} (slash : c ≠ '\\') (tick : c ≠ '`') :
    ReadsAs (String.ofList [c]) c.toNat := by
  intro rest
  rw [String.toList_ofList, List.singleton_append, scanCharacter?, if_neg slash, if_neg tick]

theorem hexValue?_digitChar {n : Nat} (h : n < 16) :
    Json.hexValue? (Nat.digitChar n) = some n := by
  have all : ∀ n < 16, Json.hexValue? (Nat.digitChar n) = some n := by decide
  exact all n h

theorem readsAs_byteEscape (code : Int) : ReadsAs (byteEscape code) (code % 256).toNat := by
  intro rest
  have high : (code % 256).toNat / 16 < 16 := by omega
  have low : (code % 256).toNat % 16 < 16 := by omega
  have whole : 16 * ((code % 256).toNat / 16) + (code % 256).toNat % 16 = (code % 256).toNat :=
    Nat.div_add_mod _ _
  rw [byteEscape, String.toList_ofList]
  change scanEscape? ('x' :: Nat.digitChar _ :: Nat.digitChar _ :: rest) = _
  rw [scanEscape?, hexValue?_digitChar high, hexValue?_digitChar low]
  change some (16 * _ + _, rest) = _
  rw [whole]

/-- A code that is no backslash and no backtick can stand for itself. -/
theorem readsAs_ofNat (nonneg : 0 ≤ code) (valid : code.toNat.isValidChar) (slash : code ≠ 92)
    (tick : code ≠ 96) : ReadsAs (String.ofList [Char.ofNat code.toNat]) (literalCode code) := by
  have same : (Char.ofNat code.toNat).toNat = code.toNat := by
    rw [Char.ofNat, dif_pos valid]
    rfl
  have scalar : IsScalar code := (isScalar_iff_isValidChar nonneg).mpr valid
  have value : literalCode code = (Char.ofNat code.toNat).toNat := by
    rw [literalCode_of_isScalar scalar, same]
  have apart {c : Char} (h : code ≠ c.toNat) : Char.ofNat code.toNat ≠ c := by
    rintro rfl
    rw [same, Int.toNat_of_nonneg nonneg] at h
    exact h rfl
  rw [value]
  exact readsAs_char (apart slash) (apart tick)

theorem readsAs_runeBody (code : Int) : ReadsAs (runeBody code) (literalCode code) := by
  by_cases short : code = 0 ∨ code = 7 ∨ code = 8 ∨ code = 9 ∨ code = 10 ∨ code = 11 ∨
      code = 12 ∨ code = 13 ∨ code = 92 ∨ code = 96
  · rcases short with rfl | rfl | rfl | rfl | rfl | rfl | rfl | rfl | rfl | rfl
    all_goals exact readsAs_escape rfl
  · simp only [not_or] at short
    obtain ⟨h₀, h₇, h₈, h₉, h₁₀, h₁₁, h₁₂, h₁₃, slash, tick⟩ := short
    rw [runeBody, if_neg h₀, if_neg h₇, if_neg h₈, if_neg h₉, if_neg h₁₀, if_neg h₁₁, if_neg h₁₂,
      if_neg h₁₃, if_neg slash, if_neg tick]
    by_cases printable : 32 ≤ code ∧ code ≤ 126
    · rw [if_pos printable]
      exact readsAs_ofNat (by omega) (.inl (by omega)) slash tick
    · rw [if_neg printable]
      by_cases wide : 127 < code ∧ code.toNat.isValidChar
      · rw [wideChar?, if_pos wide]
        exact readsAs_ofNat (by omega) wide.2 slash tick
      · rw [wideChar?, if_neg wide, literalCode_of_not_wide wide]
        exact readsAs_byteEscape code

end Bodies

theorem scanRune?_of_readsAs {body : String} {code : Nat} (h : ReadsAs body code)
    (rest : List Char) : scanRune? (("`" ++ body ++ "`").toList ++ rest) = some (code, rest) := by
  have text : ("`" ++ body ++ "`").toList ++ rest = '`' :: (body.toList ++ '`' :: rest) := by
    simp
  rw [text, scanRune?, h]
  rfl

/-- The literal for a number is one literal, whatever follows it, and reads back as the number where
that is the code of a character and as its low byte elsewhere. So two characters have two
literals. -/
theorem rune_literals_read_back (code : Int) :
    (∀ rest, ∃ n, scanRune? ((runeLiteral code).toList ++ rest) = some (n, rest) ∧
      (n : Int) = if IsScalar code then code else code % 256) ∧
    ∀ other, IsScalar code → IsScalar other → runeLiteral code = runeLiteral other →
      code = other := by
  have reads (code : Int) (rest : List Char) :
      scanRune? ((runeLiteral code).toList ++ rest) = some (literalCode code, rest) :=
    scanRune?_of_readsAs (readsAs_runeBody code) rest
  have value (code : Int) :
      (literalCode code : Int) = if IsScalar code then code else code % 256 := by
    refine Int.toNat_of_nonneg ?_
    split
    · rename_i scalar
      exact scalar.1
    · omega
  refine ⟨fun rest => ⟨_, reads code rest, value code⟩, fun other scalar scalar' same => ?_⟩
  have one := reads code []
  rw [same, reads other []] at one
  injection one with one
  injection one with codes
  have first := value code
  have second := value other
  rw [if_pos scalar] at first
  rw [if_pos scalar'] at second
  omega

/-- A surrogate reads back as its low byte, and a line end is not taken for the letter of its
escape. -/
theorem surrogate_and_newline_read_back :
    IsScalar 10 ∧ IsScalar 110 ∧ ¬IsScalar 0xD8FF ∧
      (∃ n, scanRune? ((runeLiteral 0xD8FF).toList ++ ['n']) = some (n, ['n']) ∧ (n : Int) = 255) ∧
      runeLiteral 10 ≠ runeLiteral 110 := by
  have scalar : IsScalar 10 ∧ IsScalar 110 := by decide
  obtain ⟨n, reads, value⟩ := (rune_literals_read_back 0xD8FF).1 ['n']
  refine ⟨scalar.1, scalar.2, by decide, ⟨n, reads, value⟩, fun same => ?_⟩
  have equal := (rune_literals_read_back 10).2 110 scalar.1 scalar.2 same
  cases equal

end VFromC.Emit
