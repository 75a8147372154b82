import VFromC.Json.Number
/-!
Quoted texts of JSON documents.

A reader that needs the text wants every surrogate escape to be part of a pair; a reader that skips
it only checks the form of the escapes.
-/
namespace VFromC.Json

def hexValue? (c : Char) : Option Nat :=
  if '0' ≤ c ∧ c ≤ '9' then some (c.toNat - 48)
  else if 'a' ≤ c ∧ c ≤ 'f' then some (c.toNat - 87)
  else if 'A' ≤ c ∧ c ≤ 'F' then some (c.toNat - 55)
  else none

def hexValue4? (a b c d : Char) : Option Nat := do
  return (((← hexValue? a) * 16 + (← hexValue? b)) * 16 + (← hexValue? c)) * 16 + (← hexValue? d)

def isHighSurrogate (n : Nat) : Bool := 0xD800 ≤ n && n < 0xDC00

def isLowSurrogate (n : Nat) : Bool := 0xDC00 ≤ n && n < 0xE000

def pairedChar (high low : Nat) : Char :=
  Char.ofNat ((high - 0xD800) * 0x400 + (low - 0xDC00) + 0x10000)

/-- The characters that stand for one after a backslash. -/
def shortEscape? (c : Char) : Option Char :=
  match c with
  | '"' | '\\' | '/' => some c
  | 'b' => some (Char.ofNat 8)
  | 'f' => some (Char.ofNat 12)
  | 'n' => some '\n'
  | 'r' => some '\r'
  | 't' => some '\t'
  | _ => none

/-- Fewer than four bytes are left, so that a four-digit escape cannot be complete. -/
def isShort (s : List Char) : Bool := (s.take 4).foldl (fun size c => size + c.utf8Size) 0 < 4

/-- The text ends inside the second half of a surrogate pair. -/
def pairIsShort : List Char → Bool
  | [] => true
  | ['\\'] => true
  | '\\' :: 'u' :: s => isShort s
  | _ => false

/-- The text breaks here; `paired` is false when a lone surrogate came before. -/
def breakAt (paired : Bool) (flaw : Flaw) : Break := ⟨if paired then flaw else .malformed, flaw⟩

/-- The low surrogate escape at the start of a text, and what follows it. -/
def lowSurrogate? : List Char → Option (Nat × List Char)
  | '\\' :: 'u' :: a :: b :: c :: d :: s =>
      (hexValue4? a b c d).bind fun n => if isLowSurrogate n then some (n, s) else none
  | _ => none

theorem length_lt_of_lowSurrogate? {s rest : List Char} {n : Nat}
    (h : lowSurrogate? s = some (n, rest)) : rest.length < s.length := by
  unfold lowSurrogate? at h
  split at h
  · simp only [Option.bind_eq_some_iff] at h
    obtain ⟨m, _, hm⟩ := h
    split at hm
    · cases hm
      simp only [List.length_cons]
      omega
    · simp at hm
  · simp at h

/-- Reads up to the closing quote. The value is missing when a surrogate was alone; `acc` holds the
characters so far, the last one first. -/
def scanQuoted (paired : Bool) (acc : List Char) (s : List Char) : Scan (Option String) :=
  match s with
  | [] => .broken (breakAt paired .truncated)
  | '"' :: r => .done (if paired then some (String.ofList acc.reverse) else none) r
  | ['\\'] => .broken (breakAt paired .truncated)
  | '\\' :: 'u' :: a :: b :: c :: d :: r =>
      match hexValue4? a b c d with
      | none => .broken (breakAt paired .malformed)
      | some n =>
          if isHighSurrogate n then
            match _h : lowSurrogate? r with
            | some (m, rest) => scanQuoted paired (pairedChar n m :: acc) rest
            | none =>
                if pairIsShort r then .broken (breakAt paired .truncated)
                else scanQuoted false acc r
          else if isLowSurrogate n then scanQuoted false acc r
          else scanQuoted paired (Char.ofNat n :: acc) r
  | '\\' :: 'u' :: r => .broken (breakAt paired (if isShort r then .truncated else .malformed))
  | '\\' :: e :: r =>
      match shortEscape? e with
      | some c => scanQuoted paired (c :: acc) r
      | none => .broken (breakAt paired .malformed)
  | c :: r =>
      if c.toNat < 0x20 then .broken (breakAt paired .malformed)
      else scanQuoted paired (c :: acc) r
termination_by s.length
decreasing_by
  · have := length_lt_of_lowSurrogate? _h
    simp only [List.length_cons]
    omega
  all_goals
    simp only [List.length_cons]
    omega

end VFromC.Json
