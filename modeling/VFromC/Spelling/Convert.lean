import VFromC.Spelling.Qualifier
import VFromC.Spelling.Declarator
import VFromC.Spelling.Primitive
/-!
C type spellings as types of the output.

A front end gives a type only in its printed form, so a type is found by rules on that text:
qualifiers are dropped, a few pointer spellings are fixed, and what remains is a function type or a
base type with dimensions and stars. The rules call each other only on shorter texts.
-/
namespace VFromC.Spelling
open VFromC.Text

/-- Fixed spellings of pointers to `char *` and `void`. -/
def opaquePointer? (s : List Char) : Option (List Char) :=
  if s = "char **".toList ∨ s = "char * *".toList then some "&&u8".toList
  else if s = "void *".toList then some "voidptr".toList
  else if s = "void **".toList ∨ s = "void * *".toList then some "&voidptr".toList
  else
    ((afterStart? "void *[".toList s).bind (beforeEnd? "]".toList)).map fun size =>
      '[' :: size ++ "]voidptr".toList

/-- `enum color` without stars and dimensions names the enumeration `Color`. -/
def enumName? (s : List Char) : Option (List Char) :=
  (afterStart? "enum ".toList s).bind fun name =>
    if name.contains '*' || name.contains '[' then none else some (capitalizeFirst (trim name))

def isSignature (s : List Char) : Bool :=
  contains "(*)".toList s ||
    (s.getLast? = some ')' && contains " (".toList s && s.head? ≠ some '(')

/-- A function type of the output, which is left as it is. -/
def isFunctionType (s : List Char) : Bool :=
  startsWith "func ".toList s || startsWith "func(".toList s

/-- Depth of round and angle brackets after one more character. -/
def nesting (depth : Nat) (c : Char) : Nat :=
  if c = '(' ∨ c = '<' then depth + 1
  else if c = ')' ∨ c = '>' then depth - 1
  else depth

/-- Splits at the commas outside all brackets; `piece` is the current part, read backwards. -/
def splitParams (depth : Nat) (piece : List Char) : List Char → List (List Char)
  | [] => [trim piece.reverse]
  | c :: s =>
      if c = ',' ∧ depth = 0 then trim piece.reverse :: splitParams 0 [] s
      else splitParams (nesting depth c) (c :: piece) s

/-- A signature cut into the text of its result and the texts of its parameters. -/
structure Signature where
  result : List Char
  params : List (List Char)

/-- The text between the first opening and the last closing bracket, which may be missing;
`before` and `rest` stand around the opening one. -/
def bracketed (before rest : List Char) : List Char :=
  match cutLast? ")".toList rest with
  | some (inside, _) => inside
  | none => if before.contains ')' then [] else rest

/-- The parameters in a bracket; `void` alone or nothing at all means none. -/
def paramTexts (params : List Char) : List (List Char) :=
  if trim params = "void".toList ∨ trim params = [] then [] else splitParams 0 [] params

def Signature.ofText? (s : List Char) : Option Signature :=
  (cut? "(".toList (removeFirst "(*)".toList s)).map fun parts =>
    { result := parts.1, params := paramTexts (bracketed parts.1 parts.2) }

def joined (sep : List Char) : List (List Char) → List Char
  | [] => []
  | [s] => s
  | s :: rest => s ++ sep ++ joined sep rest

/-- A function type of the output; a result of `void` is not written. -/
def signatureText (params : List (List Char)) (result : List Char) : List Char :=
  let head := "func (".toList ++ joined ", ".toList params ++ ")".toList
  if result = "void".toList ∨ result = [] then head else head ++ ' ' :: result

/-- Dimensions first, then one sign for each star, then the base; one star on `void` is in the
name `voidptr`. -/
def declaredText (dims : List Char) (stars : Nat) (base : List Char) : List Char :=
  if base = "void".toList ∧ 0 < stars then
    dims ++ List.replicate (stars - 1) '&' ++ "voidptr".toList
  else dims ++ List.replicate stars '&' ++ base

theorem length_le_of_mem_splitParams {depth : Nat} {piece s p : List Char}
    (h : p ∈ splitParams depth piece s) : p.length ≤ piece.length + s.length := by
  induction s generalizing depth piece with
  | nil =>
      simp only [splitParams, List.mem_singleton] at h
      subst h
      simpa using length_trim_le piece.reverse
  | cons c s ih =>
      simp only [splitParams] at h
      split at h
      · rcases List.mem_cons.mp h with rfl | h
        · have := length_trim_le piece.reverse
          simp only [List.length_reverse] at this
          simp only [List.length_cons]
          omega
        · have := ih h
          simp only [List.length_nil, List.length_cons] at *
          omega
      · have := ih h
        simp only [List.length_cons] at *
        omega

theorem Signature.length_result_lt {s : List Char} {sig : Signature}
    (h : Signature.ofText? s = some sig) : sig.result.length < s.length := by
  simp only [Signature.ofText?, Option.map_eq_some_iff] at h
  obtain ⟨⟨before, rest⟩, hc, rfl⟩ := h
  have h1 := length_of_cut? hc
  have h2 := length_removeFirst_le "(*)".toList s
  have h3 : "(".toList.length = 1 := rfl
  simp only
  omega

theorem length_bracketed_le (before rest : List Char) :
    (bracketed before rest).length ≤ rest.length := by
  unfold bracketed
  split
  · rename_i h
    have := length_of_cutLast? h
    omega
  · split
    · exact Nat.zero_le _
    · exact Nat.le_refl _

theorem length_le_of_mem_paramTexts {params p : List Char} (h : p ∈ paramTexts params) :
    p.length ≤ params.length := by
  unfold paramTexts at h
  split at h
  · simp at h
  · simpa using length_le_of_mem_splitParams h

theorem Signature.length_param_lt {s p : List Char} {sig : Signature}
    (h : Signature.ofText? s = some sig) (hp : p ∈ sig.params) : p.length < s.length := by
  simp only [Signature.ofText?, Option.map_eq_some_iff] at h
  obtain ⟨⟨before, rest⟩, hc, rfl⟩ := h
  have h1 := length_of_cut? hc
  have h2 := length_removeFirst_le "(*)".toList s
  have h3 : "(".toList.length = 1 := rfl
  have h4 := length_le_of_mem_paramTexts hp
  have h5 := length_bracketed_le before rest
  simp only at h4
  omega

mutual

def typeText (s : List Char) : List Char :=
  if contains "__va_list_tag".toList (trim s) then "va_list".toList
  else
    match opaquePointer? (stripQualifiers (trim s)).text with
    | some name => name
    | none => unqualifiedText (stripQualifiers (trim s)).text
termination_by 4 * s.length + 3
decreasing_by
  have h1 := length_stripQualifiers_le (trim s)
  have h2 := length_trim_le s
  omega

/-- The type of a spelling whose qualifiers are gone; types of the output are read too. -/
def unqualifiedText (s : List Char) : List Char :=
  if isFunctionType (trim s) then trim s
  else
    match _hr : afterStart? "&".toList (trim s) with
    | some rest => '&' :: unqualifiedText rest
    | none =>
        match _hd : leadingDimensions? (trim s) with
        | some (dims, elem) => dims ++ unqualifiedText elem
        | none =>
            match enumName? (trim s) with
            | some name => name
            | none =>
                if isSignature (trim s) then functionText (trim s)
                else
                  declaredText (Declarator.ofText (trim s)).dims (Declarator.ofText (trim s)).stars
                    (baseText (Declarator.ofText (trim s)).base)
termination_by 4 * s.length + 2
decreasing_by
  · have h1 := length_of_afterStart? _hr
    have h2 := length_trim_le s
    have h3 : "&".toList.length = 1 := rfl
    omega
  · have h1 := length_lt_of_leadingDimensions? _hd
    have h2 := length_trim_le s
    omega
  · have h2 := length_trim_le s
    omega
  · have h1 := Declarator.length_base_le (trim s)
    have h2 := length_trim_le s
    omega

/-- The type of a function pointer or function signature. -/
def functionText (s : List Char) : List Char :=
  match _h : Signature.ofText? s with
  | none => s
  | some sig =>
      signatureText
        (sig.params.attach.map fun ⟨p, _⟩ => if p = "...".toList then p else typeText p)
        (typeText sig.result)
termination_by 4 * s.length + 1
decreasing_by
  · have := Signature.length_param_lt _h (by assumption)
    omega
  · have := Signature.length_result_lt _h
    omega

/-- The type of a base: a primitive, a vector or a name. -/
def baseText (s : List Char) : List Char :=
  if targetPrimitives.contains (String.ofList s) then s
  else
    match _h : vectorElement? s with
    | some elem => '[' :: ']' :: typeText elem
    | none => scalarName s
termination_by 4 * s.length
decreasing_by
  have := length_lt_of_vectorElement? _h
  omega

end

theorem functionText_eq (s : List Char) :
    functionText s =
      match Signature.ofText? s with
      | none => s
      | some sig =>
          signatureText (sig.params.map fun p => if p = "...".toList then p else typeText p)
            (typeText sig.result) := by
  rw [functionText]
  split <;> simp_all

/-- A type of the output, and what the qualifiers of its C spelling said. -/
structure VType where
  name : String
  isConst : Bool
  isStatic : Bool
deriving DecidableEq, Repr

def VType.isPointer (t : VType) : Bool := begins "&" t.name || t.name = "voidptr"

def VType.isArray (t : VType) : Bool := begins "[" t.name

def convert (c : String) : VType :=
  let raw := trim c.toList
  if contains "__va_list_tag".toList raw then ⟨"va_list", false, false⟩
  else
    ⟨String.ofList (typeText raw), (stripQualifiers raw).isConst, (stripQualifiers raw).isStatic⟩

def typeOf (c : String) : String := (convert c).name

/-- Two global declarations agree on their type when the names are equal, or when both are arrays
of one element type. -/
def sameType (a b : String) : Bool :=
  a = b ||
    (begins "[" a && begins "[" b &&
      (cutLast? "]".toList a.toList).map Prod.snd = (cutLast? "]".toList b.toList).map Prod.snd)

/-- The value of a variable without initializer. `c` is the spelling of its type, `canonical` the
spelling without aliases. -/
def zeroValue (t : VType) (c canonical : String) : String :=
  if begins "struct " canonical && !occursIn "*" canonical && !begins "[" t.name then
    t.name ++ "\x7b\x7d"
  else if ["u8", "u16", "u32", "u64", "usize", "i8", "i16", "i64", "isize"].contains t.name then
    t.name ++ "(0)"
  else if t.name = "int" then "0"
  else if t.name = "bool" then "false"
  else if t.name = "f32" then "f32(0.0)"
  else if t.name = "f64" then "0.0"
  else if t.name = "voidptr" then "voidptr(0)"
  else if ends "*" (trimmedEnd c) || begins "&" t.name then
    "&" ++ String.ofList ((afterStart? "&".toList t.name.toList).getD t.name.toList) ++ "(0)"
  else t.name ++ "\x7b\x7d"

end VFromC.Spelling
