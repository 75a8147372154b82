import VFromC.Text.Search
/-!
Qualifiers of a C type spelling: what is dropped before the type itself is read, and which of them
were seen.
-/
namespace VFromC.Spelling
open VFromC.Text

/-- A spelling without qualifiers, and what the qualifiers said. -/
structure Qualified where
  text : List Char
  isConst : Bool
  isStatic : Bool
deriving DecidableEq, Repr

/-- Drops a `const` at the end when a blank or a star stands before it. -/
def dropFinalConst (s : List Char) : List Char :=
  match beforeEnd? "const".toList s with
  | some front => if front.getLast? = some ' ' ∨ front.getLast? = some '*' then front else s
  | none => s

def stripQualifiers (s : List Char) : Qualified where
  text :=
    trim <| dropFinalConst <| replaceAll "std::".toList [] <| replaceAll "static ".toList [] <|
      replaceAll "volatile ".toList [] <| replaceAll "const ".toList [] s
  isConst :=
    contains "const ".toList s || endsWith " const".toList s || endsWith "*const".toList s
  isStatic := contains "static ".toList s

theorem length_dropFinalConst_le (s : List Char) : (dropFinalConst s).length ≤ s.length := by
  unfold dropFinalConst
  split
  · rename_i front h
    have := length_of_beforeEnd? h
    split <;> omega
  · exact Nat.le_refl _

theorem length_stripQualifiers_le (s : List Char) :
    (stripQualifiers s).text.length ≤ s.length :=
  calc (stripQualifiers s).text.length
      ≤ _ := length_trim_le _
    _ ≤ _ := length_dropFinalConst_le _
    _ ≤ _ := length_replaceAll_nil_le _ _
    _ ≤ _ := length_replaceAll_nil_le _ _
    _ ≤ _ := length_replaceAll_nil_le _ _
    _ ≤ s.length := length_replaceAll_nil_le _ _

end VFromC.Spelling
