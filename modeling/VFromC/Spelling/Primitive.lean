import VFromC.Ident
/-!
The table of base types. What is not in the table names a record or an alias and is capitalised.
-/
namespace VFromC.Spelling
open VFromC.Text

/-- Names of the output language that stand for themselves. -/
def targetPrimitives : List String := [
  "int", "i8", "i16", "i64", "u8", "u16", "u32", "u64", "f32", "f64", "usize", "isize", "bool",
  "void", "voidptr", "va_list", "C.FILE", "C.intptr_t"]

/-- C base types and the types that represent them. -/
def primitiveTable : List (String × String) := [
  ("long long", "i64"), ("long long int", "i64"),
  ("long", "int"), ("long int", "int"),
  ("unsigned", "u32"), ("unsigned int", "u32"),
  ("unsigned long long", "u64"), ("unsigned long long int", "u64"),
  ("unsigned long", "u32"), ("unsigned long int", "u32"),
  ("unsigned char", "u8"),
  ("unsigned short", "u16"), ("unsigned short int", "u16"),
  ("uint32_t", "u32"), ("__uint32_t", "u32"),
  ("int32_t", "int"), ("__int32_t", "int"),
  ("uint64_t", "u64"), ("__uint64_t", "u64"),
  ("int64_t", "i64"), ("__int64_t", "i64"),
  ("int16_t", "i16"), ("__int16_t", "i16"),
  ("uint16_t", "u16"), ("__uint16_t", "u16"),
  ("int8_t", "i8"), ("__int8_t", "i8"),
  ("uint8_t", "u8"), ("__uint8_t", "u8"), ("byte", "u8"),
  ("short", "i16"), ("short int", "i16"),
  ("char", "i8"),
  ("float", "f32"),
  ("double", "f64"), ("long double", "f64"),
  ("intptr_t", "C.intptr_t"),
  ("size_t", "usize"),
  ("ssize_t", "isize"), ("ptrdiff_t", "isize"),
  ("boolean", "bool"), ("_Bool", "bool"), ("Bool", "bool"), ("bool (int)", "bool"),
  ("FILE", "C.FILE")]

/-- The element type of `vector<T>`. -/
def vectorElement? (base : List Char) : Option (List Char) :=
  (afterStart? "vector<".toList base).bind (beforeEnd? ">".toList)

/-- A base type that is no container. -/
def scalarName (base : List Char) : List Char :=
  match primitiveTable.lookup (String.ofList base) with
  | some name => name.toList
  | none => Ident.typeNameChars base

theorem length_lt_of_vectorElement? {base elem : List Char}
    (h : vectorElement? base = some elem) : elem.length < base.length := by
  simp only [vectorElement?, Option.bind_eq_some_iff] at h
  obtain ⟨rest, hr, he⟩ := h
  have h1 := length_of_afterStart? hr
  have h2 := length_of_beforeEnd? he
  have h3 : ">".toList.length = 1 := rfl
  omega

end VFromC.Spelling
