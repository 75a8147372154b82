import VFromC.Text.OnStrings
/-!
Identifiers: which ones are taken in V, which ones belong to the C library, and how a C identifier
is spelled in V.
-/
namespace VFromC.Ident
open VFromC.Text

/-- Words that no identifier of the output may be. -/
def reservedWords : List String := [
  "as", "asm", "assert", "atomic", "break", "case", "chan", "const", "continue", "default",
  "defer", "else", "enum", "fallthrough", "fn", "for", "func", "go", "goto", "if", "import",
  "in", "interface", "is", "lock", "map", "match", "module", "mut", "none", "or", "package",
  "pub", "range", "return", "rlock", "select", "shared", "sizeof", "spawn", "static", "struct",
  "switch", "type", "typeof", "union", "unsafe", "var", "volatile"]

/-- Functions and objects of the C library, reached in the output as members of `C`. -/
def libraryNames : List String := [
  "fopen", "puts", "fflush", "printf", "memset", "atoi", "memcpy", "remove", "strlen", "rename",
  "stdout", "stderr", "stdin", "ftell", "fclose", "fread", "read", "perror", "ftruncate", "FILE",
  "strcmp", "toupper", "strchr", "strdup", "strncasecmp", "strcasecmp", "isspace", "strncmp",
  "malloc", "close", "open", "lseek", "fseek", "fgets", "rewind", "write", "calloc", "setenv",
  "gets", "abs", "sqrt", "erfl", "fprintf", "snprintf", "exit", "__stderrp", "fwrite", "scanf",
  "sscanf", "strrchr", "div", "free", "memcmp", "memmove", "vsnprintf", "rintf", "rint"]

/-- What the paths of system headers contain. -/
def systemPaths : List String :=
  ["usr/include", "/opt/", "usr/lib", "usr/local", "/Library/", "lib/clang"]

/-- Library types that the output never declares. -/
def libraryTypes : List String := ["ldiv_t", "__float2", "__double2", "exception", "double_t"]

/-- Library globals that the output never declares. -/
def libraryGlobals : List String := ["sys_nerr", "sys_errlist", "suboptarg"]

def isReserved (name : String) : Bool := reservedWords.contains name

def isLibraryName (name : String) : Bool := libraryNames.contains name

def isLibraryType (name : String) : Bool := libraryTypes.contains name

def isLibraryGlobal (name : String) : Bool := libraryGlobals.contains name

def isSystemPath (path : String) : Bool :=
  path ≠ "" && systemPaths.any fun part => occursIn part path

/-- A reserved word gets a trailing underscore, a library name moves into `C`, and `argv` is the
argument list of the `os` module. -/
def spell (name : String) : String :=
  if isReserved name then name ++ "_"
  else if isLibraryName name then "C." ++ name
  else if name = "argv" then "os.argv"
  else name

/-- Members of an enumeration are written in small letters, and only a reserved word is renamed. -/
def spellMember (name : String) : String :=
  let small := lowered name
  if isReserved small then small ++ "_" else small

def capitalized (name : String) : String := String.ofList (capitalizeFirst name.toList)

def dropUnderscores (name : List Char) : List Char := name.dropWhile (· == '_')

/-- Type names lose their leading underscores and start with a capital; a function type is kept. -/
def typeNameChars (name : List Char) : List Char :=
  if startsWith "func ".toList name then name else capitalizeFirst (dropUnderscores name)

def typeName (name : String) : String := String.ofList (typeNameChars name.toList)

end VFromC.Ident
