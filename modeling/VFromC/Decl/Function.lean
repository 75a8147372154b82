import VFromC.Emit.Statement
/-!
A unit to be written, and its functions.
-/
namespace VFromC.Decl
open VFromC.Syntax VFromC.Output VFromC.Emit VFromC.Text

structure SourceUnit where
  root : Node
  /-- The C text, if it is at hand. -/
  source : Option String
  /-- Globals go to a file shared by all units. -/
  shared : Bool

/-- A word occurs in the C text; without a text everything does. -/
def SourceUnit.mentions (u : SourceUnit) (word : String) : Bool :=
  match u.source with
  | some source => Text.occursIn word source
  | none => true

def writeExpr (n : Node) : Script Unit := do
  let _ ← emitExpr n

/-- A parameter without a name is named by its position. -/
def parameterName (param : Node) (position : Nat) : String :=
  if param.name = "" then s!"arg{position}" else Ident.spell (lowered param.name)

def parameter (param : Node × Nat) : Script Unit := do
  Script.declare .parameter param.1 (parameterName param.1 param.2)
  Script.write (" " ++ Spelling.typeOf param.1.spelling)

def parameters (n : Node) : Script Unit :=
  Script.separated (Script.write ", ") parameter (n.childrenOf .parmVarDecl).zipIdx

/-- What stands before the parameters in the type of a function. -/
def resultText (spelling : String) : String :=
  trimmed (String.ofList (spelling.toList.takeWhile (· ≠ '(')))

def resultType (spelling : String) : String :=
  if resultText spelling = "void" then "" else Spelling.typeOf (resultText spelling)

def functionName (name : String) : String := Ident.spell (lowered name)

/-- The main function has neither parameters nor result. -/
def functionSignature (n : Node) : Script Unit := do
  Script.write "func "
  Script.declare .function n (functionName n.name)
  if n.name = "main" then Script.write "()"
  else do
    Script.write "("
    parameters n
    Script.write (trimmedEnd (") " ++ resultType n.spelling))

def definesFunction (u : SourceUnit) (name : String) : Bool :=
  u.root.inner.any fun n => n.kind = .functionDecl && n.name = name && n.hasChild .compoundStmt

def functionBody (n body : Node) : Script Unit := do
  Script.setContext fun c => { c with inMain := n.name = "main" }
  functionSignature n
  Script.line " \x7b"
  statements (emitter body.height) body.inner
  Script.line "\x7d"
  Script.setContext fun c => { c with inMain := false }

def functionOutline (n : Node) : Option Node → Script Unit
  | some body => functionBody n body
  | none => do
      functionSignature n
      Script.line ""

def functionText (n : Node) : Script Unit := do
  Script.when (occursIn "...)" n.spelling) (Script.line "[c2v_variadic]")
  Script.when (functionName n.name ≠ n.name) (Script.line s!"[c:\"{n.name}\"]")
  Script.register (·.addFunction n.name)
  functionOutline n (n.childrenOf .compoundStmt).head?
  Script.line ""

/-- A function is written when the C text mentions it. A declaration without body gives way to a
definition. -/
def functionDecl (u : SourceUnit) (n : Node) : Script Unit := do
  Script.setContext fun c => { c with inMain := false }
  let known ← Script.symbols
  if occursIn "usr/include" n.info.place.file || n.name = "" || n.name = "invalid" then pure ()
  else if !u.mentions n.name then Script.note s!"function {n.name} is not in this unit, skipping"
  else if !n.hasChild .compoundStmt &&
      (known.hasFunction n.name || definesFunction u n.name) then pure ()
  else functionText n

end VFromC.Decl
