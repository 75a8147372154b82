import VFromC.Emit.Call
import VFromC.Emit.Literal
import VFromC.Emit.Operator
import VFromC.Spelling.Convert
/-!
Expressions.

`expression` writes one node; the nodes below it are written by the emitter it is given.
-/
namespace VFromC.Emit
open VFromC.Syntax VFromC.Output VFromC.Text

section Initializers

/-- The number of elements of an array type such as `int [4]`. -/
def arrayLength? (spelling : String) : Option Nat := do
  let (_, rest) ← cut? "[".toList spelling.toList
  let (size, _) ← cut? "]".toList rest
  readNatural? (trim size)

def element (em : Emitter) (n : Node) : Script Unit :=
  if n.kind = .implicitValueInitExpr then Script.write "0" else em.value n

/-- The elements of a list: those that are written, followed by the filler for all that are left
out. Without a known length one filler is added. -/
def elements (n : Node) : List Node :=
  match n.filler with
  | [] => n.inner
  | filler :: written =>
      let count := (arrayLength? n.spelling).getD (written.length + 1)
      written ++ List.replicate (count - written.length) filler

/-- An array literal or a record literal, by the type of the list. -/
def initializerList (em : Emitter) (n : Node) : Script Unit := do
  let isArray := occursIn "[" n.spelling
  Script.write (if isArray then "[" else Spelling.typeOf n.spelling ++ "\x7b")
  Script.separated (Script.write ", ") (element em) (elements n)
  Script.write (if isArray then "]!" else "\x7d")

end Initializers

/-- A literal below one of these kinds only is still the value that a function returns. -/
def passesReturned : Kind → Bool
  | .integerLiteral | .implicitCastExpr | .constantExpr | .parenExpr | .conditionalOperator => true
  | _ => false

/-- An expression of a kind, seen from itself: below most kinds a literal is a number again. -/
def Surroundings.expression (kind : Kind) : Surroundings where
  enter c := if c.returnsBool && !passesReturned kind then { c with returnsBool := false } else c
  leave before c :=
    if before.returnsBool && !passesReturned kind then { c with returnsBool := true } else c
  leave_enter c := by
    by_cases h : (c.returnsBool && !passesReturned kind) = true
    · have hc : c.returnsBool = true := by simp_all
      simp only [h, if_true]
      rw [← hc]
    · simp only [h, if_false, Bool.false_eq_true]

/-- Statements that leave the place where they stand. A `break` out of a switch is left out,
because an arm of the output ends by itself. -/
def jump (n : Node) : Script Unit :=
  match n.kind with
  | .breakStmt => do
      let context ← Script.context
      Script.when (context.switchDepth = 0) (Script.line "break")
  | .continueStmt => Script.line "continue"
  | .gotoStmt => Script.command (.jump n.info.targetLabelId)
  | _ => pure ()

def unhandled (n : Node) : Script Bool :=
  if n.info.isBuiltin then pure (literalIsBool n)
  else Script.fail (.unhandledNode n.kind "expression")

def noOutput (n : Node) : Script Unit := Script.note s!"no translation for {n.kind.name}"

def castTo (em : Emitter) (type : String) (operand : Node) : Script Unit := do
  Script.write (type ++ "(")
  em.value operand
  Script.write ")"

/-- What the size is taken of. Parentheses around the operand are not written twice. -/
def sizeOperand (em : Emitter) (n : Node) : Script Unit :=
  match n.firstChild? with
  | some operand =>
      if operand.kind = .parenExpr then em.value (operand.firstChild?.getD operand)
      else em.value operand
  | none => Script.write (Spelling.typeOf n.info.argType.spelling)

def sizeOperator (em : Emitter) (n : Node) : Script Unit := do
  Script.write ((if n.name = "" then "sizeof" else n.name) ++ "(")
  sizeOperand em n
  Script.write ")"

def firstOnly (em : Emitter) (n : Node) : Script Unit := Script.forSome em.value n.firstChild?

/-- A text object made from a literal is written as that literal. -/
def withCleanups (em : Emitter) (n : Node) : Script Unit :=
  if Text.occursIn "basic_string<" n.spelling then
    Script.forSome (fun literal => Script.write literal.valueText) (n.descendant? .stringLiteral)
  else firstOnly em n

/-- Checked casts of C++ write their type before the operand is looked for. -/
def checkedCast (em : Emitter) (n : Node) : Script Unit := do
  Script.write (Spelling.typeOf n.spelling ++ "(")
  let operand ← childAt n 0 "operand"
  em.value operand
  Script.write ")"

/-- Something in parentheses, which are left out where they are not wanted. -/
def parenthesized (em : Emitter) (n : Node) : Script Bool := do
  let child ← childAt n 0 "operand"
  let context ← Script.context
  Script.when (!context.skipParens) (Script.write "(")
  let isBool ← em.expr child
  Script.when (!context.skipParens) (Script.write ")")
  pure isBool

def integerText (ctx : Context) (n : Node) : String :=
  if ctx.returnsBool then (if n.valueText = "0" then "false" else "true") else n.valueText

def integer (n : Node) : Script Unit := do
  Script.write (integerText (← Script.context) n)

def castExpression (em : Emitter) (n : Node) : Script Bool := do
  let operand ← childAt n 0 "operand"
  if Spelling.typeOf n.spelling = "void" then em.expr operand
  else do
    castTo em (Spelling.typeOf n.spelling) operand
    pure (literalIsBool n)

def zeroOf (n : Node) : String :=
  Spelling.zeroValue (Spelling.convert n.spelling) n.spelling n.info.type.canonical

/-- Writes what only C++ has; the result tells whether the node is of such a kind. -/
def cxxExpression (em : Emitter) (n : Node) : Script Bool :=
  let plain (s : Script Unit) : Script Bool := do
    s
    pure true
  match n.kind with
  | .cxxConstructExpr => plain (Script.when (Text.occursIn "<int>" n.spelling) (Script.write "int"))
  | .cxxMemberCallExpr => plain (methodCall em n)
  | .cxxOperatorCallExpr => plain (operatorCall em n)
  | .exprWithCleanups => plain (withCleanups em n)
  | .materializeTemporaryExpr | .cxxBindTemporaryExpr => plain (firstOnly em n)
  | .cxxDynamicCastExpr | .cxxStaticCastExpr => plain (checkedCast em n)
  | .cxxThisExpr => plain (Script.write "this")
  | .cxxBoolLiteralExpr => plain (Script.write n.valueText)
  | .cxxNullPtrLiteralExpr => plain (Script.write "nullptr")
  | .unresolvedLookupExpr | .cxxTryStmt | .cxxThrowExpr | .cxxReinterpretCastExpr
  | .cxxUnresolvedConstructExpr | .cxxDependentScopeMemberExpr | .cxxFunctionalCastExpr
  | .cxxDeleteExpr | .cxxNewExpr | .cxxTemporaryObjectExpr => plain (noOutput n)
  | _ => pure false

/-- Writes an expression in the surroundings of its own kind; the result tells whether its text is
a truth value. -/
def expressionBody (em : Emitter) (n : Node) : Script Bool :=
  let plain (s : Script Unit) : Script Bool := do
    s
    pure (literalIsBool n)
  match n.kind with
  | .null | .nullStmt => pure false
  | .integerLiteral => plain (integer n)
  | .characterLiteral => plain (Script.write (runeLiteral (runeCode n)))
  | .floatingLiteral => plain (Script.write n.valueText)
  | .stringLiteral => plain (Script.write (stringLiteral n.valueText))
  | .constantExpr | .implicitCastExpr => do
      let child ← childAt n 0 "operand"
      em.expr child
  | .parenExpr => parenthesized em n
  | .binaryOperator => binaryOperator em n
  | .compoundAssignOperator => plain (compoundAssignment em n)
  | .unaryOperator => unaryOperator em n
  | .conditionalOperator => plain (conditionalOperator em n)
  | .declRefExpr => plain (reference n)
  | .memberExpr => plain (memberAccess em n)
  | .callExpr => plain (call em n)
  | .arraySubscriptExpr => plain (arraySubscript em n)
  | .unaryExprOrTypeTraitExpr => plain (sizeOperator em n)
  | .initListExpr => plain (initializerList em n)
  | .implicitValueInitExpr => plain (Script.write (zeroOf n))
  | .cStyleCastExpr => castExpression em n
  | .breakStmt | .continueStmt | .gotoStmt => plain (jump n)
  | .opaqueValueExpr | .parenListExpr | .vaArgExpr | .offsetOfExpr | .stmtExpr | .attribute
  | .comment => plain (noOutput n)
  | _ => do
      let isCxx ← cxxExpression em n
      if isCxx then pure (literalIsBool n) else unhandled n

def expression (em : Emitter) (n : Node) : Script Bool :=
  Script.within (.expression n.kind) (expressionBody em n)

end VFromC.Emit
