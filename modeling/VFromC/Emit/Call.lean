import VFromC.Emit.Name
/-!
Calls of functions, methods and operators.
-/
namespace VFromC.Emit
open VFromC.Syntax VFromC.Output

/-- Checked library functions and the plain ones they stand for. -/
def checkedFunctions : List (String × String) := [
  ("__builtin___memcpy_chk", "C.memcpy"),
  ("__builtin___memmove_chk", "C.memmove"),
  ("__builtin___memset_chk", "C.memset")]

def arguments (em : Emitter) (args : List Node) : Script Unit :=
  Script.separated (Script.write ", ") em.value args

/-- The plain function that a call is about, when it is about a checked one. -/
def plainFunction? (callee : Node) : Option String :=
  checkedFunctions.lookup callee.bare.referenceName

def calledFunction (em : Emitter) (callee : Node) : Script Unit :=
  match plainFunction? callee with
  | some text => Script.write text
  | none =>
      if callee.bare.referenceName = "memset" then Script.write "C.memset" else em.value callee

/-- A checked library function has one more argument, the size of the object, which is left out. -/
def call (em : Emitter) (n : Node) : Script Unit := do
  let callee ← childAt n 0 "callee"
  calledFunction em callee
  Script.write "("
  arguments em
    (if (plainFunction? callee).isSome then (n.inner.drop 1).take 3 else n.inner.drop 1)
  Script.write ")"

/-- The member that a method call starts with. A child of another kind is warned about. -/
def calledMember (n : Node) : Script Node :=
  let start : Children := { parent := n }
  match start.nextOf .memberExpr with
  | (some member, _, _) => pure member
  | (none, _, journal) => do
      Script.each (fun entry => Script.command (.note entry)) journal
      Script.fail (start.missing (Kind.childWord .memberExpr))

/-- `push_back` becomes the operator of the output and `size` a field; all other methods stay. -/
def methodText (em : Emitter) (n : Node) (method : String) : Script Unit :=
  if method = "push_back" then do
    Script.write " << "
    Script.forSome em.value n.inner[1]?
  else if method = "size" then Script.write ".len"
  else do
    Script.write s!".{Ident.spell method}("
    arguments em (n.inner.drop 1)
    Script.write ")"

def methodCall (em : Emitter) (n : Node) : Script Unit := do
  let member ← calledMember n
  let object ← childAt member 0 "object"
  em.value object
  methodText em n (fieldName member.name)

def operatorSign (name : String) : String :=
  String.ofList ((Text.afterStart? "operator".toList name.toList).getD name.toList)

/-- The sign of an operator function and what stands behind it. -/
def operatorText (em : Emitter) (sign : String) : Option Node → Script Unit
  | some right => do
      Script.write s!" {sign} "
      em.value right
  | none => Script.write sign

/-- A call of an operator function is written as the plain operator. -/
def operatorCall (em : Emitter) (n : Node) : Script Unit := do
  let callee ← childAt n 0 "operator"
  let left ← childAt n 1 "left operand"
  em.value left
  operatorText em (operatorSign callee.bare.referenceName) n.inner[2]?

end VFromC.Emit
