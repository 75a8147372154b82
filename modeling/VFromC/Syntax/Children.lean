import VFromC.Journal
import VFromC.Syntax.Node
/-!
Reading the children of a node in order.
-/
namespace VFromC.Syntax

structure Children where
  parent : Node
  position : Nat := 0

namespace Children

def isDone (c : Children) : Bool := c.parent.inner.length ≤ c.position

def remaining (c : Children) : List Node := c.parent.inner.drop c.position

def next (c : Children) : Option Node × Children :=
  match c.remaining with
  | [] => (none, c)
  | child :: _ => (some child, { c with position := c.position + 1 })

def rewind (c : Children) : Children := { c with position := 0 }

/-- The warning about a child of another kind than the one asked for. -/
def mismatch (c : Children) (kind found : Kind) : Entry :=
  ⟨.warn,
    s!"{c.parent.kind.name} child {c.position}: wanted {kind.name} but got {found.name}"⟩

/-- The next child if it has the kind asked for. Otherwise the position stays and a warning is
given. -/
def nextOf (c : Children) (kind : Kind) : Option Node × Children × Journal :=
  match c.remaining with
  | [] => (none, c, [])
  | child :: _ =>
      if child.kind = kind then (some child, { c with position := c.position + 1 }, [])
      else (none, c, [c.mismatch kind child.kind])

def missing (c : Children) (expected : String) : Fault := .missingChild c.parent.kind expected

end Children

/-- How a missing child of a kind is called. -/
def Kind.childWord : Kind → String
  | .compoundStmt => "CompoundStmt"
  | .declStmt => "DeclStmt"
  | .memberExpr => "MemberExpr"
  | .cxxConstructExpr => "CXXConstructExpr"
  | .materializeTemporaryExpr => "MaterializeTemporaryExpr"
  | .implicitCastExpr => "ImplicitCastExpr"
  | .cxxBindTemporaryExpr => "CXXBindTemporaryExpr"
  | .stringLiteral => "StringLiteral"
  | .parmVarDecl => "ParmVarDecl"
  | _ => "child"

end VFromC.Syntax
