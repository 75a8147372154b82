import VFromC.Journal
import VFromC.Syntax.Node
/-!
The arms of a switch.

Labels without a statement of their own share one arm, statements that follow a labelled one belong
to its arm, and an arm that does not end in a jump goes on with the body of the next one.
-/
namespace VFromC.Emit
open VFromC.Syntax

structure Arm where
  labels : List Node := []
  body : List Node := []
  isDefault : Bool := false

def isJump : Kind → Bool
  | .breakStmt | .returnStmt | .continueStmt | .gotoStmt => true
  | _ => false

/-- Statements that do nothing and do not count as the last one. -/
def isIdle (kind : Kind) : Bool := kind = .nullStmt || kind.isAnnotation

mutual

/-- Control leaves a node at its end; the inside of a block is looked into. -/
def leaves : Node → Bool
  | ⟨info, _, inner⟩ => if info.kind = .compoundStmt then lastLeaves inner else isJump info.kind

def lastLeaves : List Node → Bool
  | [] => false
  | n :: rest => if rest.all (fun m => isIdle m.kind) then !isIdle n.kind && leaves n
      else lastLeaves rest

end

/-- A block as the statements in it. -/
def spliced (n : Node) : List Node := if n.kind = .compoundStmt then n.inner else [n]

mutual

/-- Follows labels that stand before one another down to their statement. -/
def caseChain : Node → Except Fault Arm
  | ⟨info, filler, inner⟩ =>
      match info.kind with
      | .caseStmt => labelled inner
      | .defaultStmt =>
          match inner with
          | [] => .ok { isDefault := true }
          | stmt :: _ => (caseChain stmt).map fun arm => { arm with isDefault := true }
      | _ => .ok { body := spliced ⟨info, filler, inner⟩ }

/-- A case has its label first and its statement last. -/
def labelled : List Node → Except Fault Arm
  | [] => .error (.switchShape "case without a statement")
  | label :: rest => (lastChain rest).map fun arm => { arm with labels := label :: arm.labels }

def lastChain : List Node → Except Fault Arm
  | [] => .error (.switchShape "case without a statement")
  | [stmt] => caseChain stmt
  | _ :: rest => lastChain rest

end

def appendToLast (stmt : Node) : List Arm → List Arm
  | [] => []
  | [arm] => [{ arm with body := arm.body ++ [stmt] }]
  | arm :: rest => arm :: appendToLast stmt rest

/-- The arms as they are written; `arms` are those found so far. -/
def splitArms (arms : List Arm) : List Node → Except Fault (List Arm)
  | [] => .ok arms
  | child :: rest =>
      if child.kind = .caseStmt ∨ child.kind = .defaultStmt then
        match caseChain child with
        | .ok arm => splitArms (arms ++ [arm]) rest
        | .error e => .error e
      else if child.kind.isAnnotation then splitArms arms rest
      else if arms.isEmpty then
        .error (.switchShape s!"{child.kind.name} before the first case")
      else splitArms (appendToLast child arms) rest

/-- An arm that has statements and does not leave goes on with those of the next arm. -/
def runOn : List Arm → List Arm
  | [] => []
  | [arm] => [arm]
  | arm :: rest =>
      let rest := runOn rest
      if arm.body.isEmpty || lastLeaves arm.body then arm :: rest
      else { arm with body := arm.body ++ (rest.head?.map Arm.body).getD [] } :: rest

def collectArms (body : Node) : Except Fault (List Arm) :=
  (splitArms [] (if body.kind = .compoundStmt then body.inner else [body])).map runOn

end VFromC.Emit
