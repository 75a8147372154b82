import VFromC.Output.Script
import VFromC.Symbols
import VFromC.Syntax.Children
/-!
Scripts: how the output of a unit is made.

A script is carried out at a desk, where the symbols of the whole run and the surroundings of the
present node lie open. It gives commands, the desk as it leaves it, and a result. A script that
fails keeps the commands before the failure, so that the journal of a failed unit is complete.
-/
namespace VFromC.Emit
open VFromC.Syntax VFromC.Output

/-- What the surroundings of a node say about how it is written. -/
structure Context where
  /-- Number of switches around a statement up to the nearest loop. -/
  switchDepth : Nat := 0
  /-- The enumeration that the innermost switch is about. -/
  switchEnum : Option String := none
  inIndex : Bool := false
  inMain : Bool := false
  /-- An integer literal is a truth value here. -/
  returnsBool : Bool := false
  skipParens : Bool := false
deriving DecidableEq, Repr

structure Desk where
  symbols : Symbols := {}
  context : Context := {}
deriving DecidableEq, Repr

/-- What has become of a script. -/
structure Written (α : Type) where
  commands : List Command
  desk : Desk
  result : Except Fault α

def Script (α : Type) : Type := Desk → Written α

/-- A part of a tree that changes the context of what is in it. The context is changed on the way
in and set back on the way out, field by field. -/
structure Surroundings where
  enter : Context → Context
  /-- Sets the second context back, where the first one is that of before. -/
  leave : Context → Context → Context
  leave_enter : ∀ c, leave c (enter c) = c

namespace Script

variable {α β : Type}

protected def pure (a : α) : Script α := fun desk => ⟨[], desk, .ok a⟩

/-- The second script follows only when the first one has a result. -/
protected def bind (s : Script α) (f : α → Script β) : Script β := fun desk =>
  let first := s desk
  match first.result with
  | .ok a =>
      let next := f a first.desk
      ⟨first.commands ++ next.commands, next.desk, next.result⟩
  | .error e => ⟨first.commands, first.desk, .error e⟩

instance : Monad Script where
  pure := Script.pure
  bind := Script.bind

def fail (e : Fault) : Script α := fun desk => ⟨[], desk, .error e⟩

def ofExcept (r : Except Fault α) : Script α := fun desk => ⟨[], desk, r⟩

def command (c : Command) : Script Unit := fun desk => ⟨[c], desk, .ok ()⟩

def write (s : String) : Script Unit := command (.write s)

def line (s : String) : Script Unit := command (.line s)

def head (h : Heading) : Script Unit := command (.head h)

def endLine : Script Unit := command .endLine

def declare (role : Role) (n : Node) (name : String) : Script Unit :=
  command (.declare role n.identity name)

def note (text : String) : Script Unit := command (.note (debug text))

def symbols : Script Symbols := fun desk => ⟨[], desk, .ok desk.symbols⟩

def context : Script Context := fun desk => ⟨[], desk, .ok desk.context⟩

def register (f : Symbols → Symbols) : Script Unit := fun desk =>
  ⟨[], { desk with symbols := f desk.symbols }, .ok ()⟩

def setContext (f : Context → Context) : Script Unit := fun desk =>
  ⟨[], { desk with context := f desk.context }, .ok ()⟩

/-- Carries out `s` in its surroundings, which are left also when `s` fails. -/
def within (around : Surroundings) (s : Script α) : Script α := fun desk =>
  let done := s { desk with context := around.enter desk.context }
  { done with
    desk := { done.desk with context := around.leave desk.context done.desk.context } }

def when (condition : Prop) [Decidable condition] (s : Script Unit) : Script Unit :=
  if condition then s else pure ()

def forSome (f : α → Script Unit) : Option α → Script Unit
  | some a => f a
  | none => pure ()

def indented (s : Script Unit) : Script Unit := do
  command .deeper
  s
  command .shallower

def each (f : α → Script Unit) : List α → Script Unit
  | [] => pure ()
  | a :: rest => do
      f a
      each f rest

/-- Runs the scripts with `between` after every one but the last. -/
def separated (between : Script Unit) (f : α → Script Unit) : List α → Script Unit
  | [] => pure ()
  | [a] => f a
  | a :: rest => do
      f a
      between
      separated between f rest

theorem pure_apply (a : α) (desk : Desk) : (pure a : Script α) desk = ⟨[], desk, .ok a⟩ := rfl

theorem bind_apply (s : Script α) (f : α → Script β) (desk : Desk) :
    (s >>= f) desk =
      match (s desk).result with
      | .ok a =>
          ⟨(s desk).commands ++ (f a (s desk).desk).commands, (f a (s desk).desk).desk,
            (f a (s desk).desk).result⟩
      | .error e => ⟨(s desk).commands, (s desk).desk, .error e⟩ := rfl

theorem bind_apply_ok {s : Script α} {f : α → Script β} {desk next : Desk} {a : α}
    {commands : List Command} (h : s desk = ⟨commands, next, .ok a⟩) :
    (s >>= f) desk =
      ⟨commands ++ (f a next).commands, (f a next).desk, (f a next).result⟩ := by
  simp only [bind_apply, h]

theorem bind_apply_error {s : Script α} {f : α → Script β} {desk next : Desk} {e : Fault}
    {commands : List Command} (h : s desk = ⟨commands, next, .error e⟩) :
    (s >>= f) desk = ⟨commands, next, .error e⟩ := by
  simp only [bind_apply, h]

theorem map_id_eq (s : Script α) : id <$> s = s := by
  funext desk
  change (s >>= fun a => pure (id a)) desk = s desk
  rcases h : s desk with ⟨commands, next, _ | a⟩
  · rw [bind_apply_error h]
  · simp only [bind_apply_ok h, pure_apply, List.append_nil, id]

theorem pure_bind_eq (a : α) (f : α → Script β) : pure a >>= f = f a := by
  funext desk
  simp only [bind_apply, pure_apply, List.nil_append]

theorem bind_assoc_eq {γ : Type} (s : Script α) (f : α → Script β) (g : β → Script γ) :
    s >>= f >>= g = s >>= fun a => f a >>= g := by
  funext desk
  rcases h : s desk with ⟨commands, next, _ | a⟩
  · rw [bind_apply_error (bind_apply_error h), bind_apply_error h]
  · rw [bind_apply_ok h]
    rcases h' : f a next with ⟨commands', next', _ | b⟩
    · rw [bind_apply_error h', bind_apply_error (bind_apply_ok h |>.trans (by rw [h']))]
    · rw [bind_apply_ok h', bind_apply_ok (bind_apply_ok h |>.trans (by rw [h']))]
      simp only [List.append_assoc]

instance : LawfulMonad Script := LawfulMonad.mk' Script map_id_eq pure_bind_eq bind_assoc_eq

end Script

/-- How the nodes below a node are written. An expression tells whether its text is a truth
value. -/
structure Emitter where
  expr : Node → Script Bool
  stmt : Node → Script Unit

/-- Writes an expression whose result does not matter. -/
def Emitter.value (em : Emitter) (n : Node) : Script Unit := do
  let _ ← em.expr n

/-- The child at a position, named for the message when it is missing. -/
def childAt (n : Node) (position : Nat) (expected : String) : Script Node :=
  match n.inner[position]? with
  | some child => pure child
  | none => Script.fail (.missingChild n.kind expected)

/-- The first child that has content of its own. -/
def initializer? (n : Node) : Option Node := n.inner.find? fun child => !child.kind.isAnnotation

/-- The literal of a node passes for a truth value when it is the word for one. -/
def literalIsBool (n : Node) : Bool := n.valueText = "bool"

def statements (em : Emitter) (children : List Node) : Script Unit :=
  Script.indented (Script.each em.stmt children)

/-- The inside of a block whose braces are written by others. -/
def block (em : Emitter) (n : Node) : Script Unit :=
  if n.kind = .compoundStmt then statements em n.inner
  else Script.indented (em.stmt n)

end VFromC.Emit
