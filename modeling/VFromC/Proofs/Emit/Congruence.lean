import VFromC.Emit.Statement
import VFromC.Proofs.Syntax.Below
/-!
Relations between scripts that every emitter keeps.

A congruence is a relation between scripts that is kept by all the ways in which emitters put
scripts together. Two emitters that are related on everything below a node write related scripts
for the node. What holds of all output is an instance of this, and so is that emitters for trees of
different height agree.
-/
namespace VFromC.Emit
open VFromC.Syntax VFromC.Output

/-- Commands that change nothing but the text of the page and the journal. -/
def IsText : Command → Prop
  | .write _ | .line _ | .endLine | .note _ => True
  | _ => False

/-- Faults of the tree itself. A label without a place is found only when the tree is written. -/
def IsOfTree : Fault → Prop
  | .unresolvedLabel _ => False
  | _ => True

/-- The context with other entries for what a reference to an enumeration looks at: the switch and
the index around it. -/
def Context.placed (c : Context) (switchEnum : Option String) (inIndex : Bool) : Context :=
  { c with switchEnum, inIndex }

/-- The surroundings are neither a switch nor an index. -/
structure Surroundings.KeepsPlace (around : Surroundings) : Prop where
  enter (c : Context) (switchEnum : Option String) (inIndex : Bool) :
    around.enter (c.placed switchEnum inIndex) = (around.enter c).placed switchEnum inIndex
  leave (before c : Context) (switchEnum : Option String) (inIndex : Bool) :
    around.leave before (c.placed switchEnum inIndex) =
      (around.leave before c).placed switchEnum inIndex

/-- The parts of a script that see the context do not look at the place of a reference. -/
structure Congruence (R : ∀ {α : Type}, Script α → Script α → Prop) : Prop where
  pure {α : Type} (a : α) : R (pure a) (pure a)
  fail {α : Type} {e : Fault} : IsOfTree e → R (Script.fail e : Script α) (Script.fail e)
  bind {α β : Type} {s t : Script α} {f g : α → Script β} :
    R s t → (∀ a, R (f a) (g a)) → R (s >>= f) (t >>= g)
  text {c : Command} : IsText c → R (Script.command c) (Script.command c)
  symbols : R Script.symbols Script.symbols
  context {α : Type} {f g : Context → Script α} :
    (∀ c switchEnum inIndex, g (c.placed switchEnum inIndex) = g c) → (∀ c, R (f c) (g c)) →
      R (Script.context >>= f) (Script.context >>= g)
  indented {s t : Script Unit} : R s t → R (Script.indented s) (Script.indented t)
  within {α : Type} {s t : Script α} {around : Surroundings} :
    around.KeepsPlace → R s t → R (Script.within around s) (Script.within around t)

/-- A congruence that is also kept where emitters declare names. -/
structure InnerCongruence (R : ∀ {α : Type}, Script α → Script α → Prop) : Prop
    extends Congruence R where
  declare (var : Node) :
    R (Script.declare .inner var (localName var)) (Script.declare .inner var (localName var))

/-- A congruence that is also kept by references and by what they look at. -/
structure EmitterCongruence (R : ∀ {α : Type}, Script α → Script α → Prop) : Prop
    extends InnerCongruence R where
  reference (n : Node) : R (reference n) (reference n)
  index {s t : Script Unit} : R s t → R (Script.within .index s) (Script.within .index t)
  switch {s t : Script Unit} (owner : Option String) :
    R s t → R (Script.within (.switch owner) s) (Script.within (.switch owner) t)

/-- Two emitters write related scripts for a node. -/
structure Related (R : ∀ {α : Type}, Script α → Script α → Prop) (em₁ em₂ : Emitter) (n : Node) :
    Prop where
  expr : R (em₁.expr n) (em₂.expr n)
  stmt : R (em₁.stmt n) (em₂.stmt n)

theorem Script.fail_bind {α β : Type} (e : Fault) (f : α → Script β) :
    (Script.fail e : Script α) >>= f = Script.fail e := rfl

namespace Surroundings.KeepsPlace

variable {around : Surroundings}

theorem enter_eq (h : around.KeepsPlace) (c : Context) :
    (around.enter c).switchEnum = c.switchEnum ∧ (around.enter c).inIndex = c.inIndex := by
  have same : around.enter c = _ := h.enter c c.switchEnum c.inIndex
  rw [same]
  exact ⟨rfl, rfl⟩

theorem leave_eq (h : around.KeepsPlace) (before c : Context) :
    (around.leave before c).switchEnum = c.switchEnum ∧
      (around.leave before c).inIndex = c.inIndex := by
  have same : around.leave before c = _ := h.leave before c c.switchEnum c.inIndex
  rw [same]
  exact ⟨rfl, rfl⟩

end Surroundings.KeepsPlace

theorem keepsPlace_expression (kind : Kind) : (Surroundings.expression kind).KeepsPlace where
  enter _ _ _ := by
    simp only [Surroundings.expression, Context.placed]
    split <;> rfl
  leave _ _ _ _ := by
    simp only [Surroundings.expression, Context.placed]
    split <;> rfl

theorem keepsPlace_condition : Surroundings.condition.KeepsPlace where
  enter _ _ _ := rfl
  leave _ _ _ _ := rfl

theorem keepsPlace_loop : Surroundings.loop.KeepsPlace where
  enter _ _ _ := rfl
  leave _ _ _ _ := rfl

theorem keepsPlace_returned (value : Node) : (Surroundings.returned value).KeepsPlace where
  enter _ _ _ := by
    simp only [Surroundings.returned, Context.placed]
    split <;> rfl
  leave _ _ _ _ := rfl

variable {R : ∀ {α : Type}, Script α → Script α → Prop} {α β : Type}

instance : CoeOut (EmitterCongruence R) (InnerCongruence R) := ⟨EmitterCongruence.toInnerCongruence⟩

namespace Congruence

theorem write (hR : Congruence R) (s : String) : R (Script.write s) (Script.write s) :=
  hR.text trivial

theorem line (hR : Congruence R) (s : String) : R (Script.line s) (Script.line s) :=
  hR.text trivial

theorem endLine (hR : Congruence R) : R Script.endLine Script.endLine := hR.text trivial

theorem note (hR : Congruence R) (s : String) : R (Script.note s) (Script.note s) :=
  hR.text trivial

/-- The second script need not be related for results that the first one never has. -/
theorem ofExcept_bind (hR : Congruence R) {r : Except Fault α} {f g : α → Script β}
    (he : ∀ e, r = .error e → IsOfTree e) (h : ∀ a, r = .ok a → R (f a) (g a)) :
    R (Script.ofExcept r >>= f) (Script.ofExcept r >>= g) := by
  cases r with
  | ok a =>
      change R (Pure.pure a >>= f) (Pure.pure a >>= g)
      simpa only [pure_bind] using h a rfl
  | error e => exact hR.fail (he e rfl)

theorem when (hR : Congruence R) (c : Prop) [Decidable c] {s t : Script Unit} (h : R s t) :
    R (Script.when c s) (Script.when c t) := by
  unfold Script.when
  split
  · exact h
  · exact hR.pure ()

theorem forSome (hR : Congruence R) {f g : α → Script Unit} {o : Option α}
    (h : ∀ a, o = some a → R (f a) (g a)) : R (Script.forSome f o) (Script.forSome g o) := by
  cases o with
  | none => exact hR.pure ()
  | some a => exact h a rfl

theorem each (hR : Congruence R) {f g : α → Script Unit} {l : List α}
    (h : ∀ a ∈ l, R (f a) (g a)) : R (Script.each f l) (Script.each g l) := by
  induction l with
  | nil => exact hR.pure ()
  | cons a l ih =>
      exact hR.bind (h a List.mem_cons_self) fun _ => ih fun b hb => h b (List.mem_cons_of_mem a hb)

theorem separated (hR : Congruence R) {between₁ between₂ : Script Unit}
    (hb : R between₁ between₂) {f g : α → Script Unit} {l : List α} (h : ∀ a ∈ l, R (f a) (g a)) :
    R (Script.separated between₁ f l) (Script.separated between₂ g l) := by
  induction l with
  | nil => exact hR.pure ()
  | cons a l ih =>
      cases l with
      | nil => exact h a List.mem_cons_self
      | cons b l =>
          have rest := ih fun x hx => h x (List.mem_cons_of_mem a hx)
          exact hR.bind (h a List.mem_cons_self) fun _ => hR.bind hb fun _ => rest

theorem childAt_bind (hR : Congruence R) {n : Node} {i : Nat} {expected : String}
    {f g : Node → Script β} (h : ∀ child ∈ n.inner, R (f child) (g child)) :
    R (childAt n i expected >>= f) (childAt n i expected >>= g) := by
  unfold childAt
  split
  · rename_i child hc
    simpa only [pure_bind] using h child (List.mem_of_getElem? hc)
  · exact hR.fail trivial

end Congruence

theorem Related.value {em₁ em₂ : Emitter} {n : Node} (hR : InnerCongruence R)
    (h : Related R em₁ em₂ n) : R (em₁.value n) (em₂.value n) :=
  hR.bind h.expr fun _ => hR.pure ()

end VFromC.Emit
