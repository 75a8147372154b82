import VFromC.Proofs.Emit.Frame
/-!
Scripts that do the same wherever the context has some property, and the texts of statements that
are put together from those of their parts.
-/
namespace VFromC.Emit
open VFromC.Syntax VFromC.Output

variable {α β : Type} {P Q : Context → Prop}

/-- The first script keeps the desk, and the second one says what it does where the context has a
property. -/
def WritesWhere (P : Context → Prop) (s t : Script α) : Prop :=
  Kept s ∧ ∀ desk, P desk.context → s desk = t desk

theorem WritesWhere.mono {s t : Script α} (h : WritesWhere P s t) (sub : ∀ c, Q c → P c) :
    WritesWhere Q s t :=
  ⟨h.1, fun desk here => h.2 desk (sub _ here)⟩

theorem Kept.writesWhere {s : Script α} (h : Kept s) : WritesWhere P s s := ⟨h, fun _ _ => rfl⟩

theorem WritesWhere.bind {s t : Script α} {f g : α → Script β} (h : WritesWhere P s t)
    (hf : ∀ a, WritesWhere P (f a) (g a)) : WritesWhere P (s >>= f) (t >>= g) := by
  refine ⟨h.1.bind fun a => (hf a).1, fun desk here => ?_⟩
  -- The desk is kept, so the second part has the same context.
  have same : (s desk).desk = desk := (h.1 desk).1
  rw [Script.bind_apply, Script.bind_apply, ← h.2 desk here, same]
  cases (s desk).result with
  | error e => rfl
  | ok a => simp only [(hf a).2 desk here]

theorem WritesWhere.indented {s t : Script Unit} (h : WritesWhere P s t) :
    WritesWhere P (Script.indented s) (Script.indented t) := by
  refine ⟨h.1.indented, fun desk here => ?_⟩
  have same : s desk = t desk := h.2 desk here
  rcases hs : s desk with ⟨commands, next, e | ⟨⟩⟩
  · rw [Script.indented_apply_error hs, Script.indented_apply_error (same ▸ hs)]
  · rw [Script.indented_apply_ok hs, Script.indented_apply_ok (same ▸ hs)]

theorem WritesWhere.within {s t : Script α} (around : Surroundings) (h : WritesWhere Q s t)
    (enters : ∀ c, P c → Q (around.enter c)) :
    WritesWhere P (Script.within around s) (Script.within around t) := by
  refine ⟨h.1.within around, fun desk here => ?_⟩
  have same := h.2 { desk with context := around.enter desk.context } (enters desk.context here)
  simp only [Script.within, same]

theorem writesWhere_pure (a : α) : WritesWhere P (pure a : Script α) (pure a) :=
  (congruence_kept.pure a).writesWhere

theorem writesWhere_write (text : String) :
    WritesWhere P (Script.write text) (Script.write text) :=
  (kept_write text).writesWhere

theorem writesWhere_line (text : String) : WritesWhere P (Script.line text) (Script.line text) :=
  (kept_line text).writesWhere

theorem writesWhere_condition (cond : Node) :
    WritesWhere P (condition whole cond) (condition whole cond) :=
  (condition_related congruence_kept (whole_kept cond)).writesWhere

theorem writesWhere_each {f g : α → Script Unit} {l : List α}
    (h : ∀ a ∈ l, WritesWhere P (f a) (g a)) :
    WritesWhere P (Script.each f l) (Script.each g l) := by
  induction l with
  | nil => exact writesWhere_pure ()
  | cons a l ih =>
      exact (h a List.mem_cons_self).bind fun _ => ih fun b hb => h b (List.mem_cons_of_mem a hb)

theorem writesWhere_separated {between : Script Unit} {f g : α → Script Unit} {l : List α}
    (hb : Kept between) (h : ∀ a ∈ l, WritesWhere P (f a) (g a)) :
    WritesWhere P (Script.separated between f l) (Script.separated between g l) := by
  induction l with
  | nil => exact writesWhere_pure ()
  | cons a l ih =>
      have first := h a List.mem_cons_self
      cases l with
      | nil => exact first
      | cons b l =>
          have rest := ih fun x hx => h x (List.mem_cons_of_mem a hx)
          exact first.bind fun _ => hb.writesWhere.bind fun _ => rest

theorem statement_of_idle {n : Node} (h : isIdle n.kind = true) : emitStmt n = pure () := by
  rw [emitStmt_eq]
  unfold statement
  generalize n.kind = kind at h
  cases kind <;> first | rfl | cases h

theorem ifStatement_writesWhere {n cond yes : Node} {rest : List Node}
    {inside behind : Script Unit} (hi : n.inner = cond :: yes :: rest)
    (hy : WritesWhere P (block whole yes) inside)
    (hno : WritesWhere P (elseBranch whole rest.head?) behind) :
    WritesWhere P (ifStatement whole n) (do
      Script.write "if "
      condition whole cond
      Script.line " \x7b"
      inside
      behind) := by
  have first : childAt n 0 "condition" = pure cond := by simp only [childAt, hi]; rfl
  have second : childAt n 1 "then branch" = pure yes := by simp only [childAt, hi]; rfl
  have third : n.inner[2]? = rest.head? := by
    rw [hi]
    cases rest <;> rfl
  unfold ifStatement
  rw [first, second, third, pure_bind, pure_bind]
  refine (writesWhere_write _).bind fun _ => (writesWhere_condition cond).bind fun _ => ?_
  exact (writesWhere_line _).bind fun _ => hy.bind fun _ => hno

/-- The text of a node, on a line of its own for `true` and between the braces of a branch for
`false`. -/
structure WrittenIn (P : Context → Prop) (n : Node) (text : Bool → Script Unit)
    (isBranch : Bool) : Prop where
  stmt : WritesWhere P (emitStmt n) (text true)
  inside : WritesWhere P (block whole n) (Script.indented (text false))
  branches : isBranch = true ↔ n.kind = .ifStmt

namespace WrittenIn

variable {n : Node} {text : Bool → Script Unit} {isBranch : Bool}

theorem mono (h : WrittenIn P n text isBranch) (sub : ∀ c, Q c → P c) :
    WrittenIn Q n text isBranch :=
  ⟨h.stmt.mono sub, h.inside.mono sub, h.branches⟩

theorem of_bare (hw : WritesWhere P (emitStmt n) (text true)) (hs : text false = text true)
    (hb : isBranch = true ↔ n.kind = .ifStmt) (hk : n.kind ≠ .compoundStmt) :
    WrittenIn P n text isBranch := by
  refine ⟨hw, ?_, hb⟩
  rw [block, if_neg hk, hs]
  exact hw.indented

theorem of_leaf (hw : WritesWhere P (emitStmt n) (text true)) (hs : text false = text true)
    (hi : n.kind ≠ .ifStmt) (hk : n.kind ≠ .compoundStmt) : WrittenIn P n text false :=
  .of_bare hw hs (by simp [hi]) hk

theorem of_idle (h : isIdle n.kind = true) : WrittenIn P n (fun _ => pure ()) false := by
  refine .of_leaf ?_ rfl ?_ ?_
  · rw [statement_of_idle h]
    exact writesWhere_pure ()
  · intro hk
    simp [hk, isIdle, Kind.isAnnotation] at h
  · intro hk
    simp [hk, isIdle, Kind.isAnnotation] at h

theorem of_act (hi : n.kind ≠ .ifStmt) (hk : n.kind ≠ .compoundStmt) :
    WrittenIn P n (fun _ => emitStmt n) false :=
  .of_leaf (whole_kept n).stmt.writesWhere rfl hi hk

theorem of_compound {body : Script Unit} (hk : n.kind = .compoundStmt)
    (h : WritesWhere P (Script.each emitStmt n.inner) body) :
    WrittenIn P n (fun braces =>
      if braces then do
        Script.line "\x7b"
        Script.indented body
        Script.line "\x7d"
      else body) false := by
  refine ⟨?_, ?_, by simp [hk]⟩
  · rw [emitStmt_eq]
    simp only [statement, hk, if_true]
    exact (writesWhere_line _).bind fun _ => h.indented.bind fun _ => writesWhere_line _
  · simp only [block, hk, if_true, Bool.false_eq_true, if_false]
    exact h.indented

theorem of_ifStatement (hk : n.kind = .ifStmt) (hs : text false = text true)
    (hw : WritesWhere P (ifStatement whole n) (text true)) : WrittenIn P n text true := by
  refine .of_bare ?_ hs (by simp [hk]) (by simp [hk])
  rw [emitStmt_eq]
  simpa only [statement, hk] using hw

theorem elseBranch (hk : n.kind ≠ .null) (h : WrittenIn P n text isBranch) :
    WritesWhere P (elseBranch whole (some n)) (if isBranch then do
        Script.write "\x7d else "
        text true
      else do
        Script.line "\x7d else \x7b"
        Script.indented (text false)
        Script.line "\x7d") := by
  simp only [Emit.elseBranch, if_neg hk, ← h.branches]
  by_cases hb : isBranch = true
  · rw [if_pos hb, if_pos hb]
    exact (writesWhere_write _).bind fun _ => h.stmt
  · rw [if_neg hb, if_neg hb]
    exact (writesWhere_line _).bind fun _ => h.inside.bind fun _ => writesWhere_line _

end WrittenIn

end VFromC.Emit
