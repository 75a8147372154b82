import VFromC.Proofs.Emit.Frame
import VFromC.Proofs.Output.Lines
/-!
Which expressions end the line that they are written on.

The text of an expression is put together from pieces that stay on the line and from the texts of
its parts. Only two forms end a line themselves: a jump, and an assignment whose value is another
assignment. So an expression ends a line just if one of these is reached from it, part by part.
-/
namespace VFromC.Emit
open VFromC.Syntax VFromC.Output

section Parts

/-- What is written of the children of a call. The name of a checked function is replaced and its
last argument left out. -/
def callParts : List Node → List Node
  | [] => []
  | callee :: args =>
      if (plainFunction? callee).isSome then args.take 3
      else if callee.bare.referenceName = "memset" then args
      else callee :: args

/-- What is written of the children of a method call: the object and the arguments, as far as the
method has any in the output. -/
def methodParts : List Node → List Node
  | [] => []
  | member :: args =>
      member.inner.take 1 ++
        if fieldName member.name = "push_back" then args.take 1
        else if fieldName member.name = "size" then []
        else args

/-- What is written of the nodes below one that only C++ has. -/
def cxxParts (n : Node) : Kind → List Node
  | .cxxMemberCallExpr => methodParts n.inner
  | .cxxOperatorCallExpr => (n.inner.drop 1).take 2
  | .exprWithCleanups => if Text.occursIn "basic_string<" n.spelling then [] else n.inner.take 1
  | .materializeTemporaryExpr | .cxxBindTemporaryExpr | .cxxDynamicCastExpr
  | .cxxStaticCastExpr => n.inner.take 1
  | _ => []

/-- The nodes whose texts the text of an expression of a kind is put together from. -/
def partsAs (n : Node) : Kind → List Node
  | .constantExpr | .implicitCastExpr | .parenExpr | .unaryOperator | .memberExpr
  | .unaryExprOrTypeTraitExpr | .cStyleCastExpr => n.inner.take 1
  | .binaryOperator | .compoundAssignOperator | .arraySubscriptExpr => n.inner.take 2
  | .conditionalOperator => n.inner.take 3
  | .callExpr => callParts n.inner
  | .initListExpr => elements n
  | kind => cxxParts n kind

/-- What ends a line at an expression of a kind itself. A `break` does so where it is written. -/
def EndsAs (breaks : Prop) (n : Node) : Kind → Prop
  | .breakStmt => breaks
  | .continueStmt | .gotoStmt => True
  | .binaryOperator => n.opcode = "=" ∧ ∃ right ∈ n.inner[1]?, isAssignment right = true
  | _ => False

/-- A line ends in the text of the expression. -/
inductive EndsLine (breaks : Prop) : Node → Prop
  | itself {n : Node} (h : EndsAs breaks n n.kind) : EndsLine breaks n
  | part {n m : Node} (hm : m ∈ partsAs n n.kind) (h : EndsLine breaks m) : EndsLine breaks n

variable {breaks : Prop} {n : Node}

theorem endsLine_iff :
    EndsLine breaks n ↔
      EndsAs breaks n n.kind ∨ ∃ m ∈ partsAs n n.kind, EndsLine breaks m := by
  constructor
  · rintro (h | ⟨hm, h⟩)
    · exact .inl h
    · exact .inr ⟨_, hm, h⟩
  · rintro (h | ⟨m, hm, h⟩)
    · exact .itself h
    · exact .part hm h

/-- An expression that ends no line itself does so through its parts. -/
theorem endsLine_iff_parts {kind : Kind} (hk : n.kind = kind) (quiet : ¬EndsAs breaks n kind) :
    EndsLine breaks n ↔ ∃ m ∈ partsAs n kind, EndsLine breaks m := by
  subst hk
  rw [endsLine_iff]
  exact or_iff_right quiet

theorem endsLine_iff_itself {kind : Kind} (hk : n.kind = kind) (none : partsAs n kind = []) :
    EndsLine breaks n ↔ EndsAs breaks n kind := by
  subst hk
  rw [endsLine_iff, none]
  simp only [List.not_mem_nil, false_and, exists_false, or_false]

theorem not_endsLine_null (hk : n.kind = .null) : ¬EndsLine breaks n := by
  rw [endsLine_iff_itself hk rfl]
  exact id

end Parts

section Ends

variable {α β : Type} {breaks p q : Prop} {s : Script α} {f : α → Script β}

/-- A script in two parts succeeds at a desk through both of them, at that same desk. -/
theorem Kept.bind_ok {desk : Desk} {b : β} (h : Kept s) (ok : ((s >>= f) desk).result = .ok b) :
    ∃ a, (s desk).result = .ok a ∧ (f a desk).result = .ok b ∧
      ((s >>= f) desk).commands = (s desk).commands ++ (f a desk).commands := by
  have same : (s desk).desk = desk := (h desk).1
  rcases hr : (s desk).result with e | a
  · simp only [Script.bind_apply, hr] at ok
    cases ok
  · simp only [Script.bind_apply, hr, same] at ok ⊢
    exact ⟨a, rfl, ok, rfl⟩

/-- Where it succeeds, the script ends a line just if a proposition holds. At the desks that are
looked at, a `break` is written just if `breaks` holds. -/
def Ends (breaks p : Prop) (s : Script α) : Prop :=
  Kept s ∧ ∀ desk, (desk.context.switchDepth = 0 ↔ breaks) → ∀ a, (s desk).result = .ok a →
    ((∃ c ∈ (s desk).commands, c.Ends) ↔ p)

theorem Ends.of_iff (h : Ends breaks p s) (same : p ↔ q) : Ends breaks q s := by
  rwa [← propext same]

theorem Ends.bind (hs : Ends breaks p s) (hf : ∀ a, Ends breaks q (f a)) :
    Ends breaks (p ∨ q) (s >>= f) := by
  refine ⟨hs.1.bind fun a => (hf a).1, fun desk here b ok => ?_⟩
  obtain ⟨a, first, second, both⟩ := hs.1.bind_ok ok
  rw [both, ← hs.2 desk here a first, ← (hf a).2 desk here b second]
  simp only [List.mem_append, or_and_right, exists_or]

/-- What follows the end of a line does not take it back. -/
theorem Ends.before (hs : Ends breaks True s) (hf : ∀ a, Kept (f a)) :
    Ends breaks True (s >>= f) := by
  refine ⟨hs.1.bind hf, fun desk here b ok => iff_true_intro ?_⟩
  obtain ⟨a, first, -, both⟩ := hs.1.bind_ok ok
  obtain ⟨c, hc, ends⟩ := (hs.2 desk here a first).mpr trivial
  rw [both]
  exact ⟨c, List.mem_append_left _ hc, ends⟩

theorem Ends.after (hs : Kept s) (hf : ∀ a, Ends breaks True (f a)) :
    Ends breaks True (s >>= f) := by
  refine ⟨hs.bind fun a => (hf a).1, fun desk here b ok => iff_true_intro ?_⟩
  obtain ⟨a, -, second, both⟩ := hs.bind_ok ok
  obtain ⟨c, hc, ends⟩ := ((hf a).2 desk here b second).mpr trivial
  rw [both]
  exact ⟨c, List.mem_append_right _ hc, ends⟩

theorem ends_command {c : Command} (h : Kept (Script.command c)) :
    Ends breaks c.Ends (Script.command c) :=
  ⟨h, fun _ _ _ _ => by simp only [Script.command, List.mem_singleton, exists_eq_left]⟩

theorem ends_line (text : String) : Ends breaks True (Script.line text) :=
  ends_command (c := .line text) (kept_line text)

theorem ends_endLine : Ends breaks True Script.endLine :=
  ends_command (c := .endLine) kept_endLine

theorem break_ends :
    Ends breaks breaks (Script.context >>= fun context =>
      Script.when (context.switchDepth = 0) (Script.line "break")) := by
  have kept (c : Context) : Kept (Script.when (c.switchDepth = 0) (Script.line "break")) :=
    congruence_kept.when (t := Script.line "break") _ (kept_line _)
  refine ⟨(kept_of_quiet (fun _ => rfl) fun _ => rfl).bind kept, fun desk here _ _ => ?_⟩
  rw [← here]
  by_cases zero : desk.context.switchDepth = 0
  · simp [Script.bind_apply, Script.context, Script.when, Script.line, Script.command, zero,
      Command.Ends]
  · simp [Script.bind_apply, Script.context, Script.when, Script.pure_apply, zero]

theorem ends_fail (e : Fault) : Ends breaks p (Script.fail e : Script α) := by
  refine ⟨kept_of_quiet (fun _ => rfl) fun _ => rfl, fun desk _ a ok => ?_⟩
  cases ok

theorem Ends.within {around : Surroundings} (h : Ends breaks p s)
    (keeps : ∀ c, (around.enter c).switchDepth = c.switchDepth) :
    Ends breaks p (Script.within around s) :=
  ⟨h.1.within around, fun desk here a ok => h.2 _ (by rw [keeps]; exact here) a ok⟩

theorem childAt_ends {n : Node} {position : Nat} {expected : String} {f : Node → Script α}
    (h : ∀ child, n.inner[position]? = some child → Ends breaks p (f child)) :
    Ends breaks p (childAt n position expected >>= f) := by
  unfold childAt
  split
  · rename_i child hc
    rw [pure_bind]
    exact h child hc
  · exact ends_fail _

theorem Kept.separated {between : Script Unit} {f : α → Script Unit} {l : List α}
    (hb : Kept between) (h : ∀ a ∈ l, Kept (f a)) : Kept (Script.separated between f l) :=
  @Congruence.separated _ α congruence_kept.toCongruence between between hb f f l h

/-- All scripts but the last end their line. -/
theorem separated_ends {f : α → Script Unit} {P : α → Prop} {l : List α}
    (h : ∀ a ∈ l, Ends breaks (P a) (f a)) :
    Ends breaks (2 ≤ l.length ∨ ∃ a ∈ l, P a) (Script.separated Script.endLine f l) := by
  rcases l with _ | ⟨a, _ | ⟨b, l⟩⟩
  · refine Ends.of_iff (p := False) ⟨congruence_kept.pure (), fun _ _ _ _ => ?_⟩ ?_
    · simp [Script.separated, Script.pure_apply]
    · simp
  · exact (h a List.mem_cons_self).of_iff (by simp)
  · have kept : Kept (Script.separated Script.endLine f (b :: l)) :=
      .separated kept_endLine fun x hx => (h x (List.mem_cons_of_mem a hx)).1
    have ends : Ends breaks True (Script.separated Script.endLine f (a :: b :: l)) :=
      .after (h a List.mem_cons_self).1 fun _ => ends_endLine.before fun _ => kept
    exact ends.of_iff (by simp)

end Ends

section Consists

variable {α β : Type} {breaks : Prop} {s : Script α} {l l' : List Node}

/-- The script writes the texts of some nodes and besides them nothing that ends a line. -/
def Consists (breaks : Prop) (parts : List Node) (s : Script α) : Prop :=
  Ends breaks (∃ m ∈ parts, EndsLine breaks m) s

theorem Consists.bind {f : α → Script β} (hs : Consists breaks l s)
    (hf : ∀ a, Consists breaks l' (f a)) : Consists breaks (l ++ l') (s >>= f) := by
  refine (Ends.bind hs hf).of_iff ?_
  simp only [List.mem_append, or_and_right, exists_or]

theorem Consists.followed {f : α → Script β} (hs : Consists breaks l s)
    (hf : ∀ a, Consists breaks [] (f a)) : Consists breaks l (s >>= f) := by
  rw [← List.append_nil l]
  exact hs.bind hf

theorem consists_quiet (kept : Kept s)
    (h : ∀ desk a, (s desk).result = .ok a → ∀ c ∈ (s desk).commands, ¬c.Ends) :
    Consists breaks [] s := by
  refine ⟨kept, fun desk _ a ok => ⟨?_, ?_⟩⟩
  · rintro ⟨c, hc, ends⟩
    exact absurd ends (h desk a ok c hc)
  · rintro ⟨m, hm, -⟩
    exact absurd hm List.not_mem_nil

theorem consists_silent (hd : ∀ desk, (s desk).desk = desk) (hc : ∀ desk, (s desk).commands = []) :
    Consists breaks [] s := by
  refine consists_quiet (kept_of_quiet hd hc) fun desk _ _ c h => ?_
  rw [hc] at h
  exact absurd h List.not_mem_nil

theorem consists_pure (a : α) : Consists breaks [] (pure a : Script α) :=
  consists_silent (fun _ => rfl) fun _ => rfl

theorem consists_context : Consists breaks [] Script.context :=
  consists_silent (fun _ => rfl) fun _ => rfl

theorem consists_symbols : Consists breaks [] Script.symbols :=
  consists_silent (fun _ => rfl) fun _ => rfl

theorem consists_command {c : Command} (kept : Kept (Script.command c)) (h : ¬c.Ends) :
    Consists breaks [] (Script.command c) :=
  consists_quiet kept fun _ _ _ _ hc => List.mem_singleton.mp hc ▸ h

theorem consists_write (text : String) : Consists breaks [] (Script.write text) :=
  consists_command (kept_write text) id

theorem consists_note (text : String) : Consists breaks [] (Script.note text) :=
  consists_command (congruence_kept.note text) id

theorem firstChild_consists {n : Node} {expected : String} {f : Node → Script α}
    (h : ∀ child, Consists breaks [child] (f child)) :
    Consists breaks (n.inner.take 1) (childAt n 0 expected >>= f) := by
  refine childAt_ends fun child hc => ?_
  rw [List.take_one, List.head?_eq_getElem?, hc]
  exact h child

theorem firstTwo_consists {n : Node} {first second : String} {f : Node → Node → Script α}
    (h : ∀ left right, Consists breaks [left, right] (f left right)) :
    Consists breaks (n.inner.take 2)
      (childAt n 0 first >>= fun left => childAt n 1 second >>= fun right => f left right) := by
  refine childAt_ends fun left hl => childAt_ends fun right hr => ?_
  have both : n.inner.take 2 = [left, right] := by simp [List.take_add_one, hl, hr]
  rw [both]
  exact h left right

theorem Consists.when {s : Script Unit} {c : Prop} [Decidable c] (h : Consists breaks [] s) :
    Consists breaks [] (Script.when c s) := by
  unfold Script.when
  split
  · exact h
  · exact consists_pure ()

theorem consists_forSome {f : Node → Script Unit} {o : Option Node}
    (h : ∀ m, Consists breaks [m] (f m)) : Consists breaks o.toList (Script.forSome f o) := by
  cases o with
  | none => exact consists_pure ()
  | some m => exact h m

theorem consists_each {f : α → Script Unit} {items : List α} (h : ∀ a, Consists breaks [] (f a)) :
    Consists breaks [] (Script.each f items) := by
  induction items with
  | nil => exact consists_pure ()
  | cons a rest ih => exact (h a).bind fun _ => ih

theorem consists_separated {between : Script Unit} (hb : Consists breaks [] between)
    {f : Node → Script Unit} (h : ∀ m, Consists breaks [m] (f m)) :
    Consists breaks l (Script.separated between f l) := by
  induction l with
  | nil => exact consists_pure ()
  | cons m l ih =>
      cases l with
      | nil => exact h m
      | cons k l => exact (h m).bind fun _ => hb.bind fun _ => ih

end Consists

section Expressions

variable {breaks : Prop} {em : Emitter} {n : Node}

theorem consists_of_ends {α : Type} {m : Node} {s : Script α}
    (h : Ends breaks (EndsLine breaks m) s) : Consists breaks [m] s :=
  h.of_iff (by simp)

/-- A script for an expression that ends no line itself. -/
theorem Consists.ends {α : Type} {s : Script α} {kind : Kind} (hk : n.kind = kind)
    (quiet : ¬EndsAs breaks n kind) (h : Consists breaks (partsAs n kind) s) :
    Ends breaks (EndsLine breaks n) s :=
  Ends.of_iff h (endsLine_iff_parts hk quiet).symm

theorem reference_consists : Consists breaks [] (reference n) := by
  unfold reference
  split
  · exact consists_write _
  · refine consists_symbols.bind fun _ => consists_context.bind fun _ => ?_
    exact consists_command (kept_command trivial fun _ => rfl) id

variable (below : ∀ m, Ends breaks (EndsLine breaks m) (em.expr m))

include below

theorem expr_consists (m : Node) : Consists breaks [m] (em.expr m) := consists_of_ends (below m)

theorem value_consists (m : Node) : Consists breaks [m] (em.value m) :=
  (expr_consists below m).bind fun _ => consists_pure ()

theorem infixOperator_consists (op : String) (left right : Node) :
    Consists breaks [left, right] (infixOperator em op left right) :=
  (value_consists below left).bind fun _ => (consists_write _).bind fun _ =>
    value_consists below right

theorem writeAssignments_kept (source : Node) (targets : List Node) :
    Kept (writeAssignments em source targets) := by
  have value (m : Node) : Kept (em.value m) := (value_consists below m).1
  induction targets generalizing source with
  | nil => exact congruence_kept.pure ()
  | cons target rest ih =>
      refine (value target).bind fun _ => (kept_write _).bind fun _ => ?_
      have ending : Kept (Script.when (rest ≠ []) Script.endLine) :=
        congruence_kept.when (t := Script.endLine) _ kept_endLine
      exact (value source).bind fun _ => ending.bind fun _ => ih target

/-- Of several assignments all but the last end their line. -/
theorem writeAssignments_ends {source target : Node} {rest : List Node} (more : rest ≠ []) :
    Ends breaks True (writeAssignments em source (target :: rest)) := by
  refine .after (value_consists below target).1 fun _ => .after (kept_write _) fun _ => ?_
  refine .after (value_consists below source).1 fun _ => ?_
  have first : Ends breaks True (Script.when (rest ≠ []) Script.endLine) := by
    rw [Script.when, if_pos more]
    exact ends_endLine
  exact first.before fun _ => writeAssignments_kept below target rest

omit below in
theorem assignmentChain_ne_nil {chain : List Node × Node} (ha : isAssignment n = true)
    (h : assignmentChain n = .ok chain) : chain.1 ≠ [] := by
  obtain ⟨info, filler, inner⟩ := n
  unfold assignmentChain at h
  rw [if_pos ha] at h
  rcases inner with _ | ⟨target, _ | ⟨source, rest⟩⟩
  · cases h
  · cases h
  · dsimp only at h
    cases hs : assignmentChain source with
    | error e =>
        rw [hs] at h
        cases h
    | ok inside =>
        rw [hs] at h
        cases h
        exact List.cons_ne_nil _ _

theorem chainedAssignment_ends {left right : Node} (ha : isAssignment right = true) :
    Ends breaks True (chainedAssignment em left right) := by
  unfold chainedAssignment
  cases hc : assignmentChain right with
  | error e => exact ends_fail e
  | ok chain =>
      change Ends breaks True (pure chain >>= _)
      rw [pure_bind]
      -- The innermost target comes first, and at least the one on the left comes after it.
      obtain ⟨target, before, order⟩ := List.exists_cons_of_ne_nil (l := chain.1.reverse)
        (by simpa using assignmentChain_ne_nil ha hc)
      rw [List.reverse_cons, order, List.cons_append]
      exact writeAssignments_ends below (by simp)

theorem binaryOperator_ends (hk : n.kind = .binaryOperator) :
    Ends breaks (EndsLine breaks n) (binaryOperator em n) := by
  refine childAt_ends fun left hl => childAt_ends fun right hr => ?_
  have chain : EndsAs breaks n .binaryOperator ↔ (n.opcode = "=" && isAssignment right) = true := by
    simp [EndsAs, hr]
  split
  · rename_i both
    have ends : EndsLine breaks n := .itself (hk ▸ chain.mpr both)
    have ha : isAssignment right = true := (Bool.and_eq_true_iff.mp both).2
    have chained : Ends breaks True (chainedAssignment em left right >>= fun _ => pure false) :=
      (chainedAssignment_ends below ha).before fun _ => congruence_kept.pure false
    exact chained.of_iff (by simp only [ends])
  · rename_i plain
    have parts : partsAs n .binaryOperator = [left, right] := by
      simp [partsAs, List.take_add_one, hl, hr]
    refine Consists.ends hk (fun h => plain (chain.mp h)) ?_
    rw [parts]
    exact (infixOperator_consists below _ left right).bind fun _ => consists_pure _

theorem compoundAssignment_consists : Consists breaks (n.inner.take 2) (compoundAssignment em n) :=
  firstTwo_consists fun left right => infixOperator_consists below n.opcode left right

theorem unaryOperator_consists : Consists breaks (n.inner.take 1) (unaryOperator em n) := by
  refine firstChild_consists fun operand => ?_
  have value := value_consists below operand
  have signed : Consists breaks [operand] (signedOperand em n.opcode operand) := by
    unfold signedOperand
    split
    · exact value.bind fun _ => consists_write _
    · split
      · exact value
      · exact (consists_write _).bind fun _ => value
  exact signed.bind fun _ => consists_pure _

theorem conditionalOperator_consists :
    Consists breaks (n.inner.take 3) (conditionalOperator em n) := by
  refine childAt_ends fun cond hc => childAt_ends fun yes hy => childAt_ends fun no hn => ?_
  have parts : n.inner.take 3 = [cond, yes, no] := by simp [List.take_add_one, hc, hy, hn]
  rw [parts]
  have test : Consists breaks [cond] (Script.within .condition (em.value cond)) :=
    Ends.within (value_consists below cond) fun _ => rfl
  refine (consists_write _).bind fun _ => test.bind fun _ => (consists_write _).bind fun _ => ?_
  refine (value_consists below yes).bind fun _ => (consists_write _).bind fun _ => ?_
  exact (value_consists below no).bind fun _ => consists_write _

theorem memberAccess_consists : Consists breaks (n.inner.take 1) (memberAccess em n) :=
  firstChild_consists fun base => (value_consists below base).bind fun _ => (consists_write _).when

theorem arraySubscript_consists : Consists breaks (n.inner.take 2) (arraySubscript em n) := by
  refine firstTwo_consists fun base index => ?_
  refine (value_consists below base).bind fun _ => (consists_write _).bind fun _ => ?_
  refine consists_symbols.bind fun known => ?_
  have inside : Consists breaks [index] (Script.within .index do
      Script.when (isEnumVariable known index.bare) (Script.write "int(")
      em.value index
      Script.when (isEnumVariable known index.bare) (Script.write ")")) := by
    refine Ends.within (Consists.bind (consists_write _).when fun _ => ?_) fun _ => rfl
    exact (value_consists below index).bind fun _ => (consists_write _).when
  exact inside.bind fun _ => consists_write _

theorem arguments_consists (args : List Node) : Consists breaks args (arguments em args) :=
  consists_separated (consists_write _) (value_consists below)

theorem call_consists : Consists breaks (callParts n.inner) (call em n) := by
  refine childAt_ends fun callee hc => ?_
  obtain ⟨args, hi⟩ : ∃ args, n.inner = callee :: args := by
    rcases hi : n.inner with _ | ⟨first, args⟩
    · simp [hi] at hc
    · simp only [hi, List.getElem?_cons_zero, Option.some.injEq] at hc
      exact ⟨args, by rw [hc]⟩
  have rest (args : List Node) : Consists breaks args (do
      Script.write "("
      arguments em args
      Script.write ")") :=
    (consists_write _).bind fun _ => (arguments_consists below args).followed fun _ =>
      consists_write _
  simp only [hi, callParts, calledFunction, List.drop_one, List.tail_cons]
  cases plainFunction? callee with
  | some text => exact (consists_write _).bind fun _ => rest (args.take 3)
  | none =>
      by_cases filled : callee.bare.referenceName = "memset"
      · simp only [filled, if_true]
        exact (consists_write _).bind fun _ => rest args
      · simp only [filled, if_false]
        exact (value_consists below callee).bind fun _ => rest args

omit below in
theorem calledMember_ends {p : Prop} {f : Node → Script Unit}
    (h : ∀ member args, n.inner = member :: args → Ends breaks p (f member)) :
    Ends breaks p (calledMember n >>= f) := by
  simp only [calledMember, Children.nextOf, Children.remaining, List.drop_zero]
  rcases hi : n.inner with _ | ⟨child, args⟩
  · exact ends_fail _
  · by_cases member : child.kind = .memberExpr
    · simp only [member, if_true, pure_bind]
      exact h child args hi
    · simp only [member, if_false, bind_assoc, Script.fail_bind]
      refine Ends.of_iff (p := False ∨ p) ?_ (by simp)
      have quiet : Consists breaks [] (Script.each (fun entry => Script.command (.note entry))
          [({ parent := n } : Children).mismatch .memberExpr child.kind]) :=
        consists_each fun entry => consists_command (kept_command trivial fun _ => rfl) id
      exact (Ends.of_iff quiet (by simp)).bind fun _ => ends_fail _

theorem methodCall_consists : Consists breaks (methodParts n.inner) (methodCall em n) := by
  refine calledMember_ends fun member args hi => ?_
  have text : Consists breaks
      (if fieldName member.name = "push_back" then args.take 1
        else if fieldName member.name = "size" then [] else args)
      (methodText em n (fieldName member.name)) := by
    have second : n.inner[1]? = args.head? := by simp [hi, List.head?_eq_getElem?]
    unfold methodText
    split
    · rw [second, List.take_one]
      exact (consists_write _).bind fun _ => consists_forSome (value_consists below)
    · split
      · exact consists_write _
      · rw [hi, List.drop_one, List.tail_cons]
        exact (consists_write _).bind fun _ => (arguments_consists below args).followed fun _ =>
          consists_write _
  rw [hi]
  refine childAt_ends fun object ho => ?_
  have parts : member.inner.take 1 = [object] := by simp [List.take_add_one, ho]
  rw [methodParts, parts]
  exact Consists.bind (value_consists below object) fun _ => text

theorem operatorCall_consists : Consists breaks ((n.inner.drop 1).take 2) (operatorCall em n) := by
  refine childAt_ends fun callee _ => childAt_ends fun left hl => ?_
  have parts : (n.inner.drop 1).take 2 = left :: n.inner[2]?.toList := by
    simp [List.take_add_one, hl]
  rw [parts]
  refine Consists.bind (value_consists below left) fun _ => ?_
  cases n.inner[2]? with
  | none => exact consists_write _
  | some right => exact (consists_write _).bind fun _ => value_consists below right

/-- An element that is left to its type is written as a zero, which ends no line. -/
theorem element_consists (m : Node) : Consists breaks [m] (element em m) := by
  unfold element
  split
  · rename_i hk
    exact consists_of_ends (Consists.ends hk id (consists_write _))
  · exact value_consists below m

theorem initializerList_consists : Consists breaks (elements n) (initializerList em n) := by
  have values : Consists breaks (elements n)
      (Script.separated (Script.write ", ") (element em) (elements n)) :=
    consists_separated (consists_write _) (element_consists below)
  exact (consists_write _).bind fun _ => values.followed fun _ => consists_write _

/-- Parentheses end a line just if what is in them does, so that nothing changes without them. -/
theorem sizeOperand_consists : Consists breaks (n.inner.take 1) (sizeOperand em n) := by
  unfold sizeOperand
  rw [List.take_one, Node.firstChild?]
  cases n.inner.head? with
  | none => exact consists_write _
  | some operand =>
      by_cases hk : operand.kind = .parenExpr
      · simp only [hk, if_true]
        rcases hc : operand.firstChild? with _ | child
        · exact value_consists below operand
        · refine consists_of_ends (Consists.ends hk id ?_)
          change Consists breaks (operand.inner.take 1) (em.value child)
          rw [List.take_one, ← Node.firstChild?, hc]
          exact value_consists below child
      · simp only [hk, if_false]
        exact value_consists below operand

theorem sizeOperator_consists : Consists breaks (n.inner.take 1) (sizeOperator em n) :=
  (consists_write _).bind fun _ => (sizeOperand_consists below).followed fun _ => consists_write _

theorem firstOnly_consists : Consists breaks (n.inner.take 1) (firstOnly em n) := by
  rw [List.take_one]
  exact consists_forSome (value_consists below)

theorem withCleanups_consists :
    Consists breaks (if Text.occursIn "basic_string<" n.spelling then [] else n.inner.take 1)
      (withCleanups em n) := by
  unfold withCleanups
  split
  · cases n.descendant? .stringLiteral with
    | none => exact consists_pure ()
    | some literal => exact consists_write _
  · exact firstOnly_consists below

theorem checkedCast_consists : Consists breaks (n.inner.take 1) (checkedCast em n) :=
  (consists_write _).bind fun _ => firstChild_consists fun operand =>
    (value_consists below operand).followed fun _ => consists_write _

theorem parenthesized_consists : Consists breaks (n.inner.take 1) (parenthesized em n) := by
  refine firstChild_consists fun child => consists_context.bind fun context => ?_
  refine (consists_write _).when.bind fun _ => (expr_consists below child).bind fun _ => ?_
  exact (consists_write _).when.bind fun _ => consists_pure _

theorem castExpression_consists : Consists breaks (n.inner.take 1) (castExpression em n) := by
  refine firstChild_consists fun operand => ?_
  split
  · exact expr_consists below operand
  · refine Consists.followed ?_ fun _ => consists_pure _
    exact (consists_write _).bind fun _ => (value_consists below operand).followed fun _ =>
      consists_write _

theorem cxxExpression_consists : Consists breaks (cxxParts n n.kind) (cxxExpression em n) := by
  have plain {s : Script Unit} {kind : Kind} (hk : n.kind = kind)
      (h : Consists breaks (cxxParts n kind) s) :
      Consists breaks (cxxParts n n.kind) (s >>= fun _ => pure true) := by
    rw [hk]
    exact h.followed fun _ => consists_pure _
  unfold cxxExpression
  split <;> rename_i hk
  · exact plain hk (consists_write _).when
  · exact plain hk (methodCall_consists below)
  · exact plain hk (operatorCall_consists below)
  · exact plain hk (withCleanups_consists below)
  · exact plain hk (firstOnly_consists below)
  · exact plain hk (firstOnly_consists below)
  · exact plain hk (checkedCast_consists below)
  · exact plain hk (checkedCast_consists below)
  iterate 3 exact plain hk (consists_write _)
  iterate 10 exact plain hk (consists_note _)
  · have none : cxxParts n n.kind = [] := by
      unfold cxxParts
      split <;> first | rfl | contradiction
    rw [none]
    exact consists_pure false

omit below in
theorem jump_ends
    (hk : n.kind = .breakStmt ∨ n.kind = .continueStmt ∨ n.kind = .gotoStmt) :
    Ends breaks (EndsLine breaks n) (jump n) := by
  unfold jump
  rcases hk with hk | hk | hk <;> rw [endsLine_iff_itself hk rfl] <;> simp only [hk]
  · exact break_ends
  · exact ends_line _
  · exact ends_command (kept_command trivial fun _ => rfl)

theorem expressionBody_ends : Ends breaks (EndsLine breaks n) (expressionBody em n) := by
  have plain {s : Script Unit} {kind : Kind} (hk : n.kind = kind) (quiet : ¬EndsAs breaks n kind)
      (h : Consists breaks (partsAs n kind) s) :
      Ends breaks (EndsLine breaks n) (s >>= fun _ => pure (literalIsBool n)) :=
    Consists.ends hk quiet (h.followed fun _ => consists_pure _)
  have ended {s : Script Unit} (h : Ends breaks (EndsLine breaks n) s) :
      Ends breaks (EndsLine breaks n) (s >>= fun _ => pure (literalIsBool n)) :=
    ((consists_of_ends h).followed fun _ => consists_pure _).of_iff (by simp)
  have wrapped : Consists breaks (n.inner.take 1) (childAt n 0 "operand" >>= em.expr) :=
    firstChild_consists (expr_consists below)
  unfold expressionBody
  split <;> rename_i hk
  · exact Consists.ends hk id (consists_pure false)
  · exact Consists.ends hk id (consists_pure false)
  · exact plain hk id (consists_context.bind fun _ => consists_write _)
  · exact plain hk id (consists_write _)
  · exact plain hk id (consists_write _)
  · exact plain hk id (consists_write _)
  · exact Consists.ends hk id wrapped
  · exact Consists.ends hk id wrapped
  · exact Consists.ends hk id (parenthesized_consists below)
  · exact binaryOperator_ends below hk
  · exact plain hk id (compoundAssignment_consists below)
  · exact Consists.ends hk id (unaryOperator_consists below)
  · exact plain hk id (conditionalOperator_consists below)
  · exact plain hk id reference_consists
  · exact plain hk id (memberAccess_consists below)
  · exact plain hk id (call_consists below)
  · exact plain hk id (arraySubscript_consists below)
  · exact plain hk id (sizeOperator_consists below)
  · exact plain hk id (initializerList_consists below)
  · exact plain hk id (consists_write _)
  · exact Consists.ends hk id (castExpression_consists below)
  · exact ended (jump_ends (.inl hk))
  · exact ended (jump_ends (.inr (.inl hk)))
  · exact ended (jump_ends (.inr (.inr hk)))
  iterate 7 exact plain hk id (consists_note _)
  · have quiet : ¬EndsAs breaks n n.kind := by
      unfold EndsAs
      split <;> first | exact id | contradiction
    have parts : partsAs n n.kind = cxxParts n n.kind := by
      unfold partsAs
      split <;> first | rfl | contradiction
    refine Consists.ends rfl quiet ?_
    rw [parts]
    refine (cxxExpression_consists below).followed fun isCxx => ?_
    split
    · exact consists_pure _
    · unfold unhandled
      split
      · exact consists_pure _
      · exact ends_fail _

theorem expression_ends : Ends breaks (EndsLine breaks n) (expression em n) := by
  refine Ends.within (expressionBody_ends below) fun c => ?_
  dsimp only [Surroundings.expression]
  split <;> rfl

end Expressions

theorem emitter_ends (breaks : Prop) (depth : Nat) (n : Node) :
    Ends breaks (EndsLine breaks n) ((emitter depth).expr n) := by
  induction depth generalizing n with
  | zero => exact ends_fail _
  | succ depth ih => exact expression_ends ih

/-- Where it is written, an expression ends a line just if a jump or an assignment of an assignment
is reached from it. -/
theorem whole_ends (breaks : Prop) (n : Node) :
    Ends breaks (EndsLine breaks n) (whole.expr n) :=
  emitter_ends breaks n.height n

end VFromC.Emit
