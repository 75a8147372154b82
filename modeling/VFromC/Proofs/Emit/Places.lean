import VFromC.Proofs.Emit.Whole
/-!
Members of enumerations, by the place where they are referred to.

The emitters of this module are given the place of a node as an argument and pass it on to the nodes
below it. They agree with the emitters that keep track of the place in the context.
-/
namespace VFromC.Emit
open VFromC.Syntax VFromC.Output

/-- The place of a node in a function: whether it is part of an index, and the innermost switch
around it. -/
structure Setting where
  inIndex : Bool := false
  switch : Option Node := none

/-- The enumeration that a switch statement is about. -/
def switchEnumOf (symbols : Symbols) (switch : Node) : Option String :=
  match switch.inner[0]?, (switch.inner.drop 1).getLast? with
  | some condition, some body =>
      match collectArms body with
      | .ok arms => switchEnum? symbols condition arms
      | .error _ => none
  | _, _ => none

namespace Setting

def index (p : Setting) : Setting := { p with inIndex := true }

def inside (p : Setting) (switch : Node) : Setting := { p with switch := some switch }

def switchEnum (p : Setting) (symbols : Symbols) : Option String :=
  p.switch.bind (switchEnumOf symbols)

end Setting

/-- A member of an enumeration as it is written at a place. -/
def memberAt (symbols : Symbols) (p : Setting) (name : String) : String :=
  let member := Ident.spellMember name
  match symbols.enumOf member with
  | none => if p.inIndex then "int(" ++ member ++ ")" else member
  | some owner =>
      if p.inIndex then "int(" ++ (owner ++ "." ++ member) ++ ")"
      else if p.switchEnum symbols = some owner then "." ++ member
      else owner ++ "." ++ member

/-- Only what is known of members matters to a member. -/
theorem memberAt_congr {known known' : Symbols} (h : known.members = known'.members) (p : Setting)
    (name : String) : memberAt known p name = memberAt known' p name := by
  have owner (member : String) : known.enumOf member = known'.enumOf member := by
    simp only [Symbols.enumOf, h]
  have switch : p.switchEnum known = p.switchEnum known' := by
    simp only [Setting.switchEnum]
    congr 1
    funext n
    simp only [switchEnumOf, switchEnum?, owner]
  simp only [memberAt, owner, switch]

def referenceAt (p : Setting) (n : Node) : Script Unit :=
  match n.info.reference with
  | none => reference n
  | some ref =>
      if ref.kind = .enumConstantDecl then do
        Script.command (.refer ref (memberAt (← Script.symbols) p ref.name))
      else reference n

/-- What is between the brackets of a subscript. -/
def indexText (em : Emitter) (isEnum : Bool) (index : Node) : Script Unit := do
  Script.when isEnum (Script.write "int(")
  em.value index
  Script.when isEnum (Script.write ")")

/-- Only what is between the brackets stands in the index. -/
def subscriptAt (em : Setting → Emitter) (p : Setting) (n : Node) : Script Unit := do
  let base ← childAt n 0 "base"
  let index ← childAt n 1 "index"
  (em p).value base
  Script.write "["
  indexText (em p.index) (isEnumVariable (← Script.symbols) index.bare) index
  Script.write "]"

/-- The inside of a switch, where a `break` leaves the switch. -/
def Surroundings.arms : Surroundings where
  enter c := { c with switchDepth := c.switchDepth + 1 }
  leave _ c := { c with switchDepth := c.switchDepth - 1 }
  leave_enter _ := rfl

/-- Everything in a switch stands in the switch, its condition and its labels too. -/
def switchAt (em : Setting → Emitter) (p : Setting) (n : Node) : Script Unit := do
  let condition ← childAt n 0 "condition"
  let body ← switchBody n
  let arms ← Script.ofExcept (collectArms body)
  let owner := switchEnum? (← Script.symbols) condition arms
  Script.note s!"switch with {arms.length} arms over {enumWord owner}"
  Script.within .arms (matchArms (em (p.inside n)) owner condition arms)

/-- Below all other nodes the place is the same as at the node. -/
def expressionAt (em : Setting → Emitter) (p : Setting) (n : Node) : Script Bool :=
  match n.kind with
  | .declRefExpr => Script.within (.expression n.kind) do
      referenceAt p n
      pure (literalIsBool n)
  | .arraySubscriptExpr => Script.within (.expression n.kind) do
      subscriptAt em p n
      pure (literalIsBool n)
  | _ => expression (em p) n

def statementAt (em : Setting → Emitter) (p : Setting) (n : Node) : Script Unit :=
  match n.kind with
  | .switchStmt => switchAt em p n
  | .declRefExpr | .arraySubscriptExpr => do
      let _ ← expressionAt em p n
      Script.endLine
  | _ => statement (em p) n

/-- The emitter for trees of at most `depth` levels that stand at a place. -/
def emitterAt : Nat → Setting → Emitter
  | 0, _ => emitter 0
  | depth + 1, p =>
      { expr := expressionAt (emitterAt depth) p
        stmt := statementAt (emitterAt depth) p }

/-- The emitter of whole trees that stand at a place. -/
def wholeAt (p : Setting) : Emitter where
  expr n := (emitterAt n.height p).expr n
  stmt n := (emitterAt n.height p).stmt n

def Desk.placed (desk : Desk) (switchEnum : Option String) (inIndex : Bool) : Desk :=
  { desk with context := desk.context.placed switchEnum inIndex }

/-- The symbols are the given ones, and the context says what the place is. -/
structure Desk.IsAt (known : Symbols) (p : Setting) (desk : Desk) : Prop where
  symbols : desk.symbols = known
  inIndex : desk.context.inIndex = p.inIndex
  switchEnum : desk.context.switchEnum = p.switchEnum known

variable {known : Symbols} {p : Setting} {α β : Type}

/-- At a desk that is at the place, the first script does what the second one does whatever the
context there says about the place. Both leave their desks as they were. -/
def SameAt (known : Symbols) (p : Setting) (s t : Script α) : Prop :=
  ∀ desk : Desk, desk.IsAt known p → ∀ switchEnum inIndex, ∃ commands result,
    s desk = ⟨commands, desk, result⟩ ∧
      t (desk.placed switchEnum inIndex) = ⟨commands, desk.placed switchEnum inIndex, result⟩

theorem sameAt_quiet {s : Script α} {r : Except Fault α} (h : ∀ desk, s desk = ⟨[], desk, r⟩) :
    SameAt known p s s :=
  fun desk _ _ _ => ⟨[], r, h desk, h _⟩

theorem sameAt_command (c : Command) :
    SameAt known p (Script.command c) (Script.command c) :=
  fun _ _ _ _ => ⟨[c], .ok (), rfl, rfl⟩

theorem SameAt.bind {s t : Script α} {f g : α → Script β} (hs : SameAt known p s t)
    (hf : ∀ a, SameAt known p (f a) (g a)) : SameAt known p (s >>= f) (t >>= g) := by
  intro desk at_ switchEnum inIndex
  obtain ⟨commands, result, first, second⟩ := hs desk at_ switchEnum inIndex
  cases result with
  | error e =>
      exact ⟨commands, .error e, Script.bind_apply_error first, Script.bind_apply_error second⟩
  | ok a =>
      obtain ⟨more, result, first', second'⟩ := hf a desk at_ switchEnum inIndex
      refine ⟨commands ++ more, result, ?_, ?_⟩
      · rw [Script.bind_apply_ok first, first']
      · rw [Script.bind_apply_ok second, second']

theorem sameAt_symbols_bind {f g : Symbols → Script α}
    (h : SameAt known p (f known) (g known)) :
    SameAt known p (Script.symbols >>= f) (Script.symbols >>= g) := by
  intro desk at_ switchEnum inIndex
  obtain ⟨commands, result, first, second⟩ := h desk at_ switchEnum inIndex
  refine ⟨commands, result, ?_, ?_⟩
  · change f desk.symbols desk = _
    rw [at_.symbols, first]
  · change g desk.symbols (desk.placed switchEnum inIndex) = _
    rw [at_.symbols, second]

/-- Surroundings that tell of a place take the first script there. The second script does not see
what they tell. -/
theorem SameAt.within {around around' : Surroundings} {q : Setting} {s t : Script α}
    (enters : ∀ desk : Desk, desk.IsAt known p →
      Desk.IsAt known q { desk with context := around.enter desk.context })
    (same : ∀ (c : Context) switchEnum inIndex,
      around'.enter (c.placed switchEnum inIndex) = (around.enter c).placed switchEnum inIndex)
    (h : SameAt known q s t) :
    SameAt known p (Script.within around s) (Script.within around' t) := by
  intro desk at_ switchEnum inIndex
  obtain ⟨commands, result, first, second⟩ := h _ (enters desk at_) switchEnum inIndex
  refine ⟨commands, result, ?_, ?_⟩
  · simp only [Script.within, first, around.leave_enter]
  · have inner : ({ desk.placed switchEnum inIndex with
        context := around'.enter (desk.placed switchEnum inIndex).context } : Desk) =
        Desk.placed { desk with context := around.enter desk.context } switchEnum inIndex := by
      simp only [Desk.placed, same]
    simp only [Script.within]
    rw [inner, second]
    simp only [Desk.placed, ← same, around'.leave_enter]

theorem sameAt_congruence (known : Symbols) (p : Setting) :
    InnerCongruence fun {α : Type} (s t : Script α) => SameAt known p s t where
  pure a := sameAt_quiet (r := .ok a) fun _ => rfl
  fail {_ e} _ := sameAt_quiet (r := .error e) fun _ => rfl
  bind := SameAt.bind
  text _ := sameAt_command _
  symbols := fun desk at_ _ _ =>
    ⟨[], .ok known, by rw [← at_.symbols]; rfl, by rw [← at_.symbols]; rfl⟩
  context {_ f g} blind h := by
    intro desk at_ switchEnum inIndex
    obtain ⟨commands, result, first, second⟩ := h desk.context desk at_ switchEnum inIndex
    refine ⟨commands, result, first, ?_⟩
    change g (desk.context.placed switchEnum inIndex) (desk.placed switchEnum inIndex) = _
    rw [blind, second]
  indented h := (sameAt_command .deeper).bind fun _ => h.bind fun _ => sameAt_command .shallower
  within {_ _ _ around} keeps h := by
    refine h.within (fun desk at_ => ⟨at_.symbols, ?_, ?_⟩) keeps.enter
    · exact (keeps.enter_eq desk.context).2.trans at_.inIndex
    · exact (keeps.enter_eq desk.context).1.trans at_.switchEnum
  declare _ := sameAt_command _

theorem memberText_eq {ctx : Context} (inIndex : ctx.inIndex = p.inIndex)
    (switchEnum : ctx.switchEnum = p.switchEnum known) (name : String) :
    memberText known ctx name = memberAt known p name := by
  unfold memberText memberAt
  rw [inIndex, switchEnum]
  dsimp only
  cases known.enumOf (Ident.spellMember name) with
  | none => rfl
  | some owner => cases p.inIndex <;> simp

theorem reference_sameAt (n : Node) : SameAt known p (reference n) (referenceAt p n) := by
  unfold referenceAt
  cases hr : n.info.reference with
  | none =>
      simp only [reference, hr]
      exact sameAt_command _
  | some ref =>
      simp only [reference, hr]
      split
      · rename_i isMember
        refine sameAt_symbols_bind fun desk at_ switchEnum inIndex => ?_
        refine ⟨[.refer ref (memberAt known p ref.name)], .ok (), ?_, rfl⟩
        change
          (⟨[.refer ref (referenceText known desk.context ref)], desk, .ok ()⟩ : Written Unit) = _
        rw [referenceText, if_pos isMember, memberText_eq at_.inIndex at_.switchEnum]
      · rename_i other
        refine sameAt_symbols_bind ((sameAt_congruence known p).context (fun c _ _ => ?_) fun c =>
          sameAt_command _)
        simp only [referenceText, if_neg other]

theorem SameAt.index {s t : Script α} (h : SameAt known p.index s t) :
    SameAt known p (Script.within .index s) t := by
  intro desk at_ switchEnum inIndex
  obtain ⟨commands, result, first, second⟩ :=
    h { desk with context := Surroundings.index.enter desk.context }
      ⟨at_.symbols, rfl, at_.switchEnum⟩ switchEnum inIndex
  refine ⟨commands, result, ?_, second⟩
  simp only [Script.within, first, Surroundings.leave_enter]

section Below

variable {em : Emitter} {emAt : Setting → Emitter} {n : Node}
  (related : ∀ p m, Related (fun {α : Type} (s t : Script α) => SameAt known p s t) em (emAt p) m)
include related

theorem subscript_sameAt : SameAt known p (arraySubscript em n) (subscriptAt emAt p n) := by
  have hR := sameAt_congruence known p
  refine hR.childAt_bind fun base _ => hR.childAt_bind fun index _ => ?_
  refine ((related p base).value hR).bind fun _ => (hR.write _).bind fun _ => ?_
  refine sameAt_symbols_bind (SameAt.bind (.index ?_) fun _ => hR.write _)
  have hR := sameAt_congruence known p.index
  exact (hR.when _ (hR.write _)).bind fun _ => ((related p.index index).value hR).bind fun _ =>
    hR.when _ (hR.write _)

theorem switch_sameAt : SameAt known p (switchStatement em n) (switchAt emAt p n) := by
  have hR := sameAt_congruence known p
  unfold switchStatement switchAt childAt switchBody
  cases hc : n.inner[0]? with
  | none => exact hR.fail trivial
  | some cond =>
      cases hb : (n.inner.drop 1).getLast? with
      | none => exact hR.fail trivial
      | some body =>
          simp only [pure_bind]
          refine hR.ofExcept_bind (fun _ => isOfTree_of_collectArms) fun arms ha => ?_
          have owner : (p.inside n).switchEnum known = switchEnum? known cond arms := by
            change switchEnumOf known n = _
            simp only [switchEnumOf, hc, hb, ha]
          refine sameAt_symbols_bind ((hR.note _).bind fun _ => ?_)
          refine SameAt.within (q := p.inside n) (fun desk at_ => ?_) (fun _ _ _ => rfl) ?_
          · exact ⟨at_.symbols, at_.inIndex, owner.symm⟩
          · exact matchArms_related (sameAt_congruence known (p.inside n)) _ (related _ cond)
              fun _ _ => ⟨fun label _ => related _ label, fun s _ => related _ s⟩

theorem expression_sameAt : SameAt known p (expression em n) (expressionAt emAt p n) := by
  have hR := sameAt_congruence known p
  have plain {s t : Script Unit} (h : SameAt known p s t) :
      SameAt known p (Script.within (.expression n.kind) (s >>= fun _ => pure (literalIsBool n)))
        (Script.within (.expression n.kind) (t >>= fun _ => pure (literalIsBool n))) :=
    hR.within (keepsPlace_expression _) (h.bind fun _ => hR.pure _)
  unfold expressionAt
  split
  · rename_i hk
    have body : expressionBody em n = (do reference n; pure (literalIsBool n)) := by
      simp only [expressionBody, hk]
    rw [expression, body]
    exact plain (reference_sameAt n)
  · rename_i hk
    have body : expressionBody em n = (do arraySubscript em n; pure (literalIsBool n)) := by
      simp only [expressionBody, hk]
    rw [expression, body]
    exact plain (subscript_sameAt related)
  · exact expression_inner_related hR (fun m _ => related p m) (fun _ => sameAt_command _)
      (fun hk => absurd hk ‹_›) fun hk => absurd hk ‹_›

theorem statement_sameAt : SameAt known p (statement em n) (statementAt emAt p n) := by
  have hR := sameAt_congruence known p
  have ended : SameAt known p (do let _ ← expression em n; Script.endLine)
      (do let _ ← expressionAt emAt p n; Script.endLine) :=
    (expression_sameAt related).bind fun _ => hR.endLine
  unfold statementAt
  split
  · rename_i hk
    rw [show statement em n = switchStatement em n by simp only [statement, hk]]
    exact switch_sameAt related
  · rename_i hk
    rw [show statement em n = (do let _ ← expression em n; Script.endLine) by
      simp only [statement, hk]]
    exact ended
  · rename_i hk
    rw [show statement em n = (do let _ ← expression em n; Script.endLine) by
      simp only [statement, hk]]
    exact ended
  · refine statement_inner_related hR (fun m _ => related p m) (fun _ => sameAt_command _)
      (fun _ => sameAt_command _) (fun hk => absurd hk ‹_›) ?_
    exact expression_inner_related hR (fun m _ => related p m) (fun _ => sameAt_command _)
      (fun hk => absurd hk ‹_›) fun hk => absurd hk ‹_›

end Below

/-- The emitter that keeps track of the place in the context agrees with the one that is told it. -/
theorem emitter_sameAt (known : Symbols) (depth : Nat) (p : Setting) (n : Node) :
    Related (fun {α : Type} (s t : Script α) => SameAt known p s t) (emitter depth)
      (emitterAt depth p) n := by
  induction depth generalizing p n with
  | zero => exact ⟨sameAt_quiet fun _ => rfl, sameAt_quiet fun _ => rfl⟩
  | succ depth ih => exact ⟨expression_sameAt ih, statement_sameAt ih⟩

theorem whole_sameAt (known : Symbols) (p : Setting) (n : Node) :
    Related (fun {α : Type} (s t : Script α) => SameAt known p s t) whole (wholeAt p) n :=
  ⟨(emitter_sameAt known n.height p n).expr, (emitter_sameAt known n.height p n).stmt⟩

section Standing

/-- The nodes of a tree and the places where they stand, when the whole tree stands at a place. -/
inductive Stands (p : Setting) (root : Node) : Setting → Node → Prop where
  | root : Stands p root p root
  | base {q : Setting} {n m : Node} (h : Stands p root q n) (kind : n.kind = .arraySubscriptExpr)
      (part : n.inner[0]? = some m) : Stands p root q m
  | index {q : Setting} {n m : Node} (h : Stands p root q n) (kind : n.kind = .arraySubscriptExpr)
      (part : n.inner[1]? = some m) : Stands p root q.index m
  | switch {q : Setting} {n m : Node} (h : Stands p root q n) (kind : n.kind = .switchStmt)
      (part : m.IsPart n) : Stands p root (q.inside n) m
  | plain {q : Setting} {n m : Node} (h : Stands p root q n) (plain : ¬n.SetsPlace)
      (part : m.IsPart n) : Stands p root q m

variable {root n m : Node} {q : Setting}

theorem Stands.near (h : Stands p root q n) (plain : ¬n.SetsPlace) (near : n.Near m) :
    Stands p root q m := by
  induction near with
  | part part => exact h.plain plain part
  | step _ plain part ih => exact ih.plain plain part

theorem Stands.nearSwitch (h : Stands p root q n) (kind : n.kind = .switchStmt) (near : n.Near m) :
    Stands p root (q.inside n) m := by
  induction near with
  | part part => exact h.switch kind part
  | step _ plain part ih => exact ih.plain plain part

/-- A reference that is written as its place in the tree says. -/
def WrittenAt (known : Symbols) (p : Setting) (root : Node) (ref : Reference) (text : String) :
    Prop :=
  ∃ q m, Stands p root q m ∧ m.info.reference = some ref ∧ text = memberAt known q ref.name

theorem WrittenAt.congr {known' : Symbols} {ref : Reference} {text : String}
    (h : WrittenAt known p root ref text) (same : known.members = known'.members) :
    WrittenAt known' p root ref text := by
  obtain ⟨q, m, stands, refers, rfl⟩ := h
  exact ⟨q, m, stands, refers, memberAt_congr same q ref.name⟩

/-- All references to members of enumerations are written as their places in the tree say. -/
def WritesAt (known : Symbols) (p : Setting) (root : Node) (s : Script α) : Prop :=
  ∀ desk : Desk, desk.symbols = known → (s desk).desk.symbols = known ∧
    ∀ ref text, .refer ref text ∈ (s desk).commands → ref.kind = .enumConstantDecl →
      WrittenAt known p root ref text

theorem writesAt_quiet {s : Script α} (hc : ∀ desk, (s desk).commands = [])
    (hs : ∀ desk, (s desk).desk.symbols = desk.symbols) : WritesAt known p root s := by
  intro desk same
  rw [hc]
  exact ⟨(hs desk).trans same, fun _ _ h => absurd h List.not_mem_nil⟩

theorem writesAt_command {c : Command} (h : ∀ ref text, c ≠ .refer ref text) :
    WritesAt known p root (Script.command c) := by
  refine fun desk same => ⟨same, fun ref text hc => ?_⟩
  exact absurd (List.mem_singleton.mp hc).symm (h ref text)

theorem WritesAt.bind {s : Script α} {f : α → Script β} (hs : WritesAt known p root s)
    (hf : ∀ a, WritesAt known p root (f a)) : WritesAt known p root (s >>= f) := by
  intro desk same
  obtain ⟨same', here⟩ := hs desk same
  rcases hr : s desk with ⟨commands, next, e | a⟩
  · rw [hr] at same' here
    rw [Script.bind_apply_error hr]
    exact ⟨same', here⟩
  · rw [hr] at same' here
    obtain ⟨same'', there⟩ := hf a next same'
    rw [Script.bind_apply_ok hr]
    refine ⟨same'', fun ref text hc => ?_⟩
    rcases List.mem_append.mp hc with hc | hc
    · exact here ref text hc
    · exact there ref text hc

theorem writesAt_congruence (known : Symbols) (p : Setting) (root : Node) :
    InnerCongruence fun {α : Type} (s _ : Script α) => WritesAt known p root s where
  pure _ := writesAt_quiet (fun _ => rfl) fun _ => rfl
  fail _ := writesAt_quiet (fun _ => rfl) fun _ => rfl
  bind := WritesAt.bind
  text {c} h := by
    refine writesAt_command fun ref text same => ?_
    rw [same] at h
    exact h
  symbols := writesAt_quiet (fun _ => rfl) fun _ => rfl
  context _ h := WritesAt.bind (writesAt_quiet (fun _ => rfl) fun _ => rfl) h
  indented h :=
    (writesAt_command (c := .deeper) (by simp)).bind fun _ => h.bind fun _ =>
      writesAt_command (c := .shallower) (by simp)
  within _ h := fun _ same => h _ same
  declare _ := writesAt_command (by simp)

theorem referenceAt_writesAt (h : Stands p root q n) : WritesAt known p root (referenceAt q n) := by
  have hR := writesAt_congruence known p root
  unfold referenceAt
  cases hr : n.info.reference with
  | none =>
      simp only [reference, hr]
      exact hR.write _
  | some ref =>
      dsimp only
      split
      · rintro desk rfl
        refine ⟨rfl, fun ref' text hc _ => ?_⟩
        cases List.mem_singleton.mp hc
        exact ⟨q, n, h, hr, rfl⟩
      · rename_i other
        rintro desk rfl
        simp only [reference, hr]
        refine ⟨rfl, fun ref' text hc isMember => ?_⟩
        cases List.mem_singleton.mp hc
        exact absurd isMember other

variable {emAt : Setting → Emitter}
  (related : ∀ q m, Stands p root q m → Related
    (fun {α : Type} (s _ : Script α) => WritesAt known p root s) (emAt q) (emAt q) m)
include related

theorem subscriptAt_writesAt (h : Stands p root q n) (kind : n.kind = .arraySubscriptExpr) :
    WritesAt known p root (subscriptAt emAt q n) := by
  have hR := writesAt_congruence known p root
  unfold subscriptAt childAt
  cases hb : n.inner[0]? with
  | none => exact hR.fail trivial
  | some base =>
      cases hi : n.inner[1]? with
      | none => exact hR.fail trivial
      | some index =>
          simp only [pure_bind]
          have first := (related q base (h.base kind hb)).value hR
          have second := (related q.index index (h.index kind hi)).value hR
          refine first.bind fun _ => (hR.write _).bind fun _ => WritesAt.bind hR.symbols fun _ => ?_
          refine WritesAt.bind ?_ fun _ => hR.write _
          exact (hR.when _ (t := Script.write "int(") (hR.write _)).bind fun _ =>
            second.bind fun _ => hR.when _ (t := Script.write ")") (hR.write _)

theorem switchAt_writesAt (h : Stands p root q n) (kind : n.kind = .switchStmt) :
    WritesAt known p root (switchAt emAt q n) := by
  have hR := writesAt_congruence known p root
  have inside {m : Node} (near : n.Near m) := related (q.inside n) m (h.nearSwitch kind near)
  unfold switchAt childAt switchBody
  cases hc : n.inner[0]? with
  | none => exact hR.fail trivial
  | some cond =>
      cases hb : (n.inner.drop 1).getLast? with
      | none => exact hR.fail trivial
      | some body =>
          have hbody : n.Near body :=
            Node.near_of_mem_inner (List.mem_of_mem_drop (List.mem_of_getLast? hb))
          simp only [pure_bind]
          refine hR.ofExcept_bind (g := fun _ => pure ()) (fun _ => isOfTree_of_collectArms)
            fun arms ha => ?_
          refine WritesAt.bind hR.symbols fun _ => WritesAt.bind (hR.note _) fun _ => ?_
          have condition := inside (Node.near_of_mem_inner (List.mem_of_getElem? hc))
          refine fun desk same => matchArms_related hR _ condition (fun arm hm => ?_) _ same
          obtain ⟨labels, stmts⟩ := all_of_collectArms (goesInside_near n) hbody ha arm hm
          exact ⟨fun l hl => inside (labels l hl), fun s hs => inside (stmts s hs)⟩

theorem expressionAt_writesAt (h : Stands p root q n) :
    WritesAt known p root (expressionAt emAt q n) := by
  have hR := writesAt_congruence known p root
  unfold expressionAt
  split
  · exact fun _ same => (referenceAt_writesAt h).bind (fun _ => hR.pure _) _ same
  · exact fun _ same => (subscriptAt_writesAt related h ‹_›).bind (fun _ => hR.pure _) _ same
  · rename_i notReference notSubscript
    by_cases kind : n.kind = .switchStmt
    · -- A switch is no expression.
      have body : expressionBody (emAt q) n = unhandled n := by
        simp only [expressionBody, cxxExpression, kind, pure_bind, Bool.false_eq_true, if_false]
      rw [expression, body]
      exact fun _ same => unhandled_related hR n _ same
    · have near {m : Node} (hm : n.Near m) :=
        related q m (h.near (not_or.mpr ⟨notSubscript, kind⟩) hm)
      exact expression_inner_related hR (fun m hm => near hm) (fun _ => writesAt_command (by simp))
        (fun hk => absurd hk notReference) fun hk => absurd hk notSubscript

theorem statementAt_writesAt (h : Stands p root q n) :
    WritesAt known p root (statementAt emAt q n) := by
  have hR := writesAt_congruence known p root
  have ended : WritesAt known p root (do let _ ← expressionAt emAt q n; Script.endLine) :=
    (expressionAt_writesAt related h).bind fun _ => hR.endLine
  unfold statementAt
  split
  · exact switchAt_writesAt related h ‹_›
  · exact ended
  · exact ended
  · rename_i notSwitch notReference notSubscript
    have near {m : Node} (hm : n.Near m) :=
      related q m (h.near (not_or.mpr ⟨notSubscript, notSwitch⟩) hm)
    refine statement_inner_related hR (fun m hm => near hm) (fun _ => writesAt_command (by simp))
      (fun _ => writesAt_command (by simp)) (fun hk => absurd hk notSwitch) ?_
    exact expression_inner_related hR (fun m hm => near hm) (fun _ => writesAt_command (by simp))
      (fun hk => absurd hk notReference) fun hk => absurd hk notSubscript

omit related in
theorem emitterAt_writesAt (depth : Nat) (h : Stands p root q n) :
    Related (fun {α : Type} (s _ : Script α) => WritesAt known p root s) (emitterAt depth q)
      (emitterAt depth q) n := by
  induction depth generalizing q n with
  | zero =>
      exact ⟨writesAt_quiet (fun _ => rfl) fun _ => rfl,
        writesAt_quiet (fun _ => rfl) fun _ => rfl⟩
  | succ depth ih =>
      exact ⟨expressionAt_writesAt (fun _ _ => ih) h, statementAt_writesAt (fun _ _ => ih) h⟩

omit related in
theorem wholeAt_writesAt (known : Symbols) (p : Setting) (root : Node) :
    Related (fun {α : Type} (s _ : Script α) => WritesAt known p root s) (wholeAt p) (wholeAt p)
      root :=
  ⟨(emitterAt_writesAt _ .root).expr, (emitterAt_writesAt _ .root).stmt⟩

end Standing

end VFromC.Emit
