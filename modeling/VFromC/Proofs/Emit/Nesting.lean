import VFromC.Emit.Statement
import VFromC.Proofs.Output.Braces
import VFromC.Proofs.Spelling.Braces
import VFromC.Proofs.Syntax.Below
/-!
How scripts open and close braces.

A script leads from a number of open braces to another one, whatever opens the first ones. What
opens a brace and what closes it can be different scripts, so that each script has its own two
numbers; put together they have to meet.
-/
namespace VFromC.Syntax.Node
open VFromC.Text

/-- The strings of a node that can be written. -/
def texts (n : Node) : List String :=
  [n.name, n.spelling, n.opcode, n.info.argType.spelling, n.info.targetLabelId] ++
    (match n.info.value with
    | some (.text s) => [s]
    | _ => []) ++ (n.info.reference.map (·.name)).toList

/-- Nothing that is written of the node itself is a brace. -/
def HasNoBrace (n : Node) : Prop :=
  (∀ s ∈ n.texts, braces s = []) ∧
    (n.kind = .characterLiteral → Emit.runeCode n ≠ 123 ∧ Emit.runeCode n ≠ 125)

instance (n : Node) : Decidable n.HasNoBrace := inferInstanceAs (Decidable (_ ∧ _))

/-- Nothing that is written of the node or of what is below it is a brace. -/
def BraceFree (n : Node) : Prop := n.HasNoBrace ∧ ∀ m : Node, m.Below n → m.HasNoBrace

section HasNoBrace

variable {n : Node}

theorem isBrace_of_isDigit {c : Char} (h : c.isDigit = true) : isBrace c = false := by
  by_contra brace
  rcases isBrace_iff.mp (Bool.not_eq_false _ ▸ brace) with rfl | rfl
  · exact absurd h (by decide)
  · exact absurd h (by decide)

theorem toDigits_free (k : Nat) : Text.BraceFree (Nat.toDigits 10 k) := fun _ hc =>
  isBrace_of_isDigit (Nat.isDigit_of_mem_toDigits (by decide) (by decide) hc)

theorem braces_decimal (k : Int) : braces (decimal k) = [] := by
  cases k with
  | ofNat k => exact braces_ofList (toDigits_free k)
  | negSucc k => exact free_append rfl (braces_ofList (toDigits_free (k + 1)))

namespace HasNoBrace

theorem name (h : n.HasNoBrace) : braces n.name = [] := h.1 _ (by simp [texts])

theorem spelling (h : n.HasNoBrace) : braces n.spelling = [] := h.1 _ (by simp [texts])

theorem opcode (h : n.HasNoBrace) : braces n.opcode = [] := h.1 _ (by simp [texts])

theorem argType (h : n.HasNoBrace) : braces n.info.argType.spelling = [] :=
  h.1 _ (by simp [texts])

theorem target (h : n.HasNoBrace) : braces n.info.targetLabelId = [] := h.1 _ (by simp [texts])

theorem referred (h : n.HasNoBrace) {ref : Reference} (hr : n.info.reference = some ref) :
    braces ref.name = [] := h.1 _ (by simp [texts, hr])

theorem referenceName (h : n.HasNoBrace) : braces n.referenceName = [] := by
  unfold Node.referenceName
  cases hr : n.info.reference with
  | none => rfl
  | some ref => exact h.referred hr

theorem valueText (h : n.HasNoBrace) : braces n.valueText = [] := by
  unfold Node.valueText
  rcases hv : n.info.value with _ | ⟨_ | _⟩ | k | s
  iterate 3 rfl
  · exact braces_decimal k
  · exact h.1 s (by simp [texts, hv])

end HasNoBrace

theorem BraceFree.below {m : Node} (h : n.BraceFree) (hm : m.Below n) : m.BraceFree :=
  ⟨h.2 m hm, fun _ hk => h.2 _ (hk.trans hm)⟩

theorem BraceFree.inner {m : Node} (h : n.BraceFree) (hm : m ∈ n.inner) : m.BraceFree :=
  h.below (below_of_mem_inner hm)

theorem BraceFree.bare (h : n.BraceFree) : n.bare.BraceFree := by
  fun_induction Node.bare n with
  | case1 => exact h
  | case2 info filler child rest _ ih => exact ih (h.inner List.mem_cons_self)
  | case3 => exact h

end HasNoBrace

mutual

theorem below_of_descendant? {kind : Kind} {m : Node} :
    ∀ {n : Node}, n.descendant? kind = some m → m.Below n
  | ⟨_, _, inner⟩, h => by
      rw [descendant?] at h
      obtain ⟨k, hk, same⟩ := below_of_descendantIn? h
      rcases same with rfl | below
      · exact below_of_mem_inner hk
      · exact below.trans (below_of_mem_inner hk)

theorem below_of_descendantIn? {kind : Kind} {m : Node} :
    ∀ {l : List Node}, descendantIn? kind l = some m → ∃ k ∈ l, m = k ∨ m.Below k
  | [], h => by cases h
  | ⟨info, filler, inner⟩ :: rest, h => by
      rw [descendantIn?] at h
      split at h
      · cases h
        exact ⟨_, List.mem_cons_self, .inl rfl⟩
      · rcases hd : descendant? kind ⟨info, filler, inner⟩ with _ | found
        · rw [hd, Option.none_or] at h
          obtain ⟨k, hk, same⟩ := below_of_descendantIn? h
          exact ⟨k, List.mem_cons_of_mem _ hk, same⟩
        · rw [hd, Option.some_or] at h
          cases h
          exact ⟨_, List.mem_cons_self, .inr (below_of_descendant? hd)⟩

end

end VFromC.Syntax.Node

namespace VFromC

/-- No enumeration has a brace in its name. -/
def Symbols.BraceFree (t : Symbols) : Prop := ∀ entry ∈ t.members, Text.braces entry.1 = []

namespace Emit
open VFromC.Syntax VFromC.Output VFromC.Text

/-- When no name of an enumeration has a brace in it, the script leads from `i` open braces to `j`
of them, unless it fails; its commands are tame, and so is what it enters. -/
def Nests {α : Type} (i j : Nat) (s : Script α) : Prop :=
  ∀ desk : Desk, desk.symbols.BraceFree →
    (s desk).desk.symbols.BraceFree ∧ (∀ c ∈ (s desk).commands, c.IsTame) ∧
      ∀ a, (s desk).result = .ok a → Leads i j (bracesOf (s desk).commands)

section Texts

variable {i : Nat} {s : String}

theorem leads_plain (h : braces s = []) : Leads i i (braces s) := by
  rw [h]
  exact leads_nil

theorem leads_opens (h : braces s = ['\x7b']) : Leads i (i + 1) (braces s) := by
  rw [h]
  exact leads_open

theorem leads_closes (h : braces s = ['\x7d']) : Leads (i + 1) i (braces s) := by
  rw [h]
  exact leads_close

theorem leads_shuts (h : braces s = ['\x7d', '\x7b']) : Leads (i + 1) (i + 1) (braces s) := by
  rw [h]
  exact leads_shut

end Texts

section Combined

variable {α β : Type} {i j k : Nat}

theorem nests_quiet {s : Script α} (hs : ∀ desk, (s desk).desk.symbols = desk.symbols)
    (hc : ∀ desk, (s desk).commands = []) : Nests i i s := by
  intro desk free
  rw [hs, hc]
  exact ⟨free, fun _ h => absurd h List.not_mem_nil, fun _ _ => leads_nil⟩

theorem nests_pure (a : α) : Nests i i (pure a : Script α) :=
  nests_quiet (fun _ => rfl) fun _ => rfl

theorem nests_fail (e : Fault) : Nests i j (Script.fail e : Script α) :=
  fun _ free => ⟨free, fun _ h => absurd h List.not_mem_nil, nofun⟩

theorem nests_command {c : Command} (hl : c.IsTame) (h : Leads i j (braces c.text)) :
    Nests i j (Script.command c) := by
  refine fun desk free => ⟨free, List.forall_mem_singleton.mpr hl, fun _ _ => ?_⟩
  change Leads i j (braces c.text ++ [])
  rwa [List.append_nil]

theorem nests_write {s : String} (h : Leads i j (braces s)) : Nests i j (Script.write s) :=
  nests_command trivial h

theorem nests_line {s : String} (h : Leads i j (braces s)) : Nests i j (Script.line s) :=
  nests_command trivial h

theorem nests_plain {s : String} (h : braces s = []) : Nests i i (Script.write s) :=
  nests_write (leads_plain h)

theorem nests_plainLine {s : String} (h : braces s = []) : Nests i i (Script.line s) :=
  nests_line (leads_plain h)

theorem nests_opens {s : String} (h : braces s = ['\x7b']) : Nests i (i + 1) (Script.line s) :=
  nests_line (leads_opens h)

theorem nests_closes {s : String} (h : braces s = ['\x7d']) : Nests (i + 1) i (Script.line s) :=
  nests_line (leads_closes h)

theorem nests_head {h : Heading} (hl : Leads i j (braces h.text)) : Nests i j (Script.head h) :=
  nests_command trivial hl

theorem nests_silent {c : Command} (hl : c.IsTame) (h : c.text = "") :
    Nests i i (Script.command c) :=
  nests_command hl (leads_plain (h ▸ braces_empty))

theorem nests_endLine : Nests i i Script.endLine := nests_silent trivial rfl

theorem nests_note (text : String) : Nests i i (Script.note text) := nests_silent trivial rfl

theorem nests_declare {role : Role} {n : Node} {name : String} (h : braces name = []) :
    Nests i i (Script.declare role n name) :=
  nests_command trivial (leads_plain h)

theorem nests_register {f : Symbols → Symbols}
    (h : ∀ t : Symbols, t.BraceFree → (f t).BraceFree) : Nests i i (Script.register f) :=
  fun desk free =>
    ⟨h desk.symbols free, fun _ hc => absurd hc List.not_mem_nil, fun _ _ => leads_nil⟩

theorem nests_setContext (f : Context → Context) : Nests i i (Script.setContext f) :=
  nests_quiet (fun _ => rfl) fun _ => rfl

theorem Nests.bind {s : Script α} {f : α → Script β} (hs : Nests i j s)
    (hf : ∀ a, Nests j k (f a)) : Nests i k (s >>= f) := by
  intro desk free
  obtain ⟨free', labels, leads⟩ := hs desk free
  rcases hr : s desk with ⟨commands, next, e | a⟩
  · rw [hr] at free' labels
    rw [Script.bind_apply_error hr]
    exact ⟨free', labels, nofun⟩
  · rw [hr] at free' labels leads
    obtain ⟨free'', labels', leads'⟩ := hf a next free'
    rw [Script.bind_apply_ok hr]
    refine ⟨free'', List.forall_mem_append.mpr ⟨labels, labels'⟩, fun b hb => ?_⟩
    rw [bracesOf_append]
    exact (leads a rfl).append (leads' b hb)

theorem nests_symbols_bind {f : Symbols → Script α}
    (h : ∀ known : Symbols, known.BraceFree → Nests i j (f known)) :
    Nests i j (Script.symbols >>= f) :=
  fun desk free => h desk.symbols free desk free

theorem nests_context_bind {f : Context → Script α} (h : ∀ c, Nests i j (f c)) :
    Nests i j (Script.context >>= f) :=
  Nests.bind (nests_quiet (fun _ => rfl) fun _ => rfl) h

theorem nests_ofExcept_bind {r : Except Fault α} {f : α → Script β}
    (h : ∀ a, r = .ok a → Nests i j (f a)) : Nests i j (Script.ofExcept r >>= f) := by
  cases r with
  | ok a =>
      change Nests i j (pure a >>= f)
      rw [pure_bind]
      exact h a rfl
  | error e => exact nests_fail e

theorem childAt_nests {n : Node} {position : Nat} {expected : String} {f : Node → Script α}
    (h : ∀ child ∈ n.inner, Nests i j (f child)) :
    Nests i j (childAt n position expected >>= f) := by
  unfold childAt
  split
  · rename_i child hc
    rw [pure_bind]
    exact h child (List.mem_of_getElem? hc)
  · exact nests_fail _

theorem Nests.within {s : Script α} (h : Nests i j s) (around : Surroundings) :
    Nests i j (Script.within around s) :=
  fun desk free => h { desk with context := around.enter desk.context } free

theorem Nests.when {s : Script Unit} {c : Prop} [Decidable c] (h : Nests i i s) :
    Nests i i (Script.when c s) := by
  unfold Script.when
  split
  · exact h
  · exact nests_pure ()

theorem nests_forSome {f : α → Script Unit} {o : Option α} (h : ∀ a, o = some a → Nests i i (f a)) :
    Nests i i (Script.forSome f o) := by
  cases o with
  | none => exact nests_pure ()
  | some a => exact h a rfl

theorem nests_each {f : α → Script Unit} {l : List α} (h : ∀ a ∈ l, Nests i i (f a)) :
    Nests i i (Script.each f l) := by
  induction l with
  | nil => exact nests_pure ()
  | cons a l ih =>
      obtain ⟨ha, hl⟩ := List.forall_mem_cons.mp h
      exact ha.bind fun _ => ih hl

theorem nests_separated {between : Script Unit} (hb : Nests i i between) {f : α → Script Unit}
    {l : List α} (h : ∀ a ∈ l, Nests i i (f a)) : Nests i i (Script.separated between f l) := by
  induction l with
  | nil => exact nests_pure ()
  | cons a l ih =>
      obtain ⟨ha, hl⟩ := List.forall_mem_cons.mp h
      cases l with
      | nil => exact ha
      | cons b l => exact ha.bind fun _ => hb.bind fun _ => ih hl

theorem Nests.indented {s : Script Unit} (h : Nests i j s) : Nests i j (Script.indented s) :=
  (nests_silent (c := .deeper) trivial rfl).bind fun _ => h.bind fun _ =>
    nests_silent (c := .shallower) trivial rfl

end Combined

end Emit

end VFromC
