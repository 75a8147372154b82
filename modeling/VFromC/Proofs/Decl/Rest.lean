import VFromC.Proofs.Decl.Visits
import VFromC.Proofs.Emit.Frame
/-!
Between two declarations everything is at rest: the context is that of the start, nothing is
indented, and no line is pending.
-/
namespace VFromC.Decl
open VFromC.Syntax VFromC.Output VFromC.Emit

variable {A : Command → Prop} {s t : Script Unit}

/-- Outside of the main function, a success of the script leaves the context and the level as they
were; its commands satisfy `A`. -/
def Level (A : Command → Prop) (s : Script Unit) : Prop :=
  ∀ desk, desk.context.inMain = false → (s desk).result = .ok () →
    (s desk).desk.context = desk.context ∧ (∀ c ∈ (s desk).commands, A c) ∧
      ∀ level, levelAfter level (s desk).commands = level

/-- Moreover, no line is pending if none was before. -/
def Rests (A : Command → Prop) (s : Script Unit) : Prop :=
  Level A s ∧ ∀ desk, (s desk).result = .ok () → ∀ draft : Draft, draft.page.pending = "" →
    (draft.run (s desk).commands).page.pending = ""

/-- Moreover, no line is pending. -/
def Closes (A : Command → Prop) (s : Script Unit) : Prop :=
  Level A s ∧ ∀ desk, (s desk).result = .ok () → ∀ draft : Draft,
    (draft.run (s desk).commands).page.pending = ""

theorem Closes.rests (h : Closes A s) : Rests A s :=
  ⟨h.1, fun desk hr draft _ => h.2 desk hr draft⟩

theorem bind_ok {α β : Type} {s : Script α} {f : α → Script β} {desk : Desk} {b : β}
    (h : ((s >>= f) desk).result = .ok b) :
    ∃ a, (s desk).result = .ok a ∧ (f a (s desk).desk).result = .ok b ∧
      ((s >>= f) desk).desk = (f a (s desk).desk).desk ∧
      ((s >>= f) desk).commands = (s desk).commands ++ (f a (s desk).desk).commands := by
  rw [Script.bind_apply] at h ⊢
  split at h
  · rename_i a ha
    exact ⟨a, ha, h, rfl, rfl⟩
  · cases h

theorem bind_of_ok {α β : Type} {s : Script α} {f : α → Script β} {desk : Desk} {a : α}
    (h : (s desk).result = .ok a) :
    (s >>= f) desk = ⟨(s desk).commands ++ (f a (s desk).desk).commands,
      (f a (s desk).desk).desk, (f a (s desk).desk).result⟩ := by
  rw [Script.bind_apply, h]

theorem Level.bind (hs : Level A s) (ht : Level A t) : Level A (do s; t) := by
  intro desk hmain hr
  obtain ⟨⟨⟩, hr₁, hr₂, hd, hc⟩ := bind_ok hr
  obtain ⟨same₁, all₁, level₁⟩ := hs desk hmain hr₁
  obtain ⟨same₂, all₂, level₂⟩ := ht _ (by rw [same₁, hmain]) hr₂
  rw [hd, hc]
  refine ⟨same₂.trans same₁, List.forall_mem_append.mpr ⟨all₁, all₂⟩, fun level => ?_⟩
  rw [levelAfter_append, level₁, level₂]

theorem Rests.bind (hs : Rests A s) (ht : Rests A t) : Rests A (do s; t) := by
  refine ⟨hs.1.bind ht.1, fun desk hr draft hp => ?_⟩
  obtain ⟨⟨⟩, hr₁, hr₂, _, hc⟩ := bind_ok hr
  rw [hc, Draft.run_append]
  exact ht.2 _ hr₂ _ (hs.2 _ hr₁ _ hp)

theorem Level.bind_closes (hs : Level A s) (ht : Closes A t) : Closes A (do s; t) := by
  refine ⟨hs.bind ht.1, fun desk hr draft => ?_⟩
  obtain ⟨⟨⟩, _, hr₂, _, hc⟩ := bind_ok hr
  rw [hc, Draft.run_append]
  exact ht.2 _ hr₂ _

theorem level_of_kept (hs : Kept s) : Level Command.Adds s := by
  intro desk _ hr
  obtain ⟨same, adds, level⟩ := hs desk
  exact ⟨by rw [same], adds, level () hr⟩

theorem closes_command {c : Command} (h : A c) (hl : ∀ level, nextLevel level c = level)
    (hp : ∀ draft : Draft, (draft.apply c).page.pending = "") : Closes A (Script.command c) :=
  ⟨fun _ _ _ => ⟨rfl, List.forall_mem_singleton.mpr h, hl⟩, fun _ _ => hp⟩

theorem closes_line (text : String) : Closes Command.Adds (Script.line text) :=
  closes_command trivial (fun _ => rfl) fun _ => rfl

theorem closes_endLine : Closes Command.Adds Script.endLine :=
  closes_command trivial (fun _ => rfl) fun draft => pending_endLine draft.page

theorem rests_quiet {s : Script Unit} (hd : ∀ desk, (s desk).desk.context = desk.context)
    (hc : ∀ desk, (s desk).commands = []) : Rests A s := by
  refine ⟨fun desk _ _ => ⟨hd desk, ?_, ?_⟩, fun desk _ draft hp => ?_⟩
  · rw [hc]; exact fun _ h => absurd h List.not_mem_nil
  · rw [hc]; exact fun _ => rfl
  · rw [hc]; exact hp

theorem rests_pure : Rests A (pure ()) := rests_quiet (fun _ => rfl) fun _ => rfl

theorem rests_fail (e : Fault) : Rests A (Script.fail e) := rests_quiet (fun _ => rfl) fun _ => rfl

theorem rests_register (f : Symbols → Symbols) : Rests A (Script.register f) :=
  rests_quiet (fun _ => rfl) fun _ => rfl

theorem rests_note (text : String) : Rests Command.Adds (Script.note text) :=
  ⟨fun _ _ _ => ⟨rfl, List.forall_mem_singleton.mpr trivial, fun _ => rfl⟩, fun _ _ _ hp => hp⟩

theorem rests_line (text : String) : Rests Command.Adds (Script.line text) :=
  (closes_line text).rests

theorem rests_head (h : Heading) : Rests Command.Adds (Script.head h) :=
  Closes.rests (closes_command trivial (fun _ => rfl) fun _ => rfl)

theorem rests_symbols_bind {f : Symbols → Script Unit} (h : ∀ known, Rests A (f known)) :
    Rests A (Script.symbols >>= f) := by
  have same desk : (Script.symbols >>= f) desk = f desk.symbols desk := rfl
  refine ⟨fun desk => ?_, fun desk => ?_⟩
  · rw [same]; exact (h desk.symbols).1 desk
  · rw [same]; exact (h desk.symbols).2 desk

theorem Rests.when {condition : Prop} [Decidable condition] (h : condition → Rests A s) :
    Rests A (Script.when condition s) := by
  unfold Script.when
  split
  · exact h ‹_›
  · exact rests_pure

theorem rests_each {α : Type} {f : α → Script Unit} {l : List α} (h : ∀ a ∈ l, Rests A (f a)) :
    Rests A (Script.each f l) := by
  induction l with
  | nil => exact rests_pure
  | cons a rest ih =>
      exact (h a List.mem_cons_self).bind (ih fun b hb => h b (List.mem_cons_of_mem _ hb))

theorem Rests.indented (h : Rests Command.Adds s) : Rests Command.Adds (Script.indented s) := by
  have split {desk : Desk} (hr : (Script.indented s desk).result = .ok ()) :
      (s desk).result = .ok () ∧ (Script.indented s desk).desk = (s desk).desk ∧
        (Script.indented s desk).commands = .deeper :: ((s desk).commands ++ [.shallower]) := by
    rcases hs : s desk with ⟨commands, next, e | ⟨⟩⟩
    · rw [Script.indented_apply_error hs] at hr
      cases hr
    · rw [Script.indented_apply_ok hs]
      exact ⟨rfl, rfl, rfl⟩
  refine ⟨fun desk hmain hr => ?_, fun desk hr draft hp => ?_⟩
  · obtain ⟨hs, hd, hc⟩ := split hr
    obtain ⟨same, adds, level⟩ := h.1 desk hmain hs
    rw [hd, hc]
    refine ⟨same, List.forall_mem_cons.mpr ⟨trivial, ?_⟩, fun l => ?_⟩
    · exact List.forall_mem_append.mpr ⟨adds, List.forall_mem_singleton.mpr trivial⟩
    · change levelAfter (l + 1) ((s desk).commands ++ [.shallower]) = l
      rw [levelAfter_append, level]
      rfl
  · obtain ⟨hs, _, hc⟩ := split hr
    rw [hc]
    change ((draft.apply .deeper).run ((s desk).commands ++ [.shallower])).page.pending = ""
    rw [Draft.run_append]
    exact h.2 desk hs _ hp

end VFromC.Decl
