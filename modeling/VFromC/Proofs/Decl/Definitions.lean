import Mathlib.Data.List.Nodup
import VFromC.Proofs.Decl.Introduced
/-!
Which of several declarations of a global is written as its definition.
-/
namespace VFromC.Decl
open VFromC.Syntax VFromC.Output VFromC.Emit

def definedGlobal? : Command → Option String
  | .declare .global _ name => some name
  | _ => none

/-- The globals that are declared by some commands. -/
def globalsDefined (commands : List Command) : List String := commands.filterMap definedGlobal?

theorem globalsDefined_append (c₁ c₂ : List Command) :
    globalsDefined (c₁ ++ c₂) = globalsDefined c₁ ++ globalsDefined c₂ :=
  List.filterMap_append

theorem globalsDefined_of_spelled {s : Script Unit} (h : Spells s) (desk : Desk) :
    globalsDefined (s desk).commands = [] := by
  refine List.filterMap_eq_nil_iff.mpr fun c hc => ?_
  have spelled := (h desk).2 c hc
  cases c with
  | declare role what name =>
      obtain ⟨rfl, _⟩ := spelled
      rfl
  | _ => rfl

theorem command_bind_apply {α : Type} (c : Command) (f : Unit → Script α) (desk : Desk) :
    (Script.command c >>= f) desk =
      ⟨c :: (f () desk).commands, (f () desk).desk, (f () desk).result⟩ := rfl

/-- The value of a global stands behind its name, by itself or within a conversion. -/
def GivesValue (commands : List Command) (n value : Node) : Prop :=
  ∃ front opening closing desk,
    commands = front ++ .declare .global n.identity (Ident.spell n.name) :: .write " = " ::
      (opening ++ (emitExpr value desk).commands ++ closing) ∧
    (emitExpr value desk).result.isOk = true ∧
    (opening = [] ∨ opening = [.write (Spelling.typeOf n.spelling ++ "(")])

theorem GivesValue.within {commands : List Command} {n value : Node}
    (h : GivesValue commands n value) (before behind : List Command) :
    GivesValue (before ++ commands ++ behind) n value := by
  obtain ⟨front, opening, closing, desk, rfl, rest⟩ := h
  refine ⟨before ++ front, opening, closing ++ behind, desk, ?_, rest⟩
  simp only [List.append_assoc, List.cons_append]

theorem mem_of_givesValue {commands : List Command} {n value : Node}
    (h : GivesValue commands n value) : Ident.spell n.name ∈ globalsDefined commands := by
  obtain ⟨front, opening, closing, desk, rfl, _⟩ := h
  exact List.mem_filterMap.mpr ⟨_, List.mem_append_right _ List.mem_cons_self, rfl⟩

theorem writeExpr_ok {value : Node} {desk : Desk} (done : (writeExpr value desk).result = .ok ()) :
    (writeExpr value desk).commands = (emitExpr value desk).commands ∧
      (emitExpr value desk).result.isOk = true := by
  obtain ⟨isBool, ok, _, _, commands⟩ := bind_ok done
  change (writeExpr value desk).commands = _ ++ [] at commands
  rw [commands, List.append_nil, ok]
  exact ⟨rfl, rfl⟩

theorem givenText_ok {n value : Node} {type : String} {desk : Desk}
    (done : (givenText n type value desk).result = .ok ()) :
    ∃ opening closing, (givenText n type value desk).commands =
        opening ++ (emitExpr value desk).commands ++ closing ∧
      (emitExpr value desk).result.isOk = true ∧
      (opening = [] ∨ opening = [.write (type ++ "(")]) := by
  by_cases h : (value.kind = .initListExpr && !isFixedArray n) = true
  · have same : givenText n type value = writeExpr value := if_pos h
    rw [same] at done ⊢
    obtain ⟨commands, ok⟩ := writeExpr_ok done
    exact ⟨[], [], by rw [commands, List.nil_append, List.append_nil], ok, .inl rfl⟩
  · have same : givenText n type value desk =
        (Script.write (type ++ "(") >>= fun _ => writeExpr value >>= fun _ => Script.write ")")
          desk :=
      congrFun (if_neg h) desk
    rw [same, Script.write, command_bind_apply] at done ⊢
    obtain ⟨⟨⟩, here, _, _, commands⟩ := bind_ok done
    obtain ⟨written, ok⟩ := writeExpr_ok here
    refine ⟨[.write (type ++ "(")], [.write ")"], ?_, ok, .inr rfl⟩
    rw [commands, written]
    rfl

section Definition

variable {n value : Node} {desk : Desk}

theorem variableText_ok {type : String}
    (done : (variableText n (Ident.spell n.name) type (some value) desk).result = .ok ()) :
    ∃ front closing, (variableText n (Ident.spell n.name) type (some value) desk).commands =
        front ++ .declare .global n.identity (Ident.spell n.name) :: .write " = " ::
          ((givenText n type value desk).commands ++ closing) ∧
      (givenText n type value desk).result = .ok () ∧
      globalsDefined front = [] ∧ globalsDefined closing = [] := by
  simp only [variableText, Script.line, Script.write, Script.declare, command_bind_apply] at done ⊢
  obtain ⟨⟨⟩, here, _, _, commands⟩ := bind_ok done
  refine ⟨[.line (storageMark n (some value)), .write "__global ( "], [.line " )"], ?_, here, rfl,
    rfl⟩
  rw [commands]
  rfl

theorem constantText_ok
    (done : (constantText n (Ident.spell n.name) value desk).result = .ok ()) :
    ∃ front closing inside, (constantText n (Ident.spell n.name) value desk).commands =
        front ++ .declare .global n.identity (Ident.spell n.name) :: .write " = " ::
          ((writeExpr value inside).commands ++ closing) ∧
      (writeExpr value inside).result = .ok () ∧
      globalsDefined front = [] ∧ globalsDefined closing = [] := by
  rw [constantText_apply] at done ⊢
  let inside : Desk := { desk with symbols := desk.symbols.addConst (Ident.spell n.name) }
  change (constantBlock n (Ident.spell n.name) value inside).result = .ok () at done
  change ∃ front closing inside',
    (constantBlock n (Ident.spell n.name) value inside).commands = _ ∧ _
  simp only [constantBlock, Script.line, Script.write, Script.declare, Script.indented,
    Script.endLine, command_bind_apply, bind_assoc] at done ⊢
  obtain ⟨⟨⟩, here, _, _, commands⟩ := bind_ok done
  refine ⟨[.line s!"[export:\"{Ident.spell n.name}\"]", .line "const (", .deeper],
    [.endLine, .shallower, .line ")"], inside, ?_, here, rfl, rfl⟩
  rw [commands]
  rfl

theorem globalsDefined_of_parts {front middle closing : List Command} {what : Reference}
    {name : String} (h₁ : globalsDefined front = []) (h₂ : globalsDefined middle = [])
    (h₃ : globalsDefined closing = []) :
    globalsDefined (front ++ .declare .global what name :: .write " = " :: (middle ++ closing)) =
      [name] := by
  have head : globalsDefined (.declare .global what name :: .write " = " :: (middle ++ closing)) =
      name :: globalsDefined (middle ++ closing) := rfl
  rw [globalsDefined_append, head, globalsDefined_append, h₁, h₂, h₃]
  rfl

/-- A global is declared once in its definition, with its value if it has one. -/
theorem definition_ok (done : (definition n desk).result = .ok ()) :
    globalsDefined (definition n desk).commands = [Ident.spell n.name] ∧
      ∀ value, initializer? n = some value →
        GivesValue (definition n desk).commands n value := by
  unfold definition at done ⊢
  cases hi : initializer? n with
  | none => exact ⟨rfl, fun value given => by cases given⟩
  | some value =>
      rw [hi] at done
      dsimp only at done ⊢
      cases hc : isConstant n with
      | true =>
          rw [hc] at done
          obtain ⟨front, closing, inside, commands, ok, none₁, none₂⟩ := constantText_ok done
          obtain ⟨written, valueOk⟩ := writeExpr_ok ok
          have none := globalsDefined_of_spelled
            (writeExpr_related congruence_spells (whole_spells value)) inside
          simp only [if_true]
          rw [commands]
          refine ⟨globalsDefined_of_parts none₁ none none₂, ?_⟩
          rintro _ ⟨⟩
          exact ⟨front, [], closing, inside, by rw [written]; rfl, valueOk, .inl rfl⟩
      | false =>
          rw [hc] at done
          obtain ⟨front, closing, commands, ok, none₁, none₂⟩ := variableText_ok done
          obtain ⟨opening, ending, written, valueOk, shape⟩ := givenText_ok ok
          have none := globalsDefined_of_spelled
            (givenText_related congruence_spells n (Spelling.typeOf n.spelling)
              (whole_spells value)) desk
          simp only [Bool.false_eq_true, if_false]
          rw [commands]
          refine ⟨globalsDefined_of_parts none₁ none none₂, ?_⟩
          rintro _ ⟨⟩
          refine ⟨front, opening, ending ++ closing, desk, ?_, valueOk, shape⟩
          rw [written, List.append_assoc _ ending]

end Definition

variable {u : SourceUnit} {symbols : Symbols} {k : Nat} {v : Visit} {key : String}

/-- The visit is to a declaration of the global. -/
def Visit.Declares (key : String) (v : Visit) : Prop :=
  v.decl.kind = .varDecl ∧ Ident.spell v.decl.name = key

/-- The visit writes nothing, whatever has been written before. -/
def Visit.passesOver (u : SourceUnit) (v : Visit) : Bool := v.decl.info.isBuiltin || yields u v.decl

theorem globals_replay_of_other {changes : List Change} (hk : v.decl.kind ≠ .varDecl)
    (h : ∀ c ∈ changes, v.Enters c) : (symbols.replay changes).globals = symbols.globals := by
  induction changes generalizing symbols with
  | nil => rfl
  | cons c rest ih =>
      obtain ⟨first, others⟩ := List.forall_mem_cons.mp h
      refine (ih others).trans ?_
      cases c with
      | global g => exact absurd first.1 hk
      | _ => rfl

/-- A definition with storage has been written before. -/
def Settled (u : SourceUnit) (symbols : Symbols) (key : String) (k : Nat) : Prop :=
  ∃ j < k, ∃ v, (visits u.root.inner)[j]? = some v ∧
    key ∈ globalsDefined (passage u symbols j) ∧ v.decl.isExtern = false

theorem settled_succ_iff (hv : (visits u.root.inner)[k]? = some v) :
    Settled u symbols key (k + 1) ↔ Settled u symbols key k ∨
      (key ∈ globalsDefined (passage u symbols k) ∧ v.decl.isExtern = false) := by
  constructor
  · rintro ⟨j, hj, w, hw, here⟩
    rcases Nat.lt_succ_iff_lt_or_eq.mp hj with hj | rfl
    · exact .inl ⟨j, hj, w, hw, here⟩
    · rw [hv, Option.some.injEq] at hw
      subst hw
      exact .inr here
  · rintro (⟨j, hj, w, hw, here⟩ | here)
    · exact ⟨j, Nat.lt_succ_of_lt hj, w, hw, here⟩
    · exact ⟨k, Nat.lt_succ_self k, v, hv, here⟩

theorem not_final_of_isWritten {n : Node} {g : Global} (h : isWritten u symbols n = true)
    (found : symbols.globals.lookup (Ident.spell n.name) = some g) : g.isExtern = true := by
  rcases Symbols.checkGlobal_emit (checkGlobal_of_isWritten h) with new | ⟨old, hold, outer, _⟩
  · rw [new] at found
    cases found
  · rw [hold, Option.some.injEq] at found
    exact found ▸ outer

section Visits

variable (done : (writeUnit u { symbols }).result = .ok ())
include done

theorem globalsDefined_passage (hv : (visits u.root.inner)[k]? = some v) :
    globalsDefined (passage u symbols k) =
      if v.isWritten u (firstVisits u symbols k).desk.symbols then [Ident.spell v.decl.name]
      else [] := by
  obtain ⟨ok, _⟩ := visit_ok done hv
  rw [passage_eq hv]
  by_cases hk : v.decl.kind = .varDecl
  · rcases global_visit_cases hk ok with ⟨written, whole, commands, _⟩ | ⟨written, _, notes⟩
    · rw [written, commands, if_pos rfl]
      change globalsDefined (_ ++ _ ++ _) = _
      rw [globalsDefined_append, globalsDefined_append, (definition_ok whole).1]
      split <;> rfl
    · rw [written, if_neg Bool.false_ne_true]
      refine List.filterMap_eq_nil_iff.mpr fun c hc => ?_
      obtain ⟨e, rfl⟩ := notes c hc
      rfl
  · have written : v.isWritten u (firstVisits u symbols k).desk.symbols = false := by
      simp [Visit.isWritten, hk]
    rw [written, if_neg Bool.false_ne_true]
    refine List.filterMap_eq_nil_iff.mpr fun c hc => ?_
    obtain ⟨before, after, split⟩ := List.append_of_mem hc
    have spelled := spells_of_spellsFrom
      (visit_spelled u (not_isGroup_of_mem_visits _ (List.mem_of_getElem? hv)) _) split
    cases c with
    | declare role what name =>
        cases role with
        | global => exact absurd (spelled.1 rfl).1 hk
        | _ => rfl
    | _ => rfl

theorem mem_globalsDefined_passage (hv : (visits u.root.inner)[k]? = some v) :
    key ∈ globalsDefined (passage u symbols k) ↔
      v.isWritten u (firstVisits u symbols k).desk.symbols = true ∧
        Ident.spell v.decl.name = key := by
  rw [globalsDefined_passage done hv]
  split
  · rename_i written
    rw [List.mem_singleton, eq_comm]
    exact ⟨fun same => ⟨written, same⟩, And.right⟩
  · rename_i written
    exact ⟨fun h => absurd h List.not_mem_nil, fun h => absurd h.1 written⟩

/-- A global that is written has its value. -/
theorem givesValue_passage {value : Node} (hv : (visits u.root.inner)[k]? = some v)
    (hi : initializer? v.decl = some value) (here : key ∈ globalsDefined (passage u symbols k)) :
    GivesValue (passage u symbols k) v.decl value := by
  obtain ⟨written, _⟩ := (mem_globalsDefined_passage done hv).mp here
  have kind : v.decl.kind = .varDecl := by
    simp only [Visit.isWritten, Bool.and_eq_true, decide_eq_true_eq] at written
    exact written.1.1
  obtain ⟨ok, _⟩ := visit_ok done hv
  rcases global_visit_cases kind ok with ⟨_, whole, commands, _⟩ | ⟨silent, _⟩
  · rw [passage_eq hv, commands]
    have given := ((definition_ok whole).2 value hi).within [.mark] ([.line ""] ++
      if u.shared then [.take (Ident.spell v.decl.name)] else [])
    rw [← List.append_assoc] at given
    exact given
  · rw [silent] at written
    cases written

/-- The entry of a global changes when it is written and not otherwise. -/
theorem lookup_visit (hv : (visits u.root.inner)[k]? = some v) :
    (firstVisits u symbols (k + 1)).desk.symbols.globals.lookup key =
      if v.isWritten u (firstVisits u symbols k).desk.symbols ∧ Ident.spell v.decl.name = key then
        some (globalOf v.decl)
      else (firstVisits u symbols k).desk.symbols.globals.lookup key := by
  obtain ⟨ok, after⟩ := visit_ok done hv
  rw [after]
  by_cases hk : v.decl.kind = .varDecl
  · rcases global_visit_cases hk ok with ⟨written, _, _, desk⟩ | ⟨written, desk, _⟩
    · rw [desk, written]
      have same : (withConstant v.decl (firstVisits u symbols k).desk.symbols).globals =
          (firstVisits u symbols k).desk.symbols.globals := by
        unfold withConstant
        split <;> rfl
      change (putEntry (Ident.spell v.decl.name) (globalOf v.decl)
        (withConstant v.decl (firstVisits u symbols k).desk.symbols).globals).lookup key = _
      rw [lookup_putEntry, same]
      simp [eq_comm]
    · rw [desk, written]
      simp
  · obtain ⟨changes, own, _, reached, _⟩ := visit_makes u
      (not_isGroup_of_mem_visits _ (List.mem_of_getElem? hv)) (firstVisits u symbols k).desk
    have written : v.isWritten u (firstVisits u symbols k).desk.symbols = false := by
      simp [Visit.isWritten, hk]
    rw [reached, written, globals_replay_of_other hk own]
    simp

/-- The entry of a global has storage once a definition with storage has been written. -/
theorem final_iff_settled (new : symbols.globals.lookup key = none)
    (hk : k ≤ (visits u.root.inner).length) :
    (∃ g, (firstVisits u symbols k).desk.symbols.globals.lookup key = some g ∧
      g.isExtern = false) ↔ Settled u symbols key k := by
  induction k with
  | zero =>
      refine ⟨fun ⟨g, found, _⟩ => ?_, fun ⟨j, hj, _⟩ => absurd hj (Nat.not_lt_zero j)⟩
      change symbols.globals.lookup key = some g at found
      rw [new] at found
      cases found
  | succ k ih =>
      have hv := List.getElem?_eq_getElem (Nat.lt_of_succ_le hk)
      have before := ih (Nat.le_of_succ_le hk)
      rw [settled_succ_iff hv, mem_globalsDefined_passage done hv, lookup_visit done hv, ← before]
      split
      · rename_i here
        obtain ⟨written, same⟩ := here
        -- What is written now has found no entry with storage.
        have unsettled : ¬ ∃ g, (firstVisits u symbols k).desk.symbols.globals.lookup key = some g ∧
            g.isExtern = false := by
          rintro ⟨g, found, storage⟩
          rw [← same] at found
          simp only [Visit.isWritten, Bool.and_eq_true] at written
          rw [not_final_of_isWritten written.2 found] at storage
          cases storage
        constructor
        · rintro ⟨_, ⟨⟩, storage⟩
          exact .inr ⟨⟨written, same⟩, storage⟩
        · rintro (earlier | ⟨_, storage⟩)
          · exact absurd earlier unsettled
          · exact ⟨_, rfl, storage⟩
      · rename_i here
        simp [here]

/-- A declaration is written unless it is passed over or the global is settled. -/
theorem defined_iff (new : symbols.globals.lookup key = none)
    (hv : (visits u.root.inner)[k]? = some v) :
    key ∈ globalsDefined (passage u symbols k) ↔
      v.Declares key ∧ v.passesOver u = false ∧ ¬ Settled u symbols key k := by
  have hk : k ≤ (visits u.root.inner).length :=
    Nat.le_of_lt (List.getElem?_eq_some_iff.mp hv).1
  rw [mem_globalsDefined_passage done hv, ← final_iff_settled done new hk]
  constructor
  · rintro ⟨written, rfl⟩
    simp only [Visit.isWritten, Bool.and_eq_true, decide_eq_true_eq, Bool.not_eq_true'] at written
    obtain ⟨⟨kind, own⟩, written⟩ := written
    refine ⟨⟨kind, rfl⟩, ?_, ?_⟩
    · have stays : yields u v.decl = false := by
        simp only [isWritten, Bool.and_eq_true, Bool.not_eq_true'] at written
        exact written.1.1
      rw [Visit.passesOver, own, stays]
      rfl
    · rintro ⟨g, found, storage⟩
      rw [not_final_of_isWritten written found] at storage
      cases storage
  · rintro ⟨⟨kind, rfl⟩, stays, unsettled⟩
    refine ⟨?_, rfl⟩
    simp only [Visit.passesOver, Bool.or_eq_false_iff] at stays
    obtain ⟨ok, _⟩ := visit_ok done hv
    rw [Visit.script, topLevel_global stays.1 kind] at ok
    have written : isWritten u (firstVisits u symbols k).desk.symbols v.decl = true := by
      refine isWritten_of_ok stays.2 (fun g found => ?_) ok
      rw [← Bool.not_eq_false]
      exact fun storage => unsettled ⟨g, found, storage⟩
    simp [Visit.isWritten, kind, stays.1, written]

/-- The definition stands at one place: no declaration before it is written, and one behind it only
if it has no storage itself. -/
theorem defined_only_at_iff (new : symbols.globals.lookup key = none) {i : Nat}
    (hv : (visits u.root.inner)[i]? = some v) (hd : v.Declares key) :
    (∀ k, key ∈ globalsDefined (passage u symbols k) ↔ k = i) ↔
      v.passesOver u = false ∧
      (∀ j < i, ∀ w, (visits u.root.inner)[j]? = some w → w.Declares key →
        w.passesOver u = true) ∧
      (v.decl.isExtern = false ∨
        ∀ j > i, ∀ w, (visits u.root.inner)[j]? = some w → w.Declares key →
          w.passesOver u = true) := by
  constructor
  · intro only
    obtain ⟨_, stays, unsettled⟩ := (defined_iff done new hv).mp ((only i).mpr rfl)
    -- A declaration elsewhere is not written, so it is passed over or comes after a definition.
    have elsewhere {j : Nat} (hj : j ≠ i) {w : Visit} (hw : (visits u.root.inner)[j]? = some w)
        (hdw : w.Declares key) (free : ¬ Settled u symbols key j) : w.passesOver u = true := by
      rw [← Bool.not_eq_false]
      exact fun stays => hj ((only j).mp ((defined_iff done new hw).mpr ⟨hdw, stays, free⟩))
    refine ⟨stays, fun j hj w hw hdw => ?_, ?_⟩
    · refine elsewhere (Nat.ne_of_lt hj) hw hdw ?_
      rintro ⟨l, hl, x, hx, here, storage⟩
      exact unsettled ⟨l, Nat.lt_trans hl hj, x, hx, here, storage⟩
    · cases hs : v.decl.isExtern with
      | false => exact .inl rfl
      | true =>
          refine .inr fun j hj w hw hdw => elsewhere (Nat.ne_of_gt hj) hw hdw ?_
          rintro ⟨l, hl, x, hx, here, storage⟩
          rw [(only l).mp here, hv, Option.some.injEq] at hx
          rw [← hx, hs] at storage
          cases storage
  · rintro ⟨stays, before, behind⟩ k
    -- Nothing before the declaration is written, so that it is free to be.
    have nothing {j : Nat} (hj : j < i) : key ∉ globalsDefined (passage u symbols j) := by
      intro here
      obtain ⟨c, hc, _⟩ := List.mem_filterMap.mp here
      obtain ⟨w, hw⟩ := visit_of_mem_passage hc
      obtain ⟨hdw, kept, _⟩ := (defined_iff done new hw).mp here
      rw [before j hj w hw hdw] at kept
      cases kept
    have here : key ∈ globalsDefined (passage u symbols i) :=
      (defined_iff done new hv).mpr ⟨hd, stays, fun ⟨j, hj, _, _, earlier, _⟩ => nothing hj earlier⟩
    refine ⟨fun hk => ?_, fun hk => hk ▸ here⟩
    obtain ⟨c, hc, _⟩ := List.mem_filterMap.mp hk
    obtain ⟨w, hw⟩ := visit_of_mem_passage hc
    obtain ⟨hdw, kept, free⟩ := (defined_iff done new hw).mp hk
    rcases Nat.lt_trichotomy k i with hlt | same | hgt
    · exact absurd hk (nothing hlt)
    · exact same
    · rcases behind with storage | behind
      · exact absurd ⟨i, hgt, v, hv, here, storage⟩ free
      · rw [behind k hgt w hw hdw] at kept
        cases kept

/-- Each passage declares a global once or not at all. -/
theorem count_globalsDefined (hk : k ≤ (visits u.root.inner).length) :
    (globalsDefined (firstVisits u symbols k).commands).count key =
      (List.range k).countP fun j => key ∈ globalsDefined (passage u symbols j) := by
  induction k with
  | zero => rfl
  | succ k ih =>
      have hv := List.getElem?_eq_getElem (Nat.lt_of_succ_le hk)
      obtain ⟨_, _, _, commands⟩ := firstVisits_succ hv (firstVisits_ok done hk)
      rw [commands, globalsDefined_append, List.count_append, ih (Nat.le_of_succ_le hk),
        List.range_succ, List.countP_append, List.countP_singleton, globalsDefined_passage done hv]
      congr 1
      split
      · rw [List.count_singleton]
        by_cases h : Ident.spell (visits u.root.inner)[k].decl.name = key
        · simp [h]
        · simp [h, Ne.symm h]
      · rfl

end Visits

theorem countP_range_eq_one_iff {p : Nat → Bool} {n i : Nat} (hi : i < n) :
    (List.range n).countP p = 1 ∧ p i = true ↔ ∀ k < n, p k = true ↔ k = i := by
  constructor
  · rintro ⟨one, here⟩ k hk
    rw [List.countP_eq_length_filter, List.length_eq_one_iff] at one
    obtain ⟨a, only⟩ := one
    have member {j : Nat} (hj : j < n) (h : p j = true) : j = a := by
      have inside := List.mem_filter.mpr ⟨List.mem_range.mpr hj, h⟩
      rwa [only, List.mem_singleton] at inside
    exact ⟨fun h => (member hk h).trans (member hi here).symm, fun h => h ▸ here⟩
  · intro only
    have same : (List.range n).countP p = (List.range n).count i :=
      List.countP_congr fun k hk => by simpa using only k (List.mem_range.mp hk)
    rw [same]
    exact ⟨List.count_eq_one_of_mem List.nodup_range (List.mem_range.mpr hi), (only i hi).mpr rfl⟩

end VFromC.Decl
