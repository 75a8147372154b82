import VFromC.Proofs.Decl.Names
/-!
What a visit leaves behind: which globals it has written, and which names are known from then on.
-/
namespace VFromC.Decl
open VFromC.Syntax VFromC.Output VFromC.Emit

variable {u : SourceUnit} {symbols : Symbols} {v : Visit} {desk : Desk}

/-- The visit is to a global that is written. -/
def Visit.isWritten (u : SourceUnit) (symbols : Symbols) (v : Visit) : Bool :=
  v.decl.kind = .varDecl && !v.decl.info.isBuiltin && Decl.isWritten u symbols v.decl

/-- Something is written, and not only noted. -/
def isSpoken (commands : List Command) : Bool :=
  commands.any fun c => match c with
    | .note _ => false
    | _ => true

theorem isSpoken_of_notes {commands : List Command} (h : ∀ c ∈ commands, ∃ e, c = .note e) :
    isSpoken commands = false := by
  refine List.any_eq_false.mpr fun c hc => ?_
  obtain ⟨e, rfl⟩ := h c hc
  exact Bool.false_ne_true

/-- A global is written as a whole and entered, or nothing happens at all. -/
theorem global_visit_cases (hk : v.decl.kind = .varDecl)
    (done : (v.script u desk).result = .ok ()) :
    (v.isWritten u desk.symbols = true ∧ (definition v.decl desk).result = .ok () ∧
      (v.script u desk).commands = .mark :: ((definition v.decl desk).commands ++ [.line ""] ++
        if u.shared then [.take (Ident.spell v.decl.name)] else []) ∧
      (v.script u desk).desk = { desk with
        symbols := (withConstant v.decl desk.symbols).addGlobal (globalOf v.decl) }) ∨
    (v.isWritten u desk.symbols = false ∧ (v.script u desk).desk = desk ∧
      ∀ c ∈ (v.script u desk).commands, ∃ e, c = .note e) := by
  unfold Visit.isWritten
  cases hb : v.decl.info.isBuiltin with
  | true =>
      obtain ⟨text, same⟩ := topLevel_of_isBuiltin v.next hb
      rw [Visit.script, same]
      exact .inr ⟨by simp, silent_note text desk⟩
  | false =>
      have same : v.script u desk = judgedGlobal u v.decl desk.symbols desk := by
        rw [Visit.script, topLevel_global hb hk]
        rfl
      rw [same] at done ⊢
      cases hw : Decl.isWritten u desk.symbols v.decl with
      | false => exact .inr ⟨by simp, silent_of_not_isWritten hw desk⟩
      | true =>
          rw [judgedGlobal_of_isWritten hw] at done ⊢
          obtain ⟨frame, _⟩ := definition_frame v.decl desk
          rcases hd : definition v.decl desk with ⟨commands, next, e | ⟨⟩⟩
          · rw [recordGlobal_apply_error hd] at done
            cases done
          · rw [hd] at frame
            dsimp only at frame
            rw [recordGlobal_apply_ok hd, frame]
            exact .inl ⟨by simp [hk], rfl, rfl, rfl⟩

/-- The visit makes the name known once it is written. -/
def Visit.Introduces (v : Visit) (name : String) : Prop :=
  (v.decl.kind = .varDecl ∧ Ident.spell v.decl.name = Ident.spell name) ∨ name ∈ constantNames v

theorem knows_addGlobal (t : Symbols) (g : Global) (name : String) :
    (t.addGlobal g).knows name = true ↔ t.knows name = true ∨ g.name = Ident.spell name := by
  have globals : (t.addGlobal g).hasGlobal (Ident.spell name) = true ↔
      t.hasGlobal (Ident.spell name) = true ∨ g.name = Ident.spell name := by
    unfold Symbols.hasGlobal Symbols.addGlobal
    rw [lookup_putEntry]
    by_cases h : Ident.spell name = g.name
    · simp [h]
    · simp [h, Ne.symm h]
  have consts : (t.addGlobal g).hasConst name = t.hasConst name := rfl
  simp only [Symbols.knows, Bool.or_eq_true, globals, consts, or_assoc]

theorem knows_of_written (hk : v.decl.kind = .varDecl) (name : String) :
    ((withConstant v.decl symbols).addGlobal (globalOf v.decl)).knows name = true ↔
      symbols.knows name = true ∨ v.Introduces name := by
  rw [knows_addGlobal, Visit.Introduces, constantNames_of_global hk, withConstant]
  split
  · rw [knows_addConst, Bool.or_eq_true, beq_iff_eq, List.mem_singleton, or_assoc]
    exact or_congr_right ⟨fun h => h.symm.imp_left (⟨hk, ·⟩), fun h => (h.imp_left And.right).symm⟩
  · simp [hk, globalOf]

/-- Changes that enter neither constants nor globals make no name known. -/
theorem knows_replay {changes : List Change} (hv : v.decl.kind ≠ .varDecl)
    (hc : constantNames v = []) (h : ∀ c ∈ changes, v.Enters c) (name : String) :
    (symbols.replay changes).knows name = symbols.knows name := by
  induction changes generalizing symbols with
  | nil => rfl
  | cons c rest ih =>
      obtain ⟨first, others⟩ := List.forall_mem_cons.mp h
      refine (ih others).trans ?_
      cases c with
      | const added =>
          change added ∈ constantNames v at first
          rw [hc] at first
          cases first
      | global g => exact absurd first.1 hv
      | _ => rfl

section Constants

theorem constMembers_enter {members : List Node} {previous : Option String}
    (done : (constMembers previous members desk).result = .ok ()) (name : String) :
    (constMembers previous members desk).desk.symbols.knows name = true ↔
      desk.symbols.knows name = true ∨ name ∈ members.map Node.name := by
  induction members generalizing previous desk with
  | nil => simp [constMembers, Script.pure_apply]
  | cons member rest ih =>
      obtain ⟨⟨⟩, _, done₁, entered, _⟩ := bind_ok done
      obtain ⟨⟨⟩, _, done₂, same₂, _⟩ := bind_ok done₁
      obtain ⟨⟨⟩, _, done₃, same₃, _⟩ := bind_ok done₂
      obtain ⟨⟨⟩, _, done₄, same₄, _⟩ := bind_ok done₃
      obtain ⟨⟨⟩, _, done₅, same₅, _⟩ := bind_ok done₄
      change (constMembers previous (member :: rest) desk).desk = _ at entered
      rw [entered, same₂, same₃, same₄, same₅, ih done₅]
      change (constValue previous member _).desk.symbols.knows name = true ∨ _ ↔ _
      rw [((constValue_kept previous member) _).1]
      change (desk.symbols.addConst member.name).knows name = true ∨ _ ↔ _
      rw [knows_addConst]
      simp [or_assoc]

theorem topLevel_enum {next : Option Node} {n : Node} (hb : n.info.isBuiltin = false)
    (hk : n.kind = .enumDecl) : topLevel u next n = enumDecl n next := by
  obtain ⟨info, filler, inner⟩ := n
  have hk : info.kind = .enumDecl := hk
  simp [topLevel, hk, show info.isBuiltin = false from hb]

theorem enumDecl_of_unnamed {n : Node} {next : Option Node} (h : tagName n next = "") :
    enumDecl n next desk = constEnum n desk := by
  change (if tagName n next = "boolean" then _ else if tagName n next = "" then _ else _ :
    Script Unit) desk = _
  rw [h]
  rfl

theorem constEnum_enters {n : Node} (done : (constEnum n desk).result = .ok ()) (name : String) :
    (constEnum n desk).desk.symbols.knows name = true ↔
      desk.symbols.knows name = true ∨ name ∈ (n.childrenOf .enumConstantDecl).map Node.name := by
  obtain ⟨⟨⟩, _, done₁, same₁, _⟩ := bind_ok done
  obtain ⟨⟨⟩, done₂, _, same₂, _⟩ := bind_ok done₁
  change (constEnum n desk).desk = _ at same₁
  rw [same₁, same₂]
  change (Script.indented (constMembers none (n.childrenOf .enumConstantDecl)) desk).result =
    .ok () at done₂
  change (Script.indented (constMembers none (n.childrenOf .enumConstantDecl))
    desk).desk.symbols.knows name = true ↔ _
  rcases hm : constMembers none (n.childrenOf .enumConstantDecl) desk with ⟨commands, next, e | ⟨⟩⟩
  · rw [Script.indented_apply_error hm] at done₂
    cases done₂
  · rw [Script.indented_apply_ok hm]
    have enters := constMembers_enter (congrArg Written.result hm) name
    rwa [hm] at enters

end Constants

/-- A visit makes known what it introduces, if it is written, and nothing else. -/
theorem knows_visit (hg : isGroup v.decl.info = false)
    (done : (v.script u desk).result = .ok ()) (name : String) :
    (v.script u desk).desk.symbols.knows name = true ↔
      desk.symbols.knows name = true ∨
        (v.Introduces name ∧ isSpoken (v.script u desk).commands = true) := by
  by_cases hk : v.decl.kind = .varDecl
  · rcases global_visit_cases hk done with ⟨_, _, commands, after⟩ | ⟨_, after, notes⟩
    · have spoken : isSpoken (v.script u desk).commands = true := by
        rw [commands]
        rfl
      rw [after, knows_of_written hk, spoken]
      simp
    · rw [after, isSpoken_of_notes notes]
      simp
  · by_cases he : v.decl.kind = .enumDecl ∧ tagName v.decl v.next = ""
    · obtain ⟨he, unnamed⟩ := he
      have introduces : v.Introduces name ↔
          name ∈ (v.decl.childrenOf .enumConstantDecl).map Node.name := by
        rw [Visit.Introduces, constantNames_of_enum he unnamed]
        simp [hk]
      cases hb : v.decl.info.isBuiltin with
      | true =>
          obtain ⟨text, same⟩ := topLevel_of_isBuiltin v.next hb
          rw [Visit.script, same]
          obtain ⟨after, notes⟩ := silent_note text desk
          rw [after, isSpoken_of_notes notes]
          simp
      | false =>
          have same : v.script u desk = constEnum v.decl desk := by
            rw [Visit.script, topLevel_enum hb he, enumDecl_of_unnamed unnamed]
          rw [same] at done ⊢
          have spoken : isSpoken (constEnum v.decl desk).commands = true := by
            obtain ⟨_, _, _, _, commands⟩ := bind_ok done
            change (constEnum v.decl desk).commands = _ at commands
            rw [commands]
            rfl
          rw [constEnum_enters done, introduces, spoken]
          simp
    · have none : constantNames v = [] := by
        rw [constantNames, if_neg hk, if_neg he]
      obtain ⟨changes, own, _, after, _⟩ := visit_makes u hg desk
      rw [after, knows_replay hk none own]
      simp [Visit.Introduces, hk, none]

/-- The name is known where a visit starts: from before the unit, or from an earlier visit. -/
def KnownBefore (u : SourceUnit) (symbols : Symbols) (k : Nat) (name : String) : Prop :=
  symbols.knows name = true ∨ ∃ j < k, ∃ v, (visits u.root.inner)[j]? = some v ∧
    v.Introduces name ∧ isSpoken (passage u symbols j) = true

theorem knows_firstVisits (done : (writeUnit u { symbols }).result = .ok ()) {k : Nat}
    (hk : k ≤ (visits u.root.inner).length) (name : String) :
    (firstVisits u symbols k).desk.symbols.knows name = true ↔ KnownBefore u symbols k name := by
  induction k with
  | zero => exact ⟨.inl, fun h => h.resolve_right fun ⟨j, hj, _⟩ => absurd hj (Nat.not_lt_zero j)⟩
  | succ k ih =>
      have hv := List.getElem?_eq_getElem (Nat.lt_of_succ_le hk)
      obtain ⟨ok, after⟩ := visit_ok done hv
      have one := knows_visit (not_isGroup_of_mem_visits _ (List.mem_of_getElem? hv)) ok name
      rw [after, one, ih (Nat.le_of_succ_le hk), ← passage_eq hv, KnownBefore, KnownBefore,
        or_assoc]
      refine or_congr_right ⟨?_, ?_⟩
      · rintro (⟨j, hj, w, rest⟩ | here)
        · exact ⟨j, Nat.lt_succ_of_lt hj, w, rest⟩
        · exact ⟨k, Nat.lt_succ_self k, _, hv, here⟩
      · rintro ⟨j, hj, w, hw, here⟩
        rcases Nat.lt_succ_iff_lt_or_eq.mp hj with hj | rfl
        · exact .inl ⟨j, hj, w, hw, here⟩
        · rw [hv, Option.some.injEq] at hw
          subst hw
          exact .inr here

end VFromC.Decl
