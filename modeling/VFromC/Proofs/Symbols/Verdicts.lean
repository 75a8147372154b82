import VFromC.Proofs.Symbols.History
/-!
Declarations of globals, one after another.

Each declaration is judged by the record that those before it have left, and a record without
storage gives way to the next declaration. Which declarations there are decides whether all of them
pass, not their order: types that agree with one record agree with each other.
-/
namespace VFromC
open VFromC.Spelling

/-- Any two of the declarations have types that agree. -/
def AllAgree (entries : List Global) : Prop :=
  ∀ a ∈ entries, ∀ b ∈ entries, sameType a.type b.type = true

/-- The declaration that stays as the record of its name: the first one with storage, or the last
one where none has any. -/
def settled (entries : List Global) : Option Global :=
  (entries.find? fun g => !g.isExtern).or entries.getLast?

namespace Symbols

/-- Judges a declaration, and enters it when it is to be written. -/
def declare (t : Symbols) (g : Global) : Except Fault Symbols :=
  match t.checkGlobal g.name g.type with
  | .ok .emit => .ok (t.addGlobal g)
  | .ok .duplicate => .ok t
  | .error e => .error e

/-- Judges declarations in order, up to the first one that fails. -/
def declareAll (t : Symbols) (declared : List Global) : Except Fault Symbols :=
  declared.foldlM declare t

/-- The record of a name, if there is one, and the declarations of the name that follow. -/
def entriesOf (t : Symbols) (declared : List Global) (name : String) : List Global :=
  (t.globals.lookup name).toList ++ declared.filter (·.name = name)

end Symbols

section Entries

variable {entries others : List Global} {g old : Global}

theorem sameType_comm (a b : String) : sameType a b = sameType b a := by
  have symm (a b : String) (h : sameType a b = true) : sameType b a = true := by
    simp only [sameType, Bool.or_eq_true, Bool.and_eq_true, decide_eq_true_eq] at h ⊢
    rcases h with rfl | ⟨⟨ha, hb⟩, same⟩
    · exact .inl rfl
    · exact .inr ⟨⟨hb, ha⟩, same.symm⟩
  exact Bool.eq_iff_iff.mpr ⟨symm a b, symm b a⟩

theorem allAgree_congr (h : ∀ g, g ∈ entries ↔ g ∈ others) :
    AllAgree entries ↔ AllAgree others := by
  simp only [AllAgree, h]

/-- A declaration that agrees with one of the others agrees with all of them, if these agree. -/
theorem allAgree_cons (hm : old ∈ entries) (same : sameType g.type old.type = true) :
    AllAgree (g :: entries) ↔ AllAgree entries := by
  constructor
  · exact fun h a ha b hb => h a (List.mem_cons_of_mem g ha) b (List.mem_cons_of_mem g hb)
  · intro h a ha b hb
    have toAny {b : Global} (hb : b ∈ entries) : sameType g.type b.type = true :=
      sameType_trans same (h old hm b hb)
    rcases List.mem_cons.mp ha with rfl | ha' <;> rcases List.mem_cons.mp hb with rfl | hb'
    · exact sameType_refl _
    · exact toAny hb'
    · rw [sameType_comm]
      exact toAny ha'
    · exact h a ha' b hb'

/-- What a declaration does to the entries of its name: it joins them as the first one, completes a
record without storage, or repeats one with storage. -/
inductive Joins : List Global → List Global → Prop where
  | first (entries : List Global) : Joins entries entries
  | completes {old g : Global} (rest : List Global) (ext : old.isExtern = true)
      (same : sameType old.type g.type = true) : Joins (old :: g :: rest) (g :: rest)
  | repeats {old g : Global} (rest : List Global) (storage : old.isExtern = false)
      (same : sameType old.type g.type = true) : Joins (old :: g :: rest) (old :: rest)

theorem Joins.allAgree_iff (h : Joins entries others) : AllAgree entries ↔ AllAgree others := by
  cases h with
  | first => exact Iff.rfl
  | completes rest ext same => exact allAgree_cons List.mem_cons_self same
  | @repeats old g rest storage same =>
      have swapped : AllAgree (old :: g :: rest) ↔ AllAgree (g :: old :: rest) :=
        allAgree_congr fun _ => (List.Perm.swap g old rest).mem_iff
      rw [swapped]
      exact allAgree_cons List.mem_cons_self (sameType_comm _ _ ▸ same)

theorem Joins.settled_eq (h : Joins entries others) : settled entries = settled others := by
  cases h with
  | first => rfl
  | completes rest ext => simp [settled, ext]
  | repeats rest storage => simp [settled, storage]

theorem settled_of_mem (h : g ∈ entries) : ∃ stays, settled entries = some stays := by
  obtain ⟨last, hl⟩ := Option.isSome_iff_exists.mp
    (List.getLast?_isSome.mpr (List.ne_nil_of_mem h))
  rw [settled, hl]
  cases entries.find? fun g => !g.isExtern with
  | none => exact ⟨last, rfl⟩
  | some first => exact ⟨first, rfl⟩

theorem settled_isExtern_iff (h : settled entries = some g) :
    g.isExtern = true ↔ ∀ d ∈ entries, d.isExtern = true := by
  rcases Option.or_eq_some_iff.mp h with found | ⟨none, last⟩
  · have storage := List.find?_some found
    refine ⟨fun ext => ?_, fun all => all g (List.mem_of_find?_eq_some found)⟩
    simp [ext] at storage
  · exact ⟨fun _ d hd => by simpa using List.find?_eq_none.mp none d hd,
      fun all => all g (List.mem_of_getLast? last)⟩

end Entries

namespace Symbols

variable {t next : Symbols} {g : Global} {declared : List Global}

theorem entriesOf_of_fresh (fresh : t.globals = []) (declared : List Global) (name : String) :
    t.entriesOf declared name = declared.filter (·.name = name) := by
  simp [entriesOf, fresh]

theorem entriesOf_addGlobal (t : Symbols) (g : Global) (declared : List Global) (name : String) :
    (t.addGlobal g).entriesOf declared name =
      if g.name = name then g :: declared.filter (·.name = name)
      else t.entriesOf declared name := by
  rw [entriesOf, addGlobal, lookup_putEntry]
  by_cases h : g.name = name
  · rw [if_pos h.symm, if_pos h]
    rfl
  · rw [if_neg fun same => h same.symm, if_neg h]
    rfl

theorem joins_of_declare (h : t.declare g = .ok next) (declared : List Global) (name : String) :
    Joins (t.entriesOf (g :: declared) name) (next.entriesOf declared name) := by
  unfold declare at h
  by_cases hn : g.name = name
  · subst hn
    have entries : t.entriesOf (g :: declared) g.name =
        (t.globals.lookup g.name).toList ++ g :: declared.filter (·.name = g.name) := by
      simp [entriesOf]
    rw [entries]
    rcases hv : t.checkGlobal g.name g.type with e | ⟨_ | _⟩
    · simp [hv] at h
    · simp only [hv] at h
      cases h
      rw [entriesOf_addGlobal, if_pos rfl]
      rcases checkGlobal_emit hv with new | ⟨old, found, ext, same⟩
      · rw [new]
        exact .first _
      · rw [found]
        exact .completes _ ext same
    · simp only [hv] at h
      cases h
      obtain ⟨old, found, storage, same⟩ := checkGlobal_duplicate hv
      rw [entriesOf, found]
      exact .repeats _ storage same
  · -- The entries of another name are left as they are.
    have untouched : next.entriesOf declared name = t.entriesOf (g :: declared) name := by
      have skipped : t.entriesOf (g :: declared) name = t.entriesOf declared name := by
        simp [entriesOf, hn]
      rw [skipped]
      split at h
      · cases h
        rw [entriesOf_addGlobal, if_neg hn]
      · cases h
        rfl
      · cases h
    rw [untouched]
    exact .first _

theorem not_allAgree_of_declare {e : Fault} (h : t.declare g = .error e) (declared : List Global) :
    ¬AllAgree (t.entriesOf (g :: declared) g.name) := by
  unfold declare at h
  split at h
  · cases h
  · cases h
  · rename_i hv
    obtain ⟨old, found, differs⟩ := checkGlobal_error hv
    intro agree
    have same := agree old (by simp [entriesOf, found]) g (by simp [entriesOf])
    rw [differs] at same
    cases same

/-- Declarations pass exactly if the entries of each name agree. -/
theorem declareAll_isOk_iff (t : Symbols) (declared : List Global) :
    (∃ next, t.declareAll declared = .ok next) ↔ ∀ name, AllAgree (t.entriesOf declared name) := by
  induction declared generalizing t with
  | nil =>
      refine ⟨fun _ name a ha b hb => ?_, fun _ => ⟨t, rfl⟩⟩
      -- A name has at most one entry, its record.
      have one : a = b := by
        simp only [entriesOf, List.filter_nil, List.append_nil, Option.mem_toList] at ha hb
        exact Option.mem_unique ha hb
      exact one ▸ sameType_refl _
  | cons g rest ih =>
      rw [declareAll, List.foldlM_cons]
      rcases h : t.declare g with e | next
      · refine ⟨fun ⟨_, ok⟩ => (by cases ok), fun agree => ?_⟩
        exact absurd (agree g.name) (not_allAgree_of_declare h rest)
      · have same (name : String) := (joins_of_declare h rest name).allAgree_iff
        simp only [same]
        exact ih next

/-- Declarations that pass leave one record for each name. -/
theorem lookup_declareAll {last : Symbols} (h : t.declareAll declared = .ok last) (name : String) :
    last.globals.lookup name = settled (t.entriesOf declared name) := by
  induction declared generalizing t with
  | nil =>
      cases h
      cases found : last.globals.lookup name with
      | none => simp [entriesOf, found, settled]
      | some g => cases he : g.isExtern <;> simp [entriesOf, found, settled, he]
  | cons g rest ih =>
      rw [declareAll, List.foldlM_cons] at h
      rcases hd : t.declare g with e | next
      · rw [hd] at h
        cases h
      · rw [hd] at h
        exact (ih h).trans (joins_of_declare hd rest name).settled_eq.symm

/-- In a table without globals, declarations fail exactly if two of one name have types that
differ. -/
theorem declareAll_error_iff (fresh : t.globals = []) (declared : List Global) :
    (∃ e, t.declareAll declared = .error e) ↔
      ∃ a ∈ declared, ∃ b ∈ declared, a.name = b.name ∧ sameType a.type b.type = false := by
  have fails : (∃ e, t.declareAll declared = .error e) ↔
      ¬∃ next, t.declareAll declared = .ok next := by
    cases t.declareAll declared <;> simp
  rw [fails, declareAll_isOk_iff]
  simp only [AllAgree, entriesOf_of_fresh fresh, List.mem_filter, decide_eq_true_eq]
  constructor
  · intro differ
    push Not at differ
    obtain ⟨name, a, ⟨ha, rfl⟩, b, ⟨hb, hn⟩, different⟩ := differ
    exact ⟨a, ha, b, hb, hn.symm, Bool.eq_false_iff.mpr different⟩
  · rintro ⟨a, ha, b, hb, hn, different⟩ agree
    have same := agree a.name a ⟨ha, rfl⟩ b ⟨hb, hn.symm⟩
    rw [different] at same
    cases same

/-- Which declarations there are decides whether they pass, in any order: two of one name must not
differ in their types. Those that pass leave a record for each name, without storage exactly if none
of its declarations has storage, and otherwise the first one that has. -/
theorem globals_judged_in_any_order (t : Symbols) (fresh : t.globals = [])
    (declared : List Global) :
    ((∃ e, t.declareAll declared = .error e) ↔
      ∃ a ∈ declared, ∃ b ∈ declared, a.name = b.name ∧ sameType a.type b.type = false) ∧
    (∀ reordered, reordered.Perm declared →
      ((∃ e, t.declareAll reordered = .error e) ↔ ∃ e, t.declareAll declared = .error e)) ∧
    ∀ last, t.declareAll declared = .ok last → ∀ d ∈ declared,
      ∃ g, last.globals.lookup d.name = some g ∧
        (g.isExtern = true ↔ ∀ other ∈ declared, other.name = d.name → other.isExtern = true) ∧
        ∀ first, declared.find? (fun other => other.name = d.name && !other.isExtern) = some first →
          g = first := by
  refine ⟨declareAll_error_iff fresh declared, fun reordered perm => ?_, fun last ok d hd => ?_⟩
  · simp only [declareAll_error_iff fresh, perm.mem_iff]
  · have record := lookup_declareAll ok d.name
    rw [entriesOf_of_fresh fresh] at record
    have here : d ∈ declared.filter (·.name = d.name) := by simpa using hd
    obtain ⟨g, hg⟩ := settled_of_mem here
    refine ⟨g, record.trans hg, ?_, fun first found => ?_⟩
    · rw [settled_isExtern_iff hg]
      simp only [List.mem_filter, decide_eq_true_eq, and_imp]
    · simp only [settled, List.find?_filter, Bool.decide_and, Bool.decide_eq_true, found] at hg
      exact (Option.some.inj hg).symm

/-- A global that is declared as an array without and with a length, and defined twice. -/
def fourfold : List Global :=
  [⟨"table", "[]int", true⟩, ⟨"table", "[3]int", true⟩, ⟨"table", "[4]int", false⟩,
    ⟨"table", "[5]int", false⟩]

/-- Its first definition stays, whatever stands before it, and a further declaration of another type
makes the four fail wherever it stands. -/
theorem fourfold_judged :
    (({} : Symbols).globals = [] ∧ ∃ last, declareAll {} fourfold = .ok last ∧
      ∃ g, last.globals.lookup "table" = some g ∧ g = ⟨"table", "[4]int", false⟩) ∧
    ∃ e, declareAll {} (fourfold ++ [⟨"table", "u8", true⟩]) = .error e := by
  obtain ⟨-, -, left⟩ := globals_judged_in_any_order {} rfl fourfold
  refine ⟨⟨rfl, _, rfl, ?_⟩, ?_⟩
  · obtain ⟨g, record, -, first⟩ := left _ rfl ⟨"table", "[]int", true⟩ (by simp [fourfold])
    exact ⟨g, record, first _ rfl⟩
  · obtain ⟨judged, -, -⟩ :=
      globals_judged_in_any_order {} rfl (fourfold ++ [⟨"table", "u8", true⟩])
    rw [judged]
    exact ⟨_, List.mem_cons_self, ⟨"table", "u8", true⟩, by simp, rfl, by decide⟩

end Symbols

end VFromC
