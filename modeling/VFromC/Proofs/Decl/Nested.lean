import Mathlib.Data.List.Nodup
import VFromC.Proofs.Decl.Rest
/-!
Records inside of records.

The name of a record is entered before the records inside of it are come to, and its text is written
behind theirs. A record without a name, or with the name of a library type, is passed over together
with everything inside of it.
-/
namespace VFromC.Decl
open VFromC.Syntax VFromC.Output VFromC.Emit

/-- A record is written under this name unless the name is taken. -/
def isNamedRecord (n : Node) (name : String) : Bool :=
  !n.inner.isEmpty && name ≠ "" && !Ident.isLibraryType name

/-- A record that is written under its own name unless the name is taken. -/
def isWritable (n : Node) : Bool := n.kind = .recordDecl && isNamedRecord n n.name

mutual

/-- The records inside of a node that only records stand around, each behind those inside of it. -/
def recordsIn : Node → List Node
  | ⟨_, _, inner⟩ => recordsAmong inner

def recordsAmong : List Node → List Node
  | [] => []
  | n :: rest => (if n.kind = .recordDecl then recordsIn n ++ [n] else []) ++ recordsAmong rest

end

/-- No two of the records that may be written have the same name. -/
def Unrepeated (records : List Node) : Prop := ((records.filter isWritable).map Node.name).Nodup

/-- Moreover, none of their names is taken. -/
structure Distinct (known : Symbols) (records : List Node) : Prop where
  names : Unrepeated records
  free : ∀ r ∈ records, isWritable r = true → known.hasType r.name = false

section Output

def isNote : Command → Bool
  | .note _ => true
  | _ => false

/-- What is written, without the notes. -/
def output (commands : List Command) : List Command := commands.filter fun c => !isNote c

theorem output_append (c₁ c₂ : List Command) : output (c₁ ++ c₂) = output c₁ ++ output c₂ :=
  List.filter_append c₁ c₂

/-- The text of a record, from its heading to the empty line behind it. -/
def recordBlock (n : Node) (name : String) : List Command :=
  [.head (.record (n.info.tagUsed = "union") name), .deeper] ++ (fieldLines n).map .line ++
    [.shallower, .line "\x7d", .line ""]

theorem output_recordBlock (n : Node) (name : String) :
    output (recordBlock n name) = recordBlock n name := by
  have lines : output ((fieldLines n).map .line) = (fieldLines n).map .line := by
    refine List.filter_eq_self.mpr fun c hc => ?_
    obtain ⟨text, _, rfl⟩ := List.mem_map.mp hc
    rfl
  rw [recordBlock, output_append, output_append, lines]
  rfl

theorem each_line (lines : List String) (desk : Desk) :
    Script.each Script.line lines desk = ⟨lines.map .line, desk, .ok ()⟩ := by
  induction lines with
  | nil => rfl
  | cons text rest ih =>
      have first : Script.line text desk = ⟨[.line text], desk, .ok ()⟩ := rfl
      rw [Script.each, Script.bind_apply_ok first, ih]
      rfl

theorem recordText_apply (n : Node) (name : String) (desk : Desk) :
    recordText n name desk = ⟨recordBlock n name, desk, .ok ()⟩ := by
  have heading : Script.head (.record (n.info.tagUsed = "union") name) desk =
      ⟨[.head (.record (n.info.tagUsed = "union") name)], desk, .ok ()⟩ := rfl
  have fields := Script.indented_apply_ok (each_line (fieldLines n) desk)
  rw [recordText, Script.bind_apply_ok heading, Script.bind_apply_ok fields, recordBlock]
  simp [Script.line, Script.command, Script.bind_apply]

end Output

section Trees

theorem recordsIn_eq (n : Node) : recordsIn n = recordsAmong n.inner := by
  cases n
  rw [recordsIn]

theorem kind_of_isWritable {n : Node} (h : isWritable n = true) : n.kind = .recordDecl := by
  rw [isWritable, Bool.and_eq_true, decide_eq_true_eq] at h
  exact h.1

theorem recordsAmong_append (d₁ d₂ : List Node) :
    recordsAmong (d₁ ++ d₂) = recordsAmong d₁ ++ recordsAmong d₂ := by
  induction d₁ with
  | nil =>
      rw [recordsAmong]
      rfl
  | cons n rest ih => rw [List.cons_append, recordsAmong, recordsAmong, ih, List.append_assoc]

theorem mem_recordsAmong_cons {r n : Node} {rest : List Node} :
    r ∈ recordsAmong (n :: rest) ↔
      (n.kind = .recordDecl ∧ (r ∈ recordsIn n ∨ r = n)) ∨ r ∈ recordsAmong rest := by
  rw [recordsAmong, List.mem_append]
  split
  · rename_i kind
    simp [kind]
  · rename_i kind
    simp [kind]

theorem mem_recordsAmong {r : Node} {decls : List Node} (kind : r.kind = .recordDecl)
    (h : r ∈ decls) : r ∈ recordsAmong decls := by
  induction decls with
  | nil => cases h
  | cons n rest ih =>
      rw [mem_recordsAmong_cons]
      rcases List.mem_cons.mp h with rfl | later
      · exact .inl ⟨kind, .inr rfl⟩
      · exact .inr (ih later)

mutual

theorem recordsIn_trans {p r : Node} (inside : r ∈ recordsIn p) :
    ∀ n, p ∈ recordsIn n → r ∈ recordsIn n
  | ⟨_, _, inner⟩ => by
      rw [recordsIn]
      exact recordsAmong_trans inside inner

/-- What is inside of a record is among the records that it is among. -/
theorem recordsAmong_trans {p r : Node} (inside : r ∈ recordsIn p) :
    ∀ decls, p ∈ recordsAmong decls → r ∈ recordsAmong decls
  | [], h => by
      rw [recordsAmong] at h
      cases h
  | n :: rest, h => by
      rw [mem_recordsAmong_cons] at h ⊢
      rcases h with ⟨kind, within | rfl⟩ | later
      · exact .inl ⟨kind, .inl (recordsIn_trans inside n within)⟩
      · exact .inl ⟨kind, .inl inside⟩
      · exact .inr (recordsAmong_trans inside rest later)

end

/-- A record that is come to: it may be written, and so may all records around it. -/
inductive Reached : List Node → Node → Prop where
  | here {n : Node} {rest : List Node} (own : isWritable n = true) : Reached (n :: rest) n
  | inside {n r : Node} {rest : List Node} (own : isWritable n = true) (h : Reached n.inner r) :
      Reached (n :: rest) r
  | later {n r : Node} {rest : List Node} (h : Reached rest r) : Reached (n :: rest) r

theorem reached_of_mem {r : Node} {decls : List Node} (own : isWritable r = true)
    (h : r ∈ decls) : Reached decls r := by
  induction decls with
  | nil => cases h
  | cons n rest ih =>
      rcases List.mem_cons.mp h with rfl | later
      · exact .here own
      · exact .later (ih later)

theorem Reached.writable {r : Node} {decls : List Node} (h : Reached decls r) :
    isWritable r = true := by
  induction h with
  | here own => exact own
  | inside _ _ ih => exact ih
  | later _ ih => exact ih

theorem Reached.mem {r : Node} {decls : List Node} (h : Reached decls r) :
    r ∈ recordsAmong decls := by
  induction h with
  | here own => exact mem_recordsAmong_cons.mpr (.inl ⟨kind_of_isWritable own, .inr rfl⟩)
  | @inside n r rest own _ ih =>
      refine mem_recordsAmong_cons.mpr (.inl ⟨kind_of_isWritable own, .inl ?_⟩)
      rw [recordsIn_eq]
      exact ih
  | later _ ih => exact mem_recordsAmong_cons.mpr (.inr ih)

theorem Reached.child {p c : Node} {decls : List Node} (h : Reached decls p)
    (own : isWritable c = true) (child : c ∈ p.inner) : Reached decls c := by
  induction h with
  | here parent => exact .inside parent (reached_of_mem own child)
  | inside parent _ ih => exact .inside parent (ih child)
  | later _ ih => exact .later (ih child)

/-- A list that has the children of its records has all records that are come to. -/
theorem Reached.mem_of_closed {r : Node} {decls written : List Node} (h : Reached decls r)
    (top : ∀ c ∈ decls, isWritable c = true → c ∈ written)
    (closed : ∀ p ∈ written, ∀ c ∈ p.inner, isWritable c = true → c ∈ written) : r ∈ written := by
  induction h with
  | here own => exact top _ List.mem_cons_self own
  | inside own _ ih => exact ih (closed _ (top _ List.mem_cons_self own))
  | later _ ih => exact ih fun c hc => top c (List.mem_cons_of_mem _ hc)

mutual

theorem reachedIn_of_around {r : Node} (own : isWritable r = true) :
    ∀ n, r ∈ recordsIn n → (∀ p ∈ recordsIn n, r ∈ recordsIn p → isWritable p = true) →
      Reached n.inner r
  | ⟨_, _, inner⟩ => by
      rw [recordsIn]
      exact reached_of_around own inner

/-- A record is come to if all records around it may be written. -/
theorem reached_of_around {r : Node} (own : isWritable r = true) :
    ∀ decls, r ∈ recordsAmong decls →
      (∀ p ∈ recordsAmong decls, r ∈ recordsIn p → isWritable p = true) → Reached decls r
  | [], h, _ => by
      rw [recordsAmong] at h
      cases h
  | n :: rest, h, around => by
      rcases mem_recordsAmong_cons.mp h with ⟨kind, within | rfl⟩ | later
      · have parent : isWritable n = true :=
          around n (mem_recordsAmong_cons.mpr (.inl ⟨kind, .inr rfl⟩)) within
        refine .inside parent (reachedIn_of_around own n within fun p hp => around p ?_)
        exact mem_recordsAmong_cons.mpr (.inl ⟨kind, .inl hp⟩)
      · exact .here own
      · refine .later (reached_of_around own rest later fun p hp => around p ?_)
        exact mem_recordsAmong_cons.mpr (.inr hp)

end

section Unrepeated

variable {l₁ l₂ : List Node}

theorem Unrepeated.sublist (h : Unrepeated l₂) (sub : l₁.Sublist l₂) : Unrepeated l₁ :=
  List.Nodup.sublist ((sub.filter isWritable).map Node.name) h

/-- A record that may be written is at one place only. -/
theorem Unrepeated.apart (h : Unrepeated (l₁ ++ l₂)) {r : Node} (own : isWritable r = true)
    (first : r ∈ l₁) : r ∉ l₂ := by
  intro second
  rw [Unrepeated, List.filter_append, List.map_append] at h
  have name {l : List Node} (hr : r ∈ l) : r.name ∈ (l.filter isWritable).map Node.name :=
    List.mem_map_of_mem (List.mem_filter.mpr ⟨hr, own⟩)
  exact (List.nodup_append.mp h).2.2 _ (name first) _ (name second) rfl

theorem Unrepeated.inj {l : List Node} (h : Unrepeated l) {r r' : Node} (own : isWritable r = true)
    (own' : isWritable r' = true) (hr : r ∈ l) (hr' : r' ∈ l) (same : r.name = r'.name) : r = r' :=
  List.inj_on_of_nodup_map h (List.mem_filter.mpr ⟨hr, own⟩) (List.mem_filter.mpr ⟨hr', own'⟩) same

variable {n : Node} {rest : List Node}

theorem recordsAmong_cons_of_kind (kind : n.kind = .recordDecl) :
    recordsAmong (n :: rest) = recordsIn n ++ ([n] ++ recordsAmong rest) := by
  rw [recordsAmong, if_pos kind, List.append_assoc]

theorem Unrepeated.inside (h : Unrepeated (recordsAmong (n :: rest)))
    (kind : n.kind = .recordDecl) : Unrepeated (recordsIn n) := by
  rw [recordsAmong_cons_of_kind kind] at h
  exact h.sublist (List.sublist_append_left _ _)

theorem Unrepeated.behind (h : Unrepeated (recordsAmong (n :: rest))) :
    Unrepeated (recordsAmong rest) := by
  rw [recordsAmong] at h
  exact h.sublist (List.sublist_append_right _ _)

/-- What is inside of the first record is not elsewhere. -/
theorem Unrepeated.not_mem_of_inside (h : Unrepeated (recordsAmong (n :: rest)))
    (kind : n.kind = .recordDecl) {r : Node} (own : isWritable r = true)
    (inside : r ∈ recordsIn n) : r ≠ n ∧ r ∉ recordsAmong rest := by
  rw [recordsAmong_cons_of_kind kind] at h
  have elsewhere := h.apart own inside
  rw [List.singleton_append, List.mem_cons, not_or] at elsewhere
  exact elsewhere

theorem Unrepeated.not_mem_of_first (h : Unrepeated (recordsAmong (n :: rest)))
    (own : isWritable n = true) : n ∉ recordsAmong rest := by
  rw [recordsAmong_cons_of_kind (kind_of_isWritable own)] at h
  exact (h.sublist (List.sublist_append_right _ _)).apart own List.mem_cons_self

end Unrepeated

/-- If no name is repeated, all records around a record that is come to may be written. -/
theorem Reached.around {r : Node} {decls : List Node} (h : Reached decls r)
    (names : Unrepeated (recordsAmong decls)) :
    ∀ p ∈ recordsAmong decls, r ∈ recordsIn p → isWritable p = true := by
  -- In every case but one, a record around it elsewhere would put it at two places.
  induction h with
  | @here n rest own =>
      intro p hp around
      rcases mem_recordsAmong_cons.mp hp with ⟨kind, within | rfl⟩ | later
      · exact absurd rfl (names.not_mem_of_inside kind own (recordsIn_trans around n within)).1
      · exact absurd rfl (names.not_mem_of_inside kind own around).1
      · exact absurd (recordsAmong_trans around rest later) (names.not_mem_of_first own)
  | @inside n r rest own reached ih =>
      intro p hp around
      have kind := kind_of_isWritable own
      rw [← recordsIn_eq] at ih
      rcases mem_recordsAmong_cons.mp hp with ⟨_, within | rfl⟩ | later
      · exact ih (names.inside kind) p within around
      · exact own
      · have inside : r ∈ recordsIn n := by
          rw [recordsIn_eq]
          exact reached.mem
        exact absurd (recordsAmong_trans around rest later)
          (names.not_mem_of_inside kind reached.writable inside).2
  | @later n r rest reached ih =>
      intro p hp around
      rcases mem_recordsAmong_cons.mp hp with ⟨kind, within | rfl⟩ | later
      · exact absurd reached.mem
          (names.not_mem_of_inside kind reached.writable (recordsIn_trans around n within)).2
      · exact absurd reached.mem (names.not_mem_of_inside kind reached.writable around).2
      · exact ih names.behind p later around

mutual

theorem recordsIn_ordered : ∀ n, Unrepeated (recordsIn n) →
    (recordsIn n).Pairwise fun earlier later => isWritable later = true → later ∉ recordsIn earlier
  | ⟨_, _, inner⟩ => by
      rw [recordsIn]
      exact recordsAmong_ordered inner

/-- If no name is repeated, no record that may be written stands behind one around it. -/
theorem recordsAmong_ordered : ∀ decls, Unrepeated (recordsAmong decls) →
    (recordsAmong decls).Pairwise fun earlier later =>
      isWritable later = true → later ∉ recordsIn earlier
  | [], _ => by
      rw [recordsAmong]
      exact .nil
  | n :: rest, names => by
      have behind := recordsAmong_ordered rest names.behind
      by_cases kind : n.kind = .recordDecl
      · rw [recordsAmong_cons_of_kind kind, List.pairwise_append, List.singleton_append,
          List.pairwise_cons]
        refine ⟨recordsIn_ordered n (names.inside kind), ⟨?_, behind⟩, ?_⟩
        · intro later among own inside
          exact (names.not_mem_of_inside kind own inside).2 among
        · intro earlier within later among own inside
          obtain ⟨other, elsewhere⟩ :=
            names.not_mem_of_inside kind own (recordsIn_trans inside n within)
          rcases List.mem_cons.mp among with rfl | among
          · exact other rfl
          · exact elsewhere among
      · rw [recordsAmong, if_neg kind, List.nil_append]
        exact behind

end

end Trees

section Runs

/-- Each record is one of `decls` or a child of a record that follows it. -/
def ParentsFollow (decls : List Node) : List Node → Prop
  | [] => True
  | r :: later => (r ∈ decls ∨ ∃ p ∈ later, r ∈ p.inner) ∧ ParentsFollow decls later

/-- Going through `decls` with some symbols known leads to the records that are written, in order,
and to the symbols that are known afterwards. -/
structure Nested (known : Symbols) (decls written : List Node) (after : Symbols) : Prop where
  once : (written.map Node.name).Nodup
  writable : ∀ r ∈ written, isWritable r = true ∧ known.hasType r.name = false
  parents : ParentsFollow decls written
  /-- The name of each record that is come to is known in the end. -/
  children : ∀ c, c ∈ decls ∨ (∃ p ∈ written, c ∈ p.inner) → isWritable c = true →
    after.hasType c.name = true
  order : written.Sublist (recordsAmong decls)
  names : ∀ name, after.hasType name = true ↔
    known.hasType name = true ∨ name ∈ written.map Node.name
  others : after = { known with types := after.types }

theorem ParentsFollow.append {d₁ d₂ w₁ w₂ : List Node} (first : ParentsFollow d₁ w₁)
    (second : ParentsFollow d₂ w₂) : ParentsFollow (d₁ ++ d₂) (w₁ ++ w₂) := by
  induction w₁ with
  | nil =>
      induction w₂ with
      | nil => trivial
      | cons r later ih =>
          refine ⟨?_, ih second.2⟩
          rcases second.1 with top | parent
          · exact .inl (List.mem_append_right _ top)
          · exact .inr parent
  | cons r later ih =>
      refine ⟨?_, ih first.2⟩
      rcases first.1 with top | ⟨p, hp, child⟩
      · exact .inl (List.mem_append_left _ top)
      · exact .inr ⟨p, List.mem_append_left _ hp, child⟩

/-- A record follows what is inside of it. -/
theorem ParentsFollow.concat {n : Node} {written : List Node} (h : ParentsFollow n.inner written) :
    ParentsFollow [n] (written ++ [n]) := by
  induction written with
  | nil => exact ⟨.inl List.mem_cons_self, trivial⟩
  | cons r later ih =>
      refine ⟨.inr ?_, ih h.2⟩
      rcases h.1 with top | ⟨p, hp, child⟩
      · exact ⟨n, List.mem_append_right _ List.mem_cons_self, top⟩
      · exact ⟨p, List.mem_append_left _ hp, child⟩

theorem hasType_addType {t : Symbols} {name other : String} :
    (t.addType name).hasType other = true ↔ other = name ∨ t.hasType other = true := by
  rw [Symbols.hasType, Symbols.addType, List.contains_iff_mem, mem_insertName, Symbols.hasType,
    List.contains_iff_mem]

variable {known t₁ t₂ t₃ after : Symbols} {decls d₁ d₂ written w₁ w₂ : List Node} {n : Node}

theorem nested_nothing (taken : ∀ c ∈ decls, isWritable c = true → known.hasType c.name = true) :
    Nested known decls [] known where
  once := List.nodup_nil
  writable := fun r h => absurd h List.not_mem_nil
  parents := trivial
  children := by
    rintro c (top | ⟨p, hp, _⟩) own
    · exact taken c top own
    · cases hp
  order := List.nil_sublist _
  names name := by simp
  others := rfl

/-- A record joins the records inside of it, which are come to with its name known. -/
theorem Nested.concat (own : isWritable n = true) (new : known.hasType n.name = false)
    (inside : Nested (known.addType n.name) n.inner written after) :
    Nested known [n] (written ++ [n]) after where
  once := by
    rw [List.map_append, List.nodup_append]
    refine ⟨inside.once, List.nodup_singleton _, ?_⟩
    intro name hr other hn same
    obtain ⟨r, among, rfl⟩ := List.mem_map.mp hr
    rw [List.map_singleton, List.mem_singleton] at hn
    have free := (inside.writable r among).2
    rw [same.trans hn, ← Bool.not_eq_true] at free
    exact free (hasType_addType.mpr (.inl rfl))
  writable := by
    rw [List.forall_mem_append, List.forall_mem_singleton]
    refine ⟨fun r hr => ?_, own, new⟩
    obtain ⟨own', free⟩ := inside.writable r hr
    refine ⟨own', ?_⟩
    rw [← Bool.not_eq_true] at free ⊢
    exact fun listed => free (hasType_addType.mpr (.inr listed))
  parents := inside.parents.concat
  children := by
    have entered : after.hasType n.name = true :=
      (inside.names n.name).mpr (.inl (hasType_addType.mpr (.inl rfl)))
    rintro c (top | ⟨p, hp, child⟩) own'
    · rw [List.mem_singleton.mp top]
      exact entered
    · rcases List.mem_append.mp hp with hp | hp
      · exact inside.children c (.inr ⟨p, hp, child⟩) own'
      · rw [List.mem_singleton.mp hp] at child
        exact inside.children c (.inl child) own'
  order := by
    rw [recordsAmong_cons_of_kind (kind_of_isWritable own), recordsIn_eq]
    exact inside.order.append (List.sublist_append_left _ _)
  names name := by
    rw [inside.names, hasType_addType, List.map_append, List.mem_append, List.map_singleton,
      List.mem_singleton]
    tauto
  others := inside.others

theorem Nested.append (first : Nested t₁ d₁ w₁ t₂) (second : Nested t₂ d₂ w₂ t₃) :
    Nested t₁ (d₁ ++ d₂) (w₁ ++ w₂) t₃ where
  once := by
    rw [List.map_append, List.nodup_append]
    refine ⟨first.once, second.once, ?_⟩
    rintro name early _ late rfl
    obtain ⟨r, hr, rfl⟩ := List.mem_map.mp late
    have free := (second.writable r hr).2
    rw [← Bool.not_eq_true] at free
    exact free ((first.names r.name).mpr (.inr early))
  writable := by
    rw [List.forall_mem_append]
    refine ⟨first.writable, fun r hr => ?_⟩
    obtain ⟨own, free⟩ := second.writable r hr
    refine ⟨own, ?_⟩
    rw [← Bool.not_eq_true] at free ⊢
    exact fun listed => free ((first.names r.name).mpr (.inl listed))
  parents := first.parents.append second.parents
  children := by
    have kept (name : String) (h : t₂.hasType name = true) : t₃.hasType name = true :=
      (second.names name).mpr (.inl h)
    rintro c (top | ⟨p, hp, child⟩) own
    · rcases List.mem_append.mp top with top | top
      · exact kept _ (first.children c (.inl top) own)
      · exact second.children c (.inl top) own
    · rcases List.mem_append.mp hp with hp | hp
      · exact kept _ (first.children c (.inr ⟨p, hp, child⟩) own)
      · exact second.children c (.inr ⟨p, hp, child⟩) own
  order := by
    rw [recordsAmong_append]
    exact first.order.append second.order
  names name := by
    rw [second.names, first.names, List.map_append, List.mem_append, or_assoc]
  others := by
    rw [second.others, first.others]

/-- The texts of records under their own names. -/
def blocks (written : List Node) : List Command := written.flatMap fun r => recordBlock r r.name

def WritesNested (decls : List Node) (s : Script Unit) : Prop :=
  ∀ desk, ∃ written, (s desk).result = .ok () ∧ output (s desk).commands = blocks written ∧
    Nested desk.symbols decls written (s desk).desk.symbols

theorem blocks_append (w₁ w₂ : List Node) : blocks (w₁ ++ w₂) = blocks w₁ ++ blocks w₂ :=
  List.flatMap_append

theorem blocks_concat (written : List Node) (n : Node) :
    blocks (written ++ [n]) = blocks written ++ recordBlock n n.name := by
  rw [blocks_append, blocks, blocks, List.flatMap_singleton]

theorem WritesNested.bind {s t : Script Unit} (hs : WritesNested d₁ s) (ht : WritesNested d₂ t) :
    WritesNested (d₁ ++ d₂) (do s; t) := by
  intro desk
  obtain ⟨w₁, done₁, out₁, nested₁⟩ := hs desk
  obtain ⟨w₂, done₂, out₂, nested₂⟩ := ht (s desk).desk
  rw [bind_of_ok done₁]
  refine ⟨w₁ ++ w₂, done₂, ?_, nested₁.append nested₂⟩
  rw [output_append, out₁, out₂, blocks_append]

theorem isNamedRecord_iff {name : String} : isNamedRecord n name = true ↔
    n.inner.isEmpty = false ∧ name ≠ "" ∧ Ident.isLibraryType name = false := by
  simp only [isNamedRecord, Bool.and_eq_true, Bool.not_eq_true', decide_eq_true_eq, and_assoc]

theorem recordDecl_eq (next : Option Node) (n : Node) (desk : Desk) :
    recordDecl next n desk =
      (if n.inner.isEmpty then pure ()
      else if tagName n next = "" then
        Script.note s!"skipping anonymous record at offset {n.info.place.offset}"
      else if Ident.isLibraryType (tagName n next) || desk.symbols.hasType (tagName n next) then
        pure ()
      else do
        Script.register (·.addType (tagName n next))
        Script.note s!"record {tagName n next} with {n.countChildren .fieldDecl} fields"
        nestedRecords n.inner
        recordText n (tagName n next) : Script Unit) desk := by
  cases n
  rw [recordDecl]
  rfl

theorem recordDecl_of_new {next : Option Node} {desk : Desk}
    (own : isNamedRecord n (tagName n next) = true)
    (new : desk.symbols.hasType (tagName n next) = false) :
    ∃ text, recordDecl next n desk =
      (do Script.note text; nestedRecords n.inner; recordText n (tagName n next) : Script Unit)
        { desk with symbols := desk.symbols.addType (tagName n next) } := by
  obtain ⟨content, named, ours⟩ := isNamedRecord_iff.mp own
  refine ⟨s!"record {tagName n next} with {n.countChildren .fieldDecl} fields", ?_⟩
  rw [recordDecl_eq, content, ours, new]
  simp only [Bool.false_eq_true, Bool.or_self, if_false, named]
  rfl

/-- A record whose name is new is written behind the records inside of it. -/
theorem recordDecl_run (next : Option Node) {desk : Desk}
    (own : isNamedRecord n (tagName n next) = true)
    (new : desk.symbols.hasType (tagName n next) = false)
    (inside : WritesNested n.inner (nestedRecords n.inner)) :
    ∃ written, (recordDecl next n desk).result = .ok () ∧
      output (recordDecl next n desk).commands =
        blocks written ++ recordBlock n (tagName n next) ∧
      Nested (desk.symbols.addType (tagName n next)) n.inner written
        (recordDecl next n desk).desk.symbols := by
  obtain ⟨text, run⟩ := recordDecl_of_new own new
  obtain ⟨written, done, out, nested⟩ :=
    inside { desk with symbols := desk.symbols.addType (tagName n next) }
  have note (d : Desk) : Script.note text d = ⟨[.note (debug text)], d, .ok ()⟩ := rfl
  rw [run, Script.bind_apply_ok (note _), bind_of_ok done, recordText_apply]
  refine ⟨written, rfl, ?_, nested⟩
  rw [output_append, output_append, out, output_recordBlock]
  rfl

/-- Otherwise nothing is written. -/
theorem recordDecl_silent (next : Option Node) (n : Node) (desk : Desk)
    (h : isNamedRecord n (tagName n next) = true → desk.symbols.hasType (tagName n next) = true) :
    (recordDecl next n desk).result = .ok () ∧ output (recordDecl next n desk).commands = [] ∧
      (recordDecl next n desk).desk = desk := by
  rw [recordDecl_eq]
  split
  · exact ⟨rfl, rfl, rfl⟩
  · split
    · exact ⟨rfl, rfl, rfl⟩
    · split
      · exact ⟨rfl, rfl, rfl⟩
      · rename_i content named free
        rw [Bool.or_eq_true, not_or, Bool.not_eq_true] at free
        exact absurd (h (isNamedRecord_iff.mpr ⟨by simpa using content, named, free.1⟩)) free.2

theorem isWritable_iff : isWritable n = true ↔
    n.kind = .recordDecl ∧ isNamedRecord n n.name = true := by
  rw [isWritable, Bool.and_eq_true, decide_eq_true_eq]

theorem writesNested_record (inside : WritesNested n.inner (nestedRecords n.inner)) :
    WritesNested [n] (Script.when (n.kind = .recordDecl ∧ n.name ≠ "") (recordDecl none n)) := by
  intro desk
  by_cases shown : isWritable n = true ∧ desk.symbols.hasType n.name = false
  · obtain ⟨own, new⟩ := shown
    obtain ⟨kind, named⟩ := isWritable_iff.mp own
    rw [Script.when, if_pos ⟨kind, (isNamedRecord_iff.mp named).2.1⟩]
    obtain ⟨written, done, out, nested⟩ := recordDecl_run none named new inside
    refine ⟨written ++ [n], done, ?_, nested.concat own new⟩
    rw [out, blocks_concat]
    rfl
  · have taken : isWritable n = true → desk.symbols.hasType n.name = true := by
      simpa only [not_and, Bool.not_eq_false] using shown
    have nothing : Nested desk.symbols [n] [] desk.symbols :=
      nested_nothing (by simpa only [List.forall_mem_singleton] using taken)
    unfold Script.when
    split
    · rename_i kind
      obtain ⟨done, out, same⟩ := recordDecl_silent none n desk
        fun named => taken (isWritable_iff.mpr ⟨kind.1, named⟩)
      rw [done, out, same]
      exact ⟨[], rfl, rfl, nothing⟩
    · exact ⟨[], rfl, rfl, nothing⟩

mutual

theorem nestedRecord_written : ∀ n : Node,
    WritesNested [n] (Script.when (n.kind = .recordDecl ∧ n.name ≠ "") (recordDecl none n))
  | ⟨_, _, inner⟩ => writesNested_record (nestedRecords_written inner)

/-- The records among some declarations are written as far as they are come to. -/
theorem nestedRecords_written : ∀ decls, WritesNested decls (nestedRecords decls)
  | [] => fun desk => ⟨[], rfl, rfl, nested_nothing fun c h => absurd h List.not_mem_nil⟩
  | n :: rest => by
      rw [nestedRecords]
      exact (nestedRecord_written n).bind (nestedRecords_written rest)

end

/-- Each record that is written is come to. -/
theorem ParentsFollow.reached (follow : ParentsFollow decls written)
    (own : ∀ r ∈ written, isWritable r = true) : ∀ r ∈ written, Reached decls r := by
  induction written with
  | nil => exact fun r h => absurd h List.not_mem_nil
  | cons r later ih =>
      obtain ⟨first, others⟩ := List.forall_mem_cons.mp own
      have behind := ih follow.2 others
      refine List.forall_mem_cons.mpr ⟨?_, behind⟩
      rcases follow.1 with top | ⟨p, hp, child⟩
      · exact reached_of_mem first top
      · exact (behind p hp).child first child

/-- If no name is repeated or taken, a record that is come to is written. -/
theorem Nested.mem_of_reached (h : Nested known decls written after)
    (distinct : Distinct known (recordsAmong decls)) {r : Node} (reached : Reached decls r) :
    r ∈ written := by
  -- The record of its name that is written is the record itself.
  have closed (c : Node) (own : isWritable c = true)
      (place : c ∈ decls ∨ ∃ p ∈ written, c ∈ p.inner) : c ∈ written := by
    have among : c ∈ recordsAmong decls := by
      have kind := kind_of_isWritable own
      rcases place with top | ⟨p, hp, child⟩
      · exact mem_recordsAmong kind top
      · refine recordsAmong_trans ?_ decls (h.order.subset hp)
        rw [recordsIn_eq]
        exact mem_recordsAmong kind child
    rcases (h.names c.name).mp (h.children c place own) with taken | listed
    · rw [distinct.free c among own] at taken
      cases taken
    · obtain ⟨r, hr, same⟩ := List.mem_map.mp listed
      rwa [distinct.names.inj own (h.writable r hr).1 among (h.order.subset hr) same.symm]
  refine reached.mem_of_closed (fun c hc own => closed c own (.inl hc)) fun p hp c child own => ?_
  exact closed c own (.inr ⟨p, hp, child⟩)

/-- If no name is repeated or taken, a record is written exactly if all records around it may be. -/
theorem Nested.mem_iff (h : Nested known decls written after)
    (distinct : Distinct known (recordsAmong decls)) {r : Node} (own : isWritable r = true)
    (among : r ∈ recordsAmong decls) :
    r ∈ written ↔ ∀ p ∈ recordsAmong decls, r ∈ recordsIn p → isWritable p = true := by
  constructor
  · intro hr
    have reached := h.parents.reached (fun r hr => (h.writable r hr).1) r hr
    exact reached.around distinct.names
  · intro around
    exact h.mem_of_reached distinct (reached_of_around own decls among around)

theorem Nested.ordered (h : Nested known decls written after)
    (distinct : Distinct known (recordsAmong decls)) :
    written.Pairwise fun earlier later => later ∉ recordsIn earlier := by
  have order := (recordsAmong_ordered decls distinct.names).sublist h.order
  exact order.imp_of_mem fun _ later apart => apart (h.writable _ later).1

end Runs

/-- A record under a new name is written behind records inside of it. Each of these stands before
its parent, no name comes twice, and every record child of a record that is written has its name
known in the end. If no name is repeated or taken before, a record is written exactly if all records
around it may be written, so that none is missing exactly if this holds of all of them. -/
theorem nested_records_written (next : Option Node) (root : Node) (desk : Desk)
    (own : isNamedRecord root (tagName root next) = true)
    (new : desk.symbols.hasType (tagName root next) = false) :
    ∃ written, (recordDecl next root desk).result = .ok () ∧
      output (recordDecl next root desk).commands =
        blocks written ++ recordBlock root (tagName root next) ∧
      Nested (desk.symbols.addType (tagName root next)) root.inner written
        (recordDecl next root desk).desk.symbols ∧
      (Distinct (desk.symbols.addType (tagName root next)) (recordsIn root) →
        (∀ r ∈ recordsIn root, isWritable r = true →
          (r ∈ written ↔ ∀ p ∈ recordsIn root, r ∈ recordsIn p → isWritable p = true)) ∧
        (written.Pairwise fun earlier later => later ∉ recordsIn earlier) ∧
        ((∀ r ∈ recordsIn root, isWritable r = true → r ∈ written) ↔
          ∀ p ∈ recordsIn root, ∀ r ∈ recordsIn p, isWritable r = true → isWritable p = true)) := by
  obtain ⟨written, done, out, nested⟩ :=
    recordDecl_run next own new (nestedRecords_written root.inner)
  refine ⟨written, done, out, nested, ?_⟩
  rw [recordsIn_eq root]
  intro distinct
  refine ⟨fun r among own => nested.mem_iff distinct own among, nested.ordered distinct, ?_⟩
  constructor
  · intro all p hp r inside own
    have among := recordsAmong_trans inside root.inner hp
    exact (nested.mem_iff distinct own among).mp (all r among own) p hp inside
  · intro around r among own
    exact (nested.mem_iff distinct own among).mpr fun p hp inside => around p hp r inside own

def hiddenRecord : Node :=
  ⟨{ kind := .recordDecl, name := "B", tagUsed := "struct" }, [],
    [⟨{ kind := .fieldDecl, name := "x", type := { spelling := "int" } }, [], []⟩]⟩

def unnamedRecord : Node := ⟨{ kind := .recordDecl, tagUsed := "struct" }, [], [hiddenRecord]⟩

/-- `struct A { struct { struct B { int x; } b; } u; };` -/
def hidingRecord : Node :=
  ⟨{ kind := .recordDecl, name := "A", tagUsed := "struct" }, [], [unnamedRecord]⟩

/-- What is inside of a record without a name is not written. -/
theorem hidingRecord_hides : isWritable hiddenRecord = true ∧
    hiddenRecord ∈ recordsIn hidingRecord ∧
    ∃ written, output (recordDecl none hidingRecord {}).commands =
      blocks written ++ recordBlock hidingRecord "A" ∧ hiddenRecord ∉ written := by
  have records : recordsIn hidingRecord = [hiddenRecord, unnamedRecord] := rfl
  have inside : recordsIn unnamedRecord = [hiddenRecord] := rfl
  have hidden : hiddenRecord ∈ recordsIn hidingRecord := by
    rw [records]
    exact List.mem_cons_self
  have own : isWritable hiddenRecord = true := by decide
  have distinct : Distinct (({} : Symbols).addType "A") (recordsIn hidingRecord) := by
    rw [records]
    refine ⟨by unfold Unrepeated; decide, ?_⟩
    rw [List.forall_mem_cons, List.forall_mem_singleton]
    decide
  obtain ⟨written, _, out, _, whole⟩ :=
    nested_records_written none hidingRecord {} (by decide) (by decide)
  refine ⟨own, hidden, written, out, fun shown => ?_⟩
  have around := ((whole distinct).1 hiddenRecord hidden own).mp shown unnamedRecord
    (by rw [records]; exact List.mem_cons_of_mem _ List.mem_cons_self)
    (by rw [inside]; exact List.mem_cons_self)
  cases around

end VFromC.Decl
