import VFromC.Text.Search
import VFromC.Proofs.Text.Replace
/-!
Trimming texts and cutting them around signs whose place is known.
-/
namespace VFromC.Text

/-- The first character, if there is one, is as told. -/
def HeadIs (p : Char → Prop) (s : List Char) : Prop := ∀ c, s.head? = some c → p c

/-- The last character, if there is one, is as told. -/
def LastIs (p : Char → Prop) (s : List Char) : Prop := ∀ c, s.getLast? = some c → p c

section Ends

variable {p : Char → Prop} {a b : List Char} {c : Char}

theorem headIs_nil : HeadIs p [] := fun _ h => by cases h

theorem headIs_cons (hc : p c) (b : List Char) : HeadIs p (c :: b) := by
  intro d hd
  cases hd
  exact hc

theorem HeadIs.append_left (ha : HeadIs p a) (ne : a ≠ []) (b : List Char) :
    HeadIs p (a ++ b) := by
  intro c hc
  rw [List.head?_append_of_ne_nil a ne] at hc
  exact ha c hc

theorem HeadIs.append (ha : HeadIs p a) (hb : HeadIs p b) : HeadIs p (a ++ b) := by
  cases a with
  | nil => exact hb
  | cons c a => exact ha.append_left (List.cons_ne_nil c a) b

theorem lastIs_nil : LastIs p [] := fun _ h => by cases h

theorem LastIs.append_right (hb : LastIs p b) (ne : b ≠ []) (a : List Char) :
    LastIs p (a ++ b) := by
  intro c hc
  rw [List.getLast?_append_of_ne_nil a ne] at hc
  exact hb c hc

theorem LastIs.append (ha : LastIs p a) (hb : LastIs p b) : LastIs p (a ++ b) := by
  cases b with
  | nil => rwa [List.append_nil]
  | cons c b => exact hb.append_right (List.cons_ne_nil c b) a

theorem LastIs.suffix (ha : LastIs p a) (h : b <:+ a) : LastIs p b := by
  obtain ⟨front, rfl⟩ := h
  exact fun c hc => ha c (List.mem_getLast?_append_of_mem_getLast? hc)

theorem lastIs_concat (hc : p c) (a : List Char) : LastIs p (a ++ [c]) := by
  refine LastIs.append_right ?_ (List.cons_ne_nil c []) a
  intro d hd
  cases hd
  exact hc

end Ends

section Runs

variable {p : Char → Bool} {a b : List Char}

theorem takeWhile_run (hb : ∀ c ∈ b, p c = true) (ha : HeadIs (p · = false) a) :
    (b ++ a).takeWhile p = b := by
  rw [List.takeWhile_append_of_pos hb]
  cases a with
  | nil => exact List.append_nil b
  | cons c a => rw [List.takeWhile_cons_of_neg (by simp [ha c rfl]), List.append_nil]

theorem dropWhile_run (hb : ∀ c ∈ b, p c = true) (ha : HeadIs (p · = false) a) :
    (b ++ a).dropWhile p = a := by
  rw [List.dropWhile_append_of_pos hb]
  cases a with
  | nil => rfl
  | cons c a => rw [List.dropWhile_cons_of_neg (by simp [ha c rfl])]

theorem takeWhile_reverse_run (hb : ∀ c ∈ b, p c = true)
    (ha : LastIs (p · = false) a) : (a ++ b).reverse.takeWhile p = b.reverse := by
  rw [List.reverse_append]
  refine takeWhile_run (fun c hc => hb c (List.mem_reverse.mp hc)) fun c hc => ha c ?_
  rwa [List.head?_reverse] at hc

theorem dropEndWhile_run (hb : ∀ c ∈ b, p c = true) (ha : LastIs (p · = false) a) :
    dropEndWhile p (a ++ b) = a := by
  rw [dropEndWhile, List.reverse_append, dropWhile_run, List.reverse_reverse]
  · exact fun c hc => hb c (List.mem_reverse.mp hc)
  · intro c hc
    rw [List.head?_reverse] at hc
    exact ha c hc

end Runs

section Trim

variable {a b s : List Char}

/-- Neither the first nor the last character is blank. -/
structure Tight (s : List Char) : Prop where
  first : HeadIs (isBlank · = false) s
  last : LastIs (isBlank · = false) s

theorem trimEnd_of_last (h : LastIs (isBlank · = false) s) : trimEnd s = s := by
  have run := dropEndWhile_run (b := []) (fun c hc => (by cases hc)) h
  rwa [List.append_nil] at run

theorem trim_between (ha : ∀ c ∈ a, isBlank c = true) (h : Tight s)
    (hb : ∀ c ∈ b, isBlank c = true) (hs : s ≠ []) : trim (a ++ (s ++ b)) = s := by
  rw [trim, trimEnd, ← List.append_assoc, dropEndWhile_run hb (h.last.append_right hs a)]
  exact dropWhile_run ha h.first

theorem Tight.trim_eq (h : Tight s) : trim s = s := by
  by_cases hs : s = []
  · rw [hs]
    rfl
  · have none : ∀ c ∈ ([] : List Char), isBlank c = true := fun c hc => (by cases hc)
    simpa using trim_between none h none hs

theorem trimEnd_append_cons {c : Char} (hc : isBlank c = false) (a t : List Char) :
    trimEnd (a ++ c :: t) = a ++ c :: trimEnd t := by
  have stop : (c :: a.reverse).dropWhile isBlank = c :: a.reverse :=
    List.dropWhile_cons_of_neg (by rw [hc]; decide)
  rw [trimEnd, trimEnd, dropEndWhile, dropEndWhile, List.reverse_append, List.reverse_cons,
    List.append_assoc, List.singleton_append, List.dropWhile_append]
  split
  · rename_i none
    rw [stop, List.isEmpty_iff.mp none]
    simp
  · simp

theorem last_trimEnd (s : List Char) : LastIs (isBlank · = false) (trimEnd s) := by
  intro c hc
  rw [trimEnd, dropEndWhile, List.getLast?_reverse] at hc
  have stop := List.head?_dropWhile_not isBlank s.reverse
  rwa [hc] at stop

theorem tight_trim (s : List Char) : Tight (trim s) := by
  constructor
  · intro c hc
    have stop := List.head?_dropWhile_not isBlank (trimEnd s)
    rw [trim, trimStart] at hc
    rwa [hc] at stop
  · intro c hc
    obtain ⟨blanks, same⟩ := List.dropWhile_suffix isBlank (l := trimEnd s)
    refine last_trimEnd s c ?_
    rw [← same]
    exact List.mem_getLast?_append_of_mem_getLast? hc

theorem trim_trim (s : List Char) : trim (trim s) = trim s := (tight_trim s).trim_eq

end Trim

section Cuts

variable {pat a b s : List Char} {c : Char}

theorem beforeEnd?_eq_some {front : List Char} :
    beforeEnd? pat s = some front ↔ s = front ++ pat := by
  rw [beforeEnd?, Option.map_eq_some_iff]
  constructor
  · rintro ⟨rest, h, rfl⟩
    have same := congrArg List.reverse (afterStart?_eq_some.mp h)
    rwa [List.reverse_reverse, List.reverse_append, List.reverse_reverse] at same
  · rintro rfl
    exact ⟨front.reverse, afterStart?_eq_some.mpr (List.reverse_append ..), List.reverse_reverse _⟩

theorem afterStart?_eq_none : afterStart? pat s = none ↔ ¬ pat <+: s := by
  rw [Option.eq_none_iff_forall_ne_some]
  exact ⟨fun h ⟨rest, same⟩ => h rest (afterStart?_eq_some.mpr same.symm),
    fun h rest found => h ⟨rest, (afterStart?_eq_some.mp found).symm⟩⟩

theorem beforeEnd?_eq_none : beforeEnd? pat s = none ↔ ¬ pat <:+ s := by
  rw [Option.eq_none_iff_forall_ne_some]
  exact ⟨fun h ⟨front, same⟩ => h front (beforeEnd?_eq_some.mpr same.symm),
    fun h front found => h ⟨front, (beforeEnd?_eq_some.mp found).symm⟩⟩

/-- The first cut is where the first sign of the pattern first occurs. -/
theorem cut?_of_not_mem (h : c ∉ a) : cut? (c :: pat) (a ++ (c :: pat ++ b)) = some (a, b) := by
  induction a with
  | nil =>
      have start : afterStart? (c :: pat) (c :: (pat ++ b)) = some b :=
        afterStart?_eq_some.mpr (List.cons_append ..).symm
      rw [List.nil_append, List.cons_append, cut?, start]
  | cons d a ih =>
      have other : ¬ c :: pat <+: d :: (a ++ (c :: pat ++ b)) := fun start =>
        h ((List.cons_prefix_cons.mp start).1 ▸ List.mem_cons_self)
      rw [List.cons_append, cut?, afterStart?_eq_none.mpr other,
        ih fun hc => h (List.mem_cons_of_mem d hc)]
      rfl

theorem removeFirst_of_not_mem (h : c ∉ a) :
    removeFirst (c :: pat) (a ++ (c :: pat ++ b)) = a ++ b := by
  rw [removeFirst, cut?_of_not_mem h]

theorem cutLast?_end : cutLast? [c] (a ++ [c]) = some (a, []) := by
  induction a with
  | nil => simp [cutLast?, afterStart?]
  | cons d a ih => rw [List.cons_append, cutLast?, ih]

theorem cutLast?_of_not_mem (hc : c ∈ pat) (h : c ∉ s) : cutLast? pat s = none := by
  induction s with
  | nil =>
      cases pat with
      | nil => cases hc
      | cons => rfl
  | cons d s ih =>
      have other : ¬ pat <+: d :: s := fun start => h (start.subset hc)
      rw [cutLast?, ih fun hm => h (List.mem_cons_of_mem d hm), afterStart?_eq_none.mpr other]
      rfl

end Cuts

end VFromC.Text
