import Mathlib.Data.List.Basic
import VFromC.Proofs.Text.Replace
import VFromC.Text.OnStrings
/-!
Braces in a text.

A text leads from a number of open braces to another one when it never closes a brace that is not
open. A text that leads from none to none is balanced.
-/
namespace VFromC.Text

def isBrace (c : Char) : Bool := c = '\x7b' || c = '\x7d'

theorem isBrace_iff {c : Char} : isBrace c = true ↔ c = '\x7b' ∨ c = '\x7d' := by
  simp [isBrace]

/-- The braces of a text, in order. -/
def braces (s : String) : List Char := s.toList.filter isBrace

/-- Every beginning of the text has at least as many opening braces as closing ones, and the whole
text has as many. -/
def Balanced (s : String) : Prop :=
  (∀ p, p <+: s.toList → p.count '\x7d' ≤ p.count '\x7b') ∧
    s.toList.count '\x7b' = s.toList.count '\x7d'

/-- With `i` open braces before it, the text closes none that is not open, and `j` are open
behind it. -/
def Leads (i j : Nat) (s : List Char) : Prop :=
  (∀ p, p <+: s → p.count '\x7d' ≤ p.count '\x7b' + i) ∧ s.count '\x7b' + i = s.count '\x7d' + j

section Leading

variable {i j k : Nat} {a b : List Char}

theorem leads_nil : Leads i i [] := by
  refine ⟨fun p hp => ?_, rfl⟩
  rw [List.prefix_nil.mp hp]
  exact Nat.zero_le _

theorem leads_open : Leads i (i + 1) ['\x7b'] := by
  refine ⟨fun p hp => ?_, by simp; omega⟩
  rcases List.prefix_cons_iff.mp hp with rfl | ⟨q, rfl, hq⟩
  · simp
  · rw [List.prefix_nil.mp hq]
    simp

theorem leads_close : Leads (i + 1) i ['\x7d'] := by
  refine ⟨fun p hp => ?_, by simp; omega⟩
  rcases List.prefix_cons_iff.mp hp with rfl | ⟨q, rfl, hq⟩
  · simp
  · rw [List.prefix_nil.mp hq]
    simp

theorem Leads.append (ha : Leads i j a) (hb : Leads j k b) : Leads i k (a ++ b) := by
  obtain ⟨low₁, sum₁⟩ := ha
  obtain ⟨low₂, sum₂⟩ := hb
  refine ⟨fun p hp => ?_, ?_⟩
  · rcases List.prefix_or_prefix_of_prefix hp (List.prefix_append a b) with h | ⟨q, rfl⟩
    · exact low₁ p h
    · have low := low₂ q ((List.prefix_append_right_inj a).mp hp)
      simp only [List.count_append]
      omega
  · simp only [List.count_append]
    omega

theorem leads_shut : Leads (i + 1) (i + 1) ['\x7d', '\x7b'] := leads_close.append leads_open

/-- Only the braces of a text matter. -/
theorem leads_of_braces {s : String} (h : Leads i j (braces s)) : Leads i j s.toList := by
  have count {c : Char} (hc : isBrace c = true) (l : List Char) :
      (l.filter isBrace).count c = l.count c := List.count_filter hc
  obtain ⟨low, sum⟩ := h
  refine ⟨fun p hp => ?_, ?_⟩
  · have low := low _ (hp.filter isBrace)
    rwa [count rfl, count rfl] at low
  · rwa [braces, count rfl, count rfl] at sum

theorem balanced_of_braces {s : String} (h : Leads 0 0 (braces s)) : Balanced s :=
  leads_of_braces h

end Leading

@[simp] theorem braces_empty : braces "" = [] := by
  simp [braces]

@[simp] theorem braces_append (s t : String) : braces (s ++ t) = braces s ++ braces t := by
  simp [braces]

theorem free_append {s t : String} (hs : braces s = []) (ht : braces t = []) :
    braces (s ++ t) = [] := by
  rw [braces_append, hs, ht]
  rfl

theorem free_ite {c : Prop} [Decidable c] {s t : String} (hs : c → braces s = [])
    (ht : ¬ c → braces t = []) : braces (if c then s else t) = [] := by
  split
  · exact hs ‹_›
  · exact ht ‹_›

/-- The text has no brace in it. -/
def BraceFree (s : List Char) : Prop := ∀ c ∈ s, isBrace c = false

instance (s : List Char) : Decidable (BraceFree s) :=
  decidable_of_iff (s.all fun c => !isBrace c) (by simp [BraceFree])

theorem braces_eq_nil {s : String} : braces s = [] ↔ BraceFree s.toList := by
  simp [braces, BraceFree, List.filter_eq_nil_iff]

theorem braces_ofList {s : List Char} (h : BraceFree s) : braces (String.ofList s) = [] := by
  rw [braces_eq_nil, String.toList_ofList]
  exact h

section Free

variable {s t pat new : List Char}

theorem braceFree_nil : BraceFree [] := nofun

theorem BraceFree.sublist (h : BraceFree s) (ht : t.Sublist s) : BraceFree t :=
  fun c hc => h c (ht.subset hc)

theorem BraceFree.append (hs : BraceFree s) (ht : BraceFree t) : BraceFree (s ++ t) :=
  fun c hc => (List.mem_append.mp hc).elim (hs c) (ht c)

theorem BraceFree.cons {c : Char} (hc : isBrace c = false) (hs : BraceFree s) :
    BraceFree (c :: s) :=
  List.forall_mem_cons.mpr ⟨hc, hs⟩

theorem braceFree_replicate {c : Char} (hc : isBrace c = false) (k : Nat) :
    BraceFree (List.replicate k c) := by
  intro d hd
  rwa [List.eq_of_mem_replicate hd]

theorem dropEndWhile_sublist (p : Char → Bool) (s : List Char) : (dropEndWhile p s).Sublist s := by
  have := (List.dropWhile_sublist p (l := s.reverse)).reverse
  rwa [List.reverse_reverse] at this

theorem trim_sublist (s : List Char) : (trim s).Sublist s :=
  (List.dropWhile_sublist isBlank).trans (dropEndWhile_sublist isBlank s)

theorem afterStart?_sublist (h : afterStart? pat s = some t) : t.Sublist s := by
  rw [afterStart?_eq_some.mp h]
  exact List.sublist_append_right pat t

theorem beforeEnd?_sublist (h : beforeEnd? pat s = some t) : t.Sublist s := by
  obtain ⟨rest, hr, rfl⟩ := Option.map_eq_some_iff.mp h
  have := (afterStart?_sublist hr).reverse
  rwa [List.reverse_reverse] at this

theorem append_of_cut? {before rest : List Char} (h : cut? pat s = some (before, rest)) :
    s = before ++ pat ++ rest := by
  induction s generalizing before with
  | nil =>
      obtain ⟨r, hr, he⟩ := Option.map_eq_some_iff.mp h
      cases he
      exact afterStart?_eq_some.mp hr
  | cons c s ih =>
      rw [cut?] at h
      split at h
      · rename_i r hr
        cases h
        exact afterStart?_eq_some.mp hr
      · obtain ⟨⟨b, r⟩, hr, he⟩ := Option.map_eq_some_iff.mp h
        cases he
        rw [ih hr]
        rfl

theorem append_of_cutLast? {before rest : List Char} (h : cutLast? pat s = some (before, rest)) :
    s = before ++ pat ++ rest := by
  induction s generalizing before rest with
  | nil =>
      obtain ⟨r, hr, he⟩ := Option.map_eq_some_iff.mp h
      cases he
      exact afterStart?_eq_some.mp hr
  | cons c s ih =>
      rw [cutLast?] at h
      split at h
      · rename_i b r hr
        cases h
        rw [ih hr]
        rfl
      · obtain ⟨r, hr, he⟩ := Option.map_eq_some_iff.mp h
        cases he
        exact afterStart?_eq_some.mp hr

theorem BraceFree.of_cut? {before rest : List Char} (hs : BraceFree s)
    (h : s = before ++ pat ++ rest) : BraceFree before ∧ BraceFree rest := by
  subst h
  refine ⟨hs.sublist ?_, hs.sublist (List.sublist_append_right ..)⟩
  rw [List.append_assoc]
  exact List.sublist_append_left ..

theorem BraceFree.removeFirst (hs : BraceFree s) (pat : List Char) :
    BraceFree (removeFirst pat s) := by
  unfold Text.removeFirst
  split
  · rename_i before rest h
    obtain ⟨hb, hr⟩ := hs.of_cut? (append_of_cut? h)
    exact hb.append hr
  · exact hs

theorem dropCopies_sublist (pat s : List Char) : (dropCopies pat s).Sublist s := by
  unfold dropCopies
  generalize s.length = room
  induction room generalizing s with
  | zero => exact List.Sublist.refl s
  | succ room ih =>
      rw [dropCopiesFrom]
      split
      · rename_i rest h
        exact (ih rest).trans (afterStart?_sublist h)
      · exact List.Sublist.refl s

theorem BraceFree.filter_eq_nil (h : BraceFree s) : s.filter isBrace = [] :=
  List.filter_eq_nil_iff.mpr fun c hc => by rw [h c hc]; exact Bool.false_ne_true

theorem filter_replaceFrom (hp : BraceFree pat) (hne : pat ≠ []) (hn : BraceFree new) (skip : Nat)
    (s : List Char) :
    (replaceFrom pat new skip s).filter isBrace = (s.drop skip).filter isBrace := by
  induction s generalizing skip with
  | nil => simp [replaceFrom]
  | cons c s ih =>
      cases skip with
      | succ skip => rw [replaceFrom, ih, List.drop_succ_cons]
      | zero =>
          rw [replaceFrom, List.drop_zero]
          split
          · -- The rest of the occurrence is skipped, and nothing in it is a brace.
            rename_i h
            obtain ⟨rest, hr⟩ := startsWith_iff.mp h
            obtain ⟨p, pat, rfl⟩ := List.exists_cons_of_ne_nil hne
            obtain ⟨rfl, rfl⟩ := List.cons.inj hr
            rw [List.filter_append, hn.filter_eq_nil, List.nil_append, ih, ← hr,
              List.filter_append, hp.filter_eq_nil, List.nil_append]
            simp
          · rw [List.filter_cons, List.filter_cons, ih, List.drop_zero]

/-- When neither what is replaced nor what it is replaced by has a brace in it, the braces of the
text stay. -/
theorem braces_replaced {pat new : String} (hp : braces pat = []) (hne : pat ≠ "")
    (hn : braces new = []) (s : String) : braces (replaced pat new s) = braces s := by
  have nonempty : pat.toList ≠ [] := fun h => hne (String.toList_eq_nil_iff.mp h)
  rw [braces, replaced, String.toList_ofList, replaceAll,
    filter_replaceFrom (braces_eq_nil.mp hp) nonempty (braces_eq_nil.mp hn), List.drop_zero]
  rfl

theorem BraceFree.replaceFrom (hs : BraceFree s) (hn : BraceFree new) (skip : Nat) :
    BraceFree (replaceFrom pat new skip s) := by
  induction s generalizing skip with
  | nil => exact hs
  | cons c s ih =>
      obtain ⟨hc, hs⟩ := List.forall_mem_cons.mp hs
      cases skip with
      | succ skip => exact ih hs skip
      | zero =>
          rw [Text.replaceFrom]
          split
          · exact hn.append (ih hs _)
          · exact .cons hc (ih hs 0)

theorem BraceFree.replaceAll (hs : BraceFree s) (hn : BraceFree new) :
    BraceFree (replaceAll pat new s) := hs.replaceFrom hn 0

end Free

section Blanks

/-- Blanks are no braces, so that trimming keeps the braces. -/
theorem filter_dropWhile_isBlank (s : List Char) :
    (s.dropWhile isBlank).filter isBrace = s.filter isBrace := by
  induction s with
  | nil => rfl
  | cons c s ih =>
      rw [List.dropWhile_cons]
      split
      · rename_i blank
        have plain : isBrace c = false := by
          by_contra brace
          rcases isBrace_iff.mp (Bool.not_eq_false _ ▸ brace) with rfl | rfl
          · exact absurd blank (by decide)
          · exact absurd blank (by decide)
        rw [ih, List.filter_cons, plain]
        rfl
      · rfl

theorem braces_trimmed (s : String) : braces (trimmed s) = braces s := by
  have back : (trimEnd s.toList).filter isBrace = s.toList.filter isBrace := by
    rw [trimEnd, dropEndWhile, List.filter_reverse, filter_dropWhile_isBlank, List.filter_reverse,
      List.reverse_reverse]
  rw [braces, toList_trimmed, trim, trimStart, filter_dropWhile_isBlank, back]
  rfl

end Blanks

section Letters

theorem isBrace_ofNat {code : Nat} (h : code ≠ 123 ∧ code ≠ 125) :
    isBrace (Char.ofNat code) = false := by
  by_contra brace
  have codes : (Char.ofNat code).toNat = 123 ∨ (Char.ofNat code).toNat = 125 := by
    rcases isBrace_iff.mp (Bool.not_eq_false _ ▸ brace) with same | same
    · exact .inl (by rw [same]; rfl)
    · exact .inr (by rw [same]; rfl)
  by_cases valid : code.isValidChar
  · have same : (Char.ofNat code).toNat = code := by
      rw [Char.ofNat, dif_pos valid]
      rfl
    omega
  · have same : (Char.ofNat code).toNat = 0 := by
      rw [Char.ofNat, dif_neg valid]
      rfl
    omega

/-- Beyond the first 128 characters, no code that the row covers is moved to that of a brace. -/
def CaseRow.avoidsBraces (row : CaseRow) : Bool :=
  row.last < 0x80 || (row.last + row.shift < 123) || (125 < row.first + row.shift)

theorem shiftCase_avoids {rows : List CaseRow} (h : rows.all CaseRow.avoidsBraces = true)
    {code : Nat} (large : 0x80 ≤ code) :
    shiftCase rows code ≠ 123 ∧ shiftCase rows code ≠ 125 := by
  unfold shiftCase
  split
  · rename_i row hr
    have avoids := List.all_eq_true.mp h row (List.mem_of_find?_eq_some hr)
    have covers := List.find?_some hr
    simp only [CaseRow.avoidsBraces, CaseRow.covers, Bool.or_eq_true, Bool.and_eq_true,
      decide_eq_true_eq, Int.ofNat_eq_natCast] at avoids covers ⊢
    omega
  · omega

theorem smallForm_free {c : Char} (h : isBrace c = false) : BraceFree (smallForm c) := by
  have ascii : ∀ code < 0x80, isBrace (Char.ofNat code) = false →
      isBrace (Char.ofNat code).toLower = false := by decide
  have rows : smallRows.all CaseRow.avoidsBraces = true := by decide +kernel
  unfold smallForm
  split
  · have := ascii c.toNat ‹_›
    rw [Char.ofNat_toNat] at this
    exact .cons (this h) braceFree_nil
  · split
    · exact .cons rfl (.cons rfl braceFree_nil)
    · exact .cons (isBrace_ofNat (shiftCase_avoids rows (by omega))) braceFree_nil

theorem capitalForm_free {c : Char} (h : isBrace c = false) : BraceFree (capitalForm c) := by
  have ascii : ∀ code < 0x80, isBrace (Char.ofNat code) = false →
      isBrace (Char.ofNat code).toUpper = false := by decide
  have rows : capitalRows.all CaseRow.avoidsBraces = true := by decide +kernel
  have wide : ∀ entry ∈ wideCapitals, ∀ code ∈ entry.2, code ≠ 123 ∧ code ≠ 125 := by
    decide +kernel
  unfold capitalForm
  split
  · have := ascii c.toNat ‹_›
    rw [Char.ofNat_toNat] at this
    exact .cons (this h) braceFree_nil
  · split
    · rename_i codes hc
      intro d hd
      obtain ⟨code, hcode, rfl⟩ := List.mem_map.mp hd
      exact isBrace_ofNat (wide _ (mem_of_lookup hc) code hcode)
    · exact .cons (isBrace_ofNat (shiftCase_avoids rows (by omega))) braceFree_nil

theorem BraceFree.lower {s : List Char} (h : BraceFree s) : BraceFree (lower s) := by
  unfold Text.lower
  generalize [] = before
  induction s generalizing before with
  | nil => exact h
  | cons c rest ih =>
      obtain ⟨hc, hrest⟩ := List.forall_mem_cons.mp h
      rw [lowerAfter]
      refine BraceFree.append ?_ (ih hrest _)
      split
      · split <;> exact .cons rfl braceFree_nil
      · exact smallForm_free hc

theorem BraceFree.capitalizeFirst {s : List Char} (h : BraceFree s) :
    BraceFree (capitalizeFirst s) := by
  cases s with
  | nil => exact h
  | cons c rest =>
      obtain ⟨hc, hrest⟩ := List.forall_mem_cons.mp h
      exact (capitalForm_free hc).append hrest

end Letters

end VFromC.Text
