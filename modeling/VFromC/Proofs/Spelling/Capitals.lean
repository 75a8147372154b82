import VFromC.Proofs.Spelling.Bases
/-!
Capital forms. Blanks, small letters and the signs that types are put together with are in no
capital form but their own, and a capital form has at most three characters.
-/
namespace VFromC.Spelling
open VFromC.Text

/-- Ranges without capitals: the letters of ASCII cut them apart, and the blanks are in them. -/
def plainRanges : List (Nat × Nat) :=
  [(1, 0x40), (0x5b, 0xbf), (0x1680, 0x1680), (0x2000, 0x205f), (0x3000, 0x3000)]

/-- The character is the capital of no other one. -/
def isPlain (c : Char) : Bool := inRanges plainRanges c

theorem isPlain_iff {c : Char} :
    isPlain c = true ↔ ∃ range ∈ plainRanges, range.1 ≤ c.toNat ∧ c.toNat ≤ range.2 := by
  simp only [isPlain, inRanges, List.any_eq_true, Bool.and_eq_true, decide_eq_true_eq]

theorem isPlain_of_isBlank {c : Char} (h : isBlank c = true) : isPlain c = true := by
  have codes : ∀ n ∈ blankCodes, isPlain (Char.ofNat n) = true := by decide
  have plain := codes c.toNat (mem_blankCodes h)
  rwa [Char.ofNat_toNat] at plain

/-- Beyond ASCII, nothing that the row covers is moved into one of the ranges. -/
def avoidsPlain (row : CaseRow) : Bool :=
  plainRanges.all fun range =>
    row.last < 0x80 || row.last + row.shift < range.1 || range.2 < row.first + row.shift

theorem toNat_ofNat (code : Nat) :
    (Char.ofNat code).toNat = code ∨ (Char.ofNat code).toNat = 0 := by
  by_cases valid : code.isValidChar
  · left
    rw [Char.ofNat, dif_pos valid]
    rfl
  · right
    rw [Char.ofNat, dif_neg valid]
    rfl

theorem toNat_ofNat_of_isPlain {code : Nat} (h : isPlain (Char.ofNat code) = true) :
    (Char.ofNat code).toNat = code := by
  have positive : ∀ range ∈ plainRanges, 0 < range.1 := by decide
  obtain ⟨range, listed, low, _⟩ := isPlain_iff.mp h
  rcases toNat_ofNat code with same | zero
  · exact same
  · have := positive range listed
    omega

theorem shiftCase_of_isPlain {rows : List CaseRow} (h : rows.all avoidsPlain = true) {code : Nat}
    (large : 0x80 ≤ code) (plain : isPlain (Char.ofNat (shiftCase rows code)) = true) :
    shiftCase rows code = code := by
  have positive : ∀ range ∈ plainRanges, 0 < range.1 := by decide
  obtain ⟨range, listed, low, high⟩ := isPlain_iff.mp plain
  rw [toNat_ofNat_of_isPlain plain] at low high
  revert low high
  unfold shiftCase
  split
  · rename_i row found
    intro low high
    have avoids := List.all_eq_true.mp h row (List.mem_of_find?_eq_some found)
    have apart := List.all_eq_true.mp avoids range listed
    have covers := List.find?_some found
    have := positive range listed
    simp only [CaseRow.covers, Bool.or_eq_true, Bool.and_eq_true, decide_eq_true_eq,
      Int.ofNat_eq_natCast] at apart covers low high
    omega
  · exact fun _ _ => rfl

theorem eq_of_mem_capitalForm {c d : Char} (plain : isPlain d = true) (h : d ∈ capitalForm c) :
    c = d := by
  have ascii : ∀ code < 0x80, isPlain (Char.ofNat code).toUpper = true →
      (Char.ofNat code).toUpper = Char.ofNat code := by decide
  have rows : capitalRows.all avoidsPlain = true := by decide +kernel
  have wide : ∀ entry ∈ wideCapitals, ∀ code ∈ entry.2, isPlain (Char.ofNat code) = false := by
    decide +kernel
  unfold capitalForm at h
  split at h
  · rename_i small
    have same := ascii c.toNat small
    rw [Char.ofNat_toNat, ← List.mem_singleton.mp h] at same
    exact (same plain).symm
  · rename_i large
    split at h
    · rename_i codes found
      obtain ⟨code, inside, rfl⟩ := List.mem_map.mp h
      rw [wide _ (mem_of_lookup found) code inside] at plain
      cases plain
    · rw [List.mem_singleton.mp h] at plain ⊢
      rw [shiftCase_of_isPlain rows (Nat.le_of_not_lt large) plain, Char.ofNat_toNat]

/-- A letter that is no capital, not even its own. -/
def isSmall (c : Char) : Bool := isPlain c && !(capitalForm c).contains c

theorem not_mem_capitalForm {c d : Char} (small : isSmall d = true) : d ∉ capitalForm c := by
  rw [isSmall, Bool.and_eq_true, Bool.not_eq_true'] at small
  intro h
  rw [eq_of_mem_capitalForm small.1 h, ← List.contains_iff_mem, small.2] at h
  cases h

theorem length_capitalForm_le (c : Char) : (capitalForm c).length ≤ 3 := by
  have wide : ∀ entry ∈ wideCapitals, entry.2.length ≤ 3 := by decide
  unfold capitalForm
  split
  · exact Nat.le_of_ble_eq_true rfl
  · split
    · rename_i codes found
      rw [List.length_map]
      exact wide _ (mem_of_lookup found)
    · exact Nat.le_of_ble_eq_true rfl

theorem length_capitalizeFirst_le (s : List Char) :
    (capitalizeFirst s).length ≤ s.length + 2 := by
  cases s with
  | nil => exact Nat.zero_le _
  | cons c s =>
      have form := length_capitalForm_le c
      rw [capitalizeFirst, List.length_append, List.length_cons]
      omega

end VFromC.Spelling
