import VFromC.Run.Path
/-!
Where the unit of a C file in a directory goes. Its name keeps what stands before the last dot of the
file's stem, so two files of one directory have one unit path just when their stems agree up to there.
-/
namespace VFromC.Run

section Segments

theorem segments_ne_nil (s : List Char) : segments s ≠ [] := by
  cases s with
  | nil => simp [segments]
  | cons c rest =>
      rw [segments]
      split
      · simp
      · split <;> simp

theorem segments_slash (front back : List Char) :
    segments (front ++ '/' :: back) = segments front ++ segments back := by
  induction front with
  | nil => rfl
  | cons c rest ih =>
      rw [List.cons_append, segments, segments, ih]
      by_cases hc : c = '/'
      · rw [if_pos hc, if_pos hc, List.cons_append]
      · cases h : segments rest with
        | nil => exact absurd h (segments_ne_nil rest)
        | cons s more => rw [if_neg hc, if_neg hc]; rfl

theorem segments_plain {s : List Char} (plain : '/' ∉ s) : segments s = [s] := by
  induction s with
  | nil => rfl
  | cons c rest ih =>
      rw [List.mem_cons, not_or] at plain
      rw [segments, if_neg (Ne.symm plain.1), ih plain.2]

theorem plain_of_mem_segments {s part : List Char} (h : part ∈ segments s) : '/' ∉ part := by
  induction s generalizing part with
  | nil => simp_all [segments]
  | cons c rest ih =>
      rw [segments] at h
      by_cases hc : c = '/'
      · rw [if_pos hc, List.mem_cons] at h
        rcases h with rfl | h
        · simp
        · exact ih h
      · rw [if_neg hc] at h
        cases hs : segments rest with
        | nil => exact absurd hs (segments_ne_nil rest)
        | cons s more =>
            rw [hs] at h ih
            rcases List.mem_cons.1 h with rfl | h
            · rw [List.mem_cons, not_or]
              exact ⟨Ne.symm hc, ih List.mem_cons_self⟩
            · exact ih (List.mem_cons_of_mem s h)

theorem segments_ofSegments {parts : List (List Char)} (some_parts : parts ≠ [])
    (plain : ∀ part ∈ parts, '/' ∉ part) : segments (ofSegments parts) = parts := by
  induction parts with
  | nil => exact absurd rfl some_parts
  | cons part rest ih =>
      have first := segments_plain (plain part List.mem_cons_self)
      cases rest with
      | nil => rw [ofSegments, List.intercalate_singleton, first]
      | cons next more =>
          have later := ih (List.cons_ne_nil next more)
            fun p hp => plain p (List.mem_cons_of_mem part hp)
          rw [ofSegments] at later
          rw [ofSegments, List.intercalate_cons_cons, List.append_assoc, List.singleton_append,
            segments_slash, first, later]
          rfl

end Segments

section Joined

/-- What stands before the name of a file in a directory. -/
def lead (dir : String) : List Char :=
  if dir = "" then []
  else if dir.toList.getLast? = some '/' then dir.toList
  else dir.toList ++ ['/']

/-- The segments that stand before the name. -/
def above (dir : String) : List (List Char) := (segments (lead dir)).dropLast

theorem lead_eq (dir : String) : lead dir = [] ∨ ∃ front, lead dir = front ++ ['/'] := by
  unfold lead
  split
  · exact .inl rfl
  · split
    · exact .inr (List.getLast?_eq_some_iff.1 ‹_›)
    · exact .inr ⟨dir.toList, rfl⟩

theorem plain_of_mem_above {dir : String} {part : List Char} (h : part ∈ above dir) :
    '/' ∉ part :=
  plain_of_mem_segments ((List.dropLast_subset _) h)

variable {dir name : String}

theorem toList_joined (dir : String) (plain : '/' ∉ name.toList) :
    (joined dir name).toList = lead dir ++ name.toList := by
  have fromHere : name.toList.head? ≠ some '/' := fun h => plain (List.mem_of_head? h)
  unfold joined lead
  by_cases top : dir = ""
  · rw [if_pos (Or.inr top), if_pos top, List.nil_append]
  · rw [if_neg (not_or.2 ⟨fromHere, top⟩), if_neg top]
    by_cases closed : dir.toList.getLast? = some '/'
    · rw [if_pos closed, if_pos closed, String.toList_append]
    · rw [if_neg closed, if_neg closed, String.toList_append, String.toList_append]
      rfl

theorem joined_inj {a b : String} (ha : '/' ∉ a.toList) (hb : '/' ∉ b.toList)
    (h : joined dir a = joined dir b) : a = b := by
  rw [← String.toList_inj, toList_joined dir ha, toList_joined dir hb, List.append_cancel_left_eq,
    String.toList_inj] at h
  exact h

theorem segments_joined (dir : String) (plain : '/' ∉ name.toList) :
    segments (joined dir name).toList = above dir ++ [name.toList] := by
  rw [toList_joined dir plain, above]
  rcases lead_eq dir with empty | ⟨front, closed⟩
  · rw [empty, List.nil_append, segments_plain plain]
    rfl
  · rw [closed, List.append_assoc, List.singleton_append, segments_slash, segments_slash,
      segments_plain plain, segments, List.dropLast_concat]

theorem dropIdle_of_isName {s : List Char} (h : isName s = true) (rest : List (List Char)) :
    dropIdle (s :: rest) = s :: rest := by
  have busy : ¬((s = [] ∨ s = ['.']) ∧ rest ≠ []) := by
    rintro ⟨rfl | rfl, -⟩ <;> exact absurd h (by decide)
  rw [dropIdle, if_neg busy]

theorem backwards_joined (plain : '/' ∉ name.toList) (named : isName name.toList = true) :
    backwards (joined dir name) = name.toList :: (above dir).reverse := by
  rw [backwards, segments_joined dir plain, List.reverse_append, List.reverse_singleton,
    List.singleton_append, dropIdle_of_isName named]

theorem fileName?_joined (plain : '/' ∉ name.toList) (named : isName name.toList = true) :
    fileName? (joined dir name) = some name.toList := by
  rw [fileName?, backwards_joined plain named]
  exact if_pos named

/-- A path of one segment. -/
theorem backwards_plain (plain : '/' ∉ name.toList) : backwards name = [name.toList] := by
  rw [backwards, segments_plain plain, List.reverse_singleton, dropIdle,
    if_neg fun idle => idle.2 rfl]

theorem fileName?_plain (plain : '/' ∉ name.toList) :
    fileName? name = if isName name.toList then some name.toList else none := by
  rw [fileName?, backwards_plain plain]

/-- The directory in which the files of `dir` stand. -/
def shelf (dir : String) : String :=
  let kept := dropIdle (above dir).reverse
  if kept = [[]] then "/" else String.ofList (ofSegments kept.reverse)

theorem parent?_joined (plain : '/' ∉ name.toList) (named : isName name.toList = true) :
    parent? (joined dir name) = some (shelf dir) := by
  have filled : name.toList ≠ [] := fun h => absurd named (by rw [h]; decide)
  rw [parent?, backwards_joined plain named]
  split
  · contradiction
  · rename_i h
    injection h with h
    exact absurd h filled
  · rename_i h
    injection h with _ h
    rw [← h]
    rfl

end Joined

section Names

theorem cutName_eq_some {name stem ext : List Char} (h : cutName name = (stem, some ext)) :
    name = stem ++ '.' :: ext ∧ stem ≠ [] := by
  have whole := List.takeWhile_append_dropWhile (p := (· ≠ '.')) (l := name.reverse)
  have dot := List.head?_dropWhile_not (· ≠ '.') name.reverse
  unfold cutName at h
  dsimp only at h
  split at h
  · rename_i first second rest cut
    rw [cut] at whole dot
    cases h
    have isDot : first = '.' := by simpa using dot
    constructor
    · rw [isDot] at whole
      rw [← List.reverse_inj, List.reverse_append, List.reverse_cons, List.reverse_reverse,
        List.reverse_reverse, List.append_assoc, List.singleton_append]
      exact whole.symm
    · simp
  · cases h

/-- The name under which a directory lists a C file. -/
structure IsSource (name : String) : Prop where
  isC : extension? name = some "c"
  plain : '/' ∉ name.toList

/-- What stands before the last dot of a name. -/
def stemOf (name : String) : List Char := (cutName name.toList).1

namespace IsSource

variable {name : String}

theorem named (h : IsSource name) : isName name.toList = true := by
  have isC := h.isC
  rw [extension?, fileName?_plain h.plain] at isC
  split at isC
  · assumption
  · cases isC

theorem cut (h : IsSource name) : cutName name.toList = (stemOf name, some ['c']) := by
  have isC := h.isC
  rw [extension?, fileName?_plain h.plain, if_pos h.named, Option.bind_some] at isC
  obtain ⟨ext, cut, spelled⟩ := Option.map_eq_some_iff.1 isC
  have letters : ext = ['c'] := String.ofList_inj.1 spelled
  rw [← letters, ← cut]
  rfl

theorem spelled (h : IsSource name) : name.toList = stemOf name ++ ['.', 'c'] :=
  (cutName_eq_some h.cut).1

theorem filled (h : IsSource name) : stemOf name ≠ [] := (cutName_eq_some h.cut).2

theorem stem_plain (h : IsSource name) : '/' ∉ stemOf name := by
  intro inside
  apply h.plain
  rw [h.spelled]
  exact List.mem_append_left _ inside

theorem stemOf_ne {a b : String} (ha : IsSource a) (hb : IsSource b) (h : a ≠ b) :
    stemOf a ≠ stemOf b := by
  intro same
  apply h
  rw [← String.toList_inj, ha.spelled, hb.spelled, same]

end IsSource

/-- The name of the unit of a C file with this stem. A stem that is no name of a file stays as it is. -/
def unitName (stem : List Char) : List Char :=
  if isName stem then (cutName stem).1 ++ ['.', 'v'] else stem

theorem setExtension_plain {stem : List Char} (plain : '/' ∉ stem) :
    setExtension (String.ofList stem) "v" = String.ofList (unitName stem) := by
  have plain' : '/' ∉ (String.ofList stem).toList := by rwa [String.toList_ofList]
  rw [setExtension, fileName?_plain plain', backwards_plain plain', String.toList_ofList, unitName]
  by_cases named : isName stem = true
  · rw [if_pos named, if_pos named]
    simp [ofSegments, List.intercalate_singleton]
  · rw [if_neg named, if_neg named]

theorem plain_cutName {name : List Char} (plain : '/' ∉ name) : '/' ∉ (cutName name).1 := by
  cases h : cutName name with
  | mk stem ext? =>
      cases ext? with
      | none =>
          have whole : stem = name := by
            unfold cutName at h
            dsimp only at h
            split at h <;> simp_all
          rwa [whole]
      | some ext =>
          intro inside
          apply plain
          rw [(cutName_eq_some h).1]
          exact List.mem_append_left _ inside

theorem plain_unitName {stem : List Char} (plain : '/' ∉ stem) : '/' ∉ unitName stem := by
  unfold unitName
  split
  · simpa using plain_cutName plain
  · exact plain

theorem IsSource.plain_unit {name : String} (h : IsSource name) :
    '/' ∉ (String.ofList (unitName (stemOf name))).toList := by
  rw [String.toList_ofList]
  exact plain_unitName h.stem_plain

/-- The units of a directory stand in one place, each under the name that its stem gives it. -/
theorem unitPath_joined {name : String} (h : IsSource name) (out : Option String) (dir : String) :
    unitPath out (joined dir name) =
      joined (out.getD (shelf dir)) (String.ofList (unitName (stemOf name))) := by
  have stem : stem? (joined dir name) = some (String.ofList (stemOf name)) := by
    rw [stem?, fileName?_joined h.plain h.named]
    rfl
  unfold unitPath
  rw [stem, Option.getD_some, setExtension_plain h.stem_plain]
  cases out with
  | some d => rfl
  | none =>
      change withName (joined dir name) _ = _
      rw [withName, fileName?_joined h.plain h.named, parent?_joined h.plain h.named]
      rfl

theorem getLast?_of_not_isName {s : List Char} (filled : s ≠ []) (h : ¬isName s = true) :
    s.getLast? = some '.' := by
  unfold isName at h
  by_cases one : s = ['.']
  · rw [one]; rfl
  · by_cases two : s = ['.', '.']
    · rw [two]; rfl
    · exact absurd (by simp [filled, one, two]) h

theorem unitName_of_isName {stem : List Char} (h : isName stem = true) :
    unitName stem = ((cutName stem).1 ++ ['.']) ++ ['v'] := by
  rw [unitName, if_pos h, List.append_assoc]
  rfl

theorem unitName_of_not_isName {stem : List Char} (h : ¬isName stem = true) :
    unitName stem = stem := if_neg h

/-- Stems have one unit name only where both are names of files and agree before their last dots. -/
theorem unitName_eq_iff {a b : List Char} (ha : a ≠ []) (hb : b ≠ []) (ne : a ≠ b) :
    unitName a = unitName b ↔
      isName a = true ∧ isName b = true ∧ (cutName a).1 = (cutName b).1 := by
  -- A unit name ends with a letter where the stem is a name of a file, and with a dot elsewhere.
  have apart : ∀ {s t : List Char}, isName s = true → t ≠ [] → ¬isName t = true →
      unitName s ≠ unitName t := by
    intro s t hs filled ht same
    have last := congrArg List.getLast? same
    rw [unitName_of_isName hs, unitName_of_not_isName ht, getLast?_of_not_isName filled ht,
      List.getLast?_concat] at last
    cases last
  by_cases na : isName a = true
  · by_cases nb : isName b = true
    · rw [unitName_of_isName na, unitName_of_isName nb, List.append_left_inj, List.append_left_inj]
      simp [na, nb]
    · exact ⟨fun same => absurd same (apart na hb nb), fun both => absurd both.2.1 nb⟩
  · refine ⟨fun same => ?_, fun both => absurd both.1 na⟩
    by_cases nb : isName b = true
    · exact absurd same.symm (apart nb ha na)
    · rw [unitName_of_not_isName na, unitName_of_not_isName nb] at same
      exact absurd same ne

end Names

theorem unitPath_eq_iff {a b : String} (ha : IsSource a) (hb : IsSource b) (out : Option String)
    (dir : String) :
    unitPath out (joined dir a) = unitPath out (joined dir b) ↔
      unitName (stemOf a) = unitName (stemOf b) := by
  rw [unitPath_joined ha, unitPath_joined hb]
  constructor
  · intro same
    exact String.ofList_inj.1 (joined_inj ha.plain_unit hb.plain_unit same)
  · intro same
    rw [same]

theorem segments_unitPath {name : String} (h : IsSource name) (out : Option String) (dir : String) :
    segments (unitPath out (joined dir name)).toList =
      above (out.getD (shelf dir)) ++ [unitName (stemOf name)] := by
  rw [unitPath_joined h, segments_joined _ h.plain_unit, String.toList_ofList]

theorem getLast?_unitName {stem : List Char} (h : isName (unitName stem) = true) :
    (unitName stem).getLast? = some 'v' := by
  by_cases named : isName stem = true
  · rw [unitName_of_isName named]
    exact List.getLast?_concat
  · rw [unitName_of_not_isName named] at h
    exact absurd h named

section KeptTrees

theorem IsSource.plain_dotted {name : String} (h : IsSource name) :
    '/' ∉ (String.ofList (stemOf name ++ ['.'])).toList := by
  simpa using h.stem_plain

theorem withoutExtension_joined {name : String} (h : IsSource name) (dir : String) :
    withoutExtension (joined dir name) = joined dir (String.ofList (stemOf name ++ ['.'])) := by
  have ext : extension? (joined dir name) = some "c" := by
    rw [extension?, fileName?_joined h.plain h.named, Option.bind_some, h.cut]
    rfl
  have cut : (joined dir name).toList = (lead dir ++ (stemOf name ++ ['.'])) ++ ['c'] := by
    rw [toList_joined dir h.plain, h.spelled]
    simp
  rw [← String.toList_inj, withoutExtension, ext]
  dsimp only
  rw [toList_joined dir h.plain_dotted, String.toList_ofList, String.toList_ofList,
    String.toList_ofList, cut]
  apply List.take_left'
  simp

theorem segments_setExtension {name ext : String} (plain : '/' ∉ name.toList)
    (named : isName name.toList = true) (extPlain : '/' ∉ ext.toList) (dir : String) :
    segments (setExtension (joined dir name) ext).toList =
      above dir ++ [(cutName name.toList).1 ++ '.' :: ext.toList] := by
  rw [setExtension, fileName?_joined plain named, backwards_joined plain named]
  dsimp only
  rw [List.tail_cons, List.reverse_cons, List.reverse_reverse, String.toList_ofList]
  apply segments_ofSegments (by simp)
  intro part inside
  rcases List.mem_append.1 inside with inside | inside
  · exact plain_of_mem_above inside
  · rw [List.mem_singleton.1 inside]
    simpa using ⟨plain_cutName plain, extPlain⟩

theorem setExtension_dots (dir ext : String) : setExtension (joined dir "..") ext = joined dir ".." := by
  have busy : ¬("..".toList = [] ∨ "..".toList = ['.']) := by decide
  have nameless : fileName? (joined dir "..") = none := by
    rw [fileName?, backwards, segments_joined dir (by decide), List.reverse_append,
      List.reverse_singleton, List.singleton_append, dropIdle, if_neg fun idle => busy idle.1]
    rfl
  rw [setExtension, nameless]

/-- The tree of a C file that is kept stands under a name that no unit has. -/
theorem segments_keptTree {name : String} (h : IsSource name) (dir : String) :
    ∃ last, segments (withExtension (joined dir name) "json").toList = above dir ++ [last] ∧
      (isName last = true → last.getLast? = some 'n') := by
  rw [withExtension, withoutExtension_joined h]
  by_cases named : isName (stemOf name ++ ['.']) = true
  · refine ⟨_, segments_setExtension h.plain_dotted (by rwa [String.toList_ofList])
      (by decide) dir, ?_⟩
    intro _
    rw [List.getLast?_append]
    rfl
  · have dots : stemOf name ++ ['.'] = ['.', '.'] := by
      unfold isName at named
      simpa [h.filled] using named
    have path : String.ofList (stemOf name ++ ['.']) = ".." := by rw [dots]
    rw [path, setExtension_dots]
    refine ⟨['.', '.'], segments_joined dir (by decide), ?_⟩
    intro named
    exact absurd named (by decide)

end KeptTrees

end VFromC.Run
