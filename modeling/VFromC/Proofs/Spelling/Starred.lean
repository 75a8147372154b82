import VFromC.Proofs.Spelling.Capitals
import VFromC.Proofs.Spelling.Denotation
/-!
Names with stars behind them.

A star is set off from the name by a blank, and some words are dropped wherever a blank follows
them. So a name that ends in such a word loses it when stars follow.
-/
namespace VFromC.Spelling
open VFromC.Text

section Words

variable {w x y t front : List Char}

/-- What is left of a text when a word and the blank behind it are dropped from its end. -/
def dropWord (w y : List Char) : List Char := (beforeEnd? (w ++ [' ']) y).getD y

def dropWords (ws : List (List Char)) (y : List Char) : List Char :=
  ws.foldl (fun y w => dropWord w y) y

theorem dropWord_of_suffix : dropWord w (front ++ w ++ [' ']) = front := by
  rw [dropWord, List.append_assoc, beforeEnd?_eq_some.mpr rfl]
  rfl

theorem dropWord_of_not_suffix (h : ¬ w <:+ x) : dropWord w (x ++ [' ']) = x ++ [' '] := by
  have none : beforeEnd? (w ++ [' ']) (x ++ [' ']) = none := by
    rw [beforeEnd?_eq_none]
    rintro ⟨front, same⟩
    rw [← List.append_assoc] at same
    exact h ⟨front, List.append_cancel_right same⟩
  rw [dropWord, none]
  rfl

theorem dropWord_of_no_blank (h : ' ' ∉ x) : dropWord w x = x := by
  have none : beforeEnd? (w ++ [' ']) x = none := by
    rw [beforeEnd?_eq_none]
    intro behind
    exact h (behind.subset (List.mem_append_right w List.mem_cons_self))
  rw [dropWord, none]
  rfl

theorem dropWords_of_no_blank (h : ' ' ∉ x) (ws : List (List Char)) : dropWords ws x = x := by
  induction ws with
  | nil => rfl
  | cons w ws ih =>
      rw [dropWords, List.foldl_cons, dropWord_of_no_blank h]
      exact ih

/-- At most one of the words is dropped, since the blank goes with it. -/
theorem dropWords_cases (h : ' ' ∉ x) (ws : List (List Char)) :
    (dropWords ws (x ++ [' ']) = x ++ [' '] ∧ ∀ w ∈ ws, ¬ w <:+ x) ∨
      ∃ w ∈ ws, x = dropWords ws (x ++ [' ']) ++ w := by
  induction ws with
  | nil => exact .inl ⟨rfl, fun w hw => absurd hw List.not_mem_nil⟩
  | cons w ws ih =>
      rw [dropWords, List.foldl_cons]
      by_cases behind : w <:+ x
      · obtain ⟨front, rfl⟩ := behind
        have blank : ' ' ∉ front := fun hc => h (List.mem_append_left w hc)
        have rest := dropWords_of_no_blank blank ws
        rw [dropWord_of_suffix]
        exact .inr ⟨w, List.mem_cons_self, congrArg (· ++ w) rest.symm⟩
      · rw [dropWord_of_not_suffix behind]
        rcases ih with ⟨same, none⟩ | ⟨other, listed, same⟩
        · exact .inl ⟨same, List.forall_mem_cons.mpr ⟨behind, none⟩⟩
        · exact .inr ⟨other, List.mem_cons_of_mem w listed, same⟩

theorem eq_append_of_blank {p₁ p₂ : List Char} (h : w ++ [' '] = p₁ ++ p₂) (ne : p₂ ≠ []) :
    ∃ more, w = p₁ ++ more ∧ p₂ = more ++ [' '] := by
  obtain ⟨more, c, rfl⟩ := (List.eq_nil_or_concat' p₂).resolve_left ne
  rw [← List.append_assoc] at h
  obtain ⟨whole, last⟩ := List.append_inj' h rfl
  cases last
  exact ⟨more, whole, rfl⟩

/-- A word with the blank behind it does not go over from a blank to what follows. -/
theorem not_straddles_blank {a b : List Char} (hw : ' ' ∉ w) (ha : LastIs (· = ' ') a) :
    ¬ Straddles (w ++ [' ']) a b := by
  rintro ⟨p₁, p₂, ne₁, ne₂, same, ⟨rest, rfl⟩, _⟩
  obtain ⟨more, rfl, _⟩ := eq_append_of_blank same ne₂
  obtain ⟨p, c, rfl⟩ := (List.eq_nil_or_concat' p₁).resolve_left ne₁
  have blank : c = ' ' := ha c (by rw [← List.append_assoc, List.getLast?_concat])
  rw [blank] at hw
  exact hw (by simp)

theorem replaceAll_no_blank (h : ' ' ∉ x) : replaceAll (w ++ [' ']) [] x = x :=
  replaceAll_of_absent fun within =>
    h (within.subset (List.mem_append_right w List.mem_cons_self))

theorem replaceAll_behind (hw : ' ' ∉ w) (hx : ' ' ∉ x) (ht : ' ' ∉ t) :
    replaceAll (w ++ [' ']) [] (x ++ [' '] ++ t) = dropWord w (x ++ [' ']) ++ t := by
  have blank {a : List Char} : LastIs (· = ' ') (a ++ [' ']) :=
    lastIs_concat (p := (· = ' ')) rfl a
  rw [replaceAll_append (not_straddles_blank hw blank), replaceAll_no_blank ht]
  congr 1
  by_cases behind : w <:+ x
  · obtain ⟨front, rfl⟩ := behind
    have apart : ¬ Straddles (w ++ [' ']) front (w ++ [' ']) := by
      rintro ⟨p₁, p₂, ne₁, ne₂, same, _, start⟩
      obtain ⟨more, rfl, rfl⟩ := eq_append_of_blank same ne₂
      -- The second part is shorter than the word, so that its blank is inside of the word.
      have shorter : (more ++ [' ']).length ≤ (p₁ ++ more).length := by
        have := List.length_pos_iff.mpr ne₁
        simp only [List.length_append, List.length_singleton]
        omega
      have inside := List.prefix_of_prefix_length_le start (List.prefix_append _ _) shorter
      exact hw (inside.subset (List.mem_append_right more List.mem_cons_self))
    have free : ' ' ∉ front := fun hc => hx (List.mem_append_left w hc)
    rw [dropWord_of_suffix, List.append_assoc, replaceAll_append apart, replaceAll_no_blank free,
      replaceAll_self (List.append_ne_nil_of_right_ne_nil w (List.cons_ne_nil ' ' [])),
      List.append_nil]
  · rw [dropWord_of_not_suffix behind]
    refine replaceAll_of_absent ?_
    rintro ⟨front, rest, same⟩
    by_cases none : rest = []
    · rw [none, List.append_nil, ← List.append_assoc] at same
      exact behind ⟨front, List.append_cancel_right same⟩
    · obtain ⟨more, rfl, _⟩ := eq_append_of_blank same.symm none
      exact hx (by simp)

end Words

/-- Letters, digits, underscores, and everything beyond ASCII that is not blank. -/
def isIdentChar (c : Char) : Bool := isNameChar c || (0x80 ≤ c.toNat && !isBlank c)

/-- The words of C that are no names. -/
def keywords : List String := [
  "auto", "break", "case", "char", "const", "continue", "default", "do", "double", "else", "enum",
  "extern", "float", "for", "goto", "if", "inline", "int", "long", "register", "restrict",
  "return", "short", "signed", "sizeof", "static", "struct", "switch", "typedef", "union",
  "unsigned", "void", "volatile", "while", "_Alignas", "_Alignof", "_Atomic", "_Bool", "_Complex",
  "_Generic", "_Imaginary", "_Noreturn", "_Static_assert", "_Thread_local"]

def isIdentifier (s : List Char) : Bool :=
  s.head?.any (fun c => !c.isDigit) && s.all isIdentChar && !keywords.contains (String.ofList s)

structure Identifier where
  chars : List Char
  isIdent : isIdentifier chars = true

/-- The words that a tag may follow. -/
inductive TagWord where
  | struct
  | union
  | enum
deriving DecidableEq, Repr

def TagWord.word : TagWord → List Char
  | .struct => "struct".toList
  | .union => "union".toList
  | .enum => "enum".toList

/-- A name, or a tag with its word before it. -/
structure NamedBase where
  tag : Option TagWord
  name : Identifier

def tagStart : Option TagWord → List Char
  | none => []
  | some tag => tag.word ++ [' ']

def NamedBase.text (b : NamedBase) : List Char := tagStart b.tag ++ b.name.chars

section Letters

variable {c d : Char} {x w : List Char}

theorem isBlank_of_isIdentChar (h : isIdentChar c = true) : isBlank c = false := by
  simp only [isIdentChar, Bool.or_eq_true, Bool.and_eq_true, Bool.not_eq_true'] at h
  rcases h with letter | ⟨_, other⟩
  · exact isBlank_of_isNameChar letter
  · exact other

theorem ne_of_isIdentChar (hc : isIdentChar c = true) (hd : isIdentChar d = false) : c ≠ d := by
  rintro rfl
  rw [hc] at hd
  cases hd

theorem not_mem_of_letters (hx : x.all isIdentChar = true) (hd : isIdentChar d = false) :
    d ∉ x := by
  intro h
  exact ne_of_isIdentChar (List.all_eq_true.mp hx d h) hd rfl

theorem tight_of_idents (hx : x.all isIdentChar = true) : Tight x where
  first c hc := isBlank_of_isIdentChar (List.all_eq_true.mp hx c (List.mem_of_mem_head? hc))
  last c hc := isBlank_of_isIdentChar (List.all_eq_true.mp hx c (List.mem_of_getLast? hc))

theorem Identifier.letters (x : Identifier) : x.chars.all isIdentChar = true := by
  have h := x.isIdent
  simp only [isIdentifier, Bool.and_eq_true] at h
  exact h.1.2

theorem Identifier.ne_nil (x : Identifier) : x.chars ≠ [] := by
  intro none
  have h := x.isIdent
  rw [none] at h
  exact absurd h (by decide)

theorem Identifier.ne_keyword (x : Identifier) {w : List Char}
    (h : keywords.contains (String.ofList w) = true) : x.chars ≠ w := by
  intro same
  have ident := x.isIdent
  simp only [isIdentifier, same, h, Bool.not_true, Bool.and_false,
    Bool.false_eq_true] at ident

end Letters

/-- A name that may have a blank behind it. -/
def Trailing (y : List Char) : Prop :=
  ∃ x, x ≠ [] ∧ x.all isIdentChar = true ∧ (y = x ∨ y = x ++ [' '])

/-- A text without the blank behind it. -/
def stem (y : List Char) : List Char := dropEndWhile (· == ' ') y

theorem stem_of_letters {x : List Char} (h : x.all isIdentChar = true) :
    stem x = x ∧ stem (x ++ [' ']) = x := by
  have stop : LastIs (fun c => (c == ' ') = false) x := fun c hc =>
    beq_eq_false_iff_ne.mpr
      (ne_of_isIdentChar (List.all_eq_true.mp h c (List.mem_of_getLast? hc)) rfl)
  constructor
  · have run := dropEndWhile_run (b := []) (fun c hc => absurd hc List.not_mem_nil) stop
    rwa [List.append_nil] at run
  · exact dropEndWhile_run (fun c hc => by rw [List.mem_singleton.mp hc]; rfl) stop

theorem Trailing.stem_eq {y : List Char} (h : Trailing y) :
    stem y ≠ [] ∧ (stem y).all isIdentChar = true ∧ (y = stem y ∨ y = stem y ++ [' ']) := by
  obtain ⟨x, ne, letters, rfl | rfl⟩ := h
  · rw [(stem_of_letters letters).1]
    exact ⟨ne, letters, .inl rfl⟩
  · rw [(stem_of_letters letters).2]
    exact ⟨ne, letters, .inr rfl⟩

/-- What may be left of a name, or of a name with a blank behind it. -/
def Worn (id : Identifier) (y : List Char) : Prop :=
  y = id.chars ∨ ∃ ws, (∀ w ∈ ws, w ∈ droppedWords) ∧ y = dropWords ws (id.chars ++ [' '])

section Worn

variable {id : Identifier} {w y : List Char}

theorem Identifier.no_blank (id : Identifier) : ' ' ∉ id.chars := not_mem_of_letters id.letters rfl

theorem Worn.dropWord (h : Worn id y) (hw : w ∈ droppedWords) : Worn id (dropWord w y) := by
  rcases h with rfl | ⟨ws, listed, rfl⟩
  · rw [dropWord_of_no_blank id.no_blank]
    exact .inl rfl
  · refine .inr ⟨ws ++ [w], ?_, ?_⟩
    · exact List.forall_mem_append.mpr ⟨listed, List.forall_mem_singleton.mpr hw⟩
    · rw [dropWords, dropWords, List.foldl_append]
      rfl

theorem Worn.dropWords (h : Worn id y) {ws : List (List Char)} (hw : ∀ w ∈ ws, w ∈ droppedWords) :
    Worn id (dropWords ws y) := by
  induction ws generalizing y with
  | nil => exact h
  | cons w ws ih =>
      obtain ⟨first, rest⟩ := List.forall_mem_cons.mp hw
      exact ih (h.dropWord first) rest

theorem Worn.trailing (h : Worn id y) : Trailing y := by
  have words : ∀ w ∈ droppedWords, keywords.contains (String.ofList w) = true := by decide
  rcases h with rfl | ⟨ws, listed, rfl⟩
  · exact ⟨id.chars, id.ne_nil, id.letters, .inl rfl⟩
  · rcases dropWords_cases id.no_blank ws with ⟨same, _⟩ | ⟨w, hw, same⟩
    · exact ⟨id.chars, id.ne_nil, id.letters, .inr same⟩
    · refine ⟨_, fun none => ?_, ?_, .inl rfl⟩
      · rw [none, List.nil_append] at same
        exact id.ne_keyword (words w (listed w hw)) same
      · have letters := id.letters
        rw [same, List.all_append, Bool.and_eq_true] at letters
        exact letters.1

theorem Worn.eq_of_word (h : Worn id y) (hy : y = w ++ [' ']) : id.chars = w := by
  rcases h with rfl | ⟨ws, listed, rfl⟩
  · exact absurd (hy ▸ by simp) id.no_blank
  · rcases dropWords_cases id.no_blank ws with ⟨same, _⟩ | ⟨w', _, same⟩
    · exact List.append_cancel_right (same.symm.trans hy)
    · rw [hy] at same
      exact absurd (same ▸ by simp) id.no_blank

end Worn

/-- The word of a tag, a name and stars. -/
def starText (tag : Option TagWord) (y : List Char) (n : Nat) : List Char :=
  tagStart tag ++ (y ++ List.replicate n '*')

section Starred

variable {tag : Option TagWord} {w y : List Char} {n : Nat}

theorem not_mem_stars {c : Char} (h : c ≠ '*') : c ∉ List.replicate n '*' :=
  fun hc => h (List.eq_of_mem_replicate hc)

theorem last_tagStart (tag : Option TagWord) : LastIs (· = ' ') (tagStart tag) := by
  cases tag with
  | none => exact lastIs_nil
  | some tag => exact lastIs_concat (p := (· = ' ')) rfl tag.word

theorem replaceAll_trailing (hw : ' ' ∉ w) (hy : Trailing y) (n : Nat) :
    replaceAll (w ++ [' ']) [] (y ++ List.replicate n '*') =
      dropWord w y ++ List.replicate n '*' := by
  have stars : ' ' ∉ List.replicate n '*' := not_mem_stars (by decide)
  obtain ⟨x, _, letters, rfl | rfl⟩ := hy
  · have blank : ' ' ∉ y := not_mem_of_letters letters rfl
    rw [dropWord_of_no_blank blank, replaceAll_no_blank]
    exact fun h => (List.mem_append.mp h).elim blank stars
  · exact replaceAll_behind hw (not_mem_of_letters letters rfl) stars

/-- A word is dropped from the word of the tag and from the name. -/
theorem replaceAll_starText (hw : ' ' ∉ w) (hy : Trailing y) {start : List Char}
    (hs : LastIs (· = ' ') start) (n : Nat) :
    replaceAll (w ++ [' ']) [] (start ++ (y ++ List.replicate n '*')) =
      replaceAll (w ++ [' ']) [] start ++ (dropWord w y ++ List.replicate n '*') := by
  rw [replaceAll_append (not_straddles_blank hw hs), replaceAll_trailing hw hy]

theorem mem_starText (hy : Trailing y) {c : Char} (h : c ∈ starText tag y n) :
    isIdentChar c = true ∨ c = ' ' ∨ c = '*' := by
  have words : ∀ tag, ∀ c ∈ TagWord.word tag, isIdentChar c = true := by
    intro tag c hc
    have all : (TagWord.word tag).all isIdentChar = true := by cases tag <;> decide
    exact List.all_eq_true.mp all c hc
  rcases List.mem_append.mp h with start | rest
  · cases tag with
    | none => cases start
    | some tag =>
        rcases List.mem_append.mp start with letter | blank
        · exact .inl (words tag c letter)
        · exact .inr (.inl (List.mem_singleton.mp blank))
  · rcases List.mem_append.mp rest with name | star
    · obtain ⟨x, _, letters, rfl | rfl⟩ := hy
      · exact .inl (List.all_eq_true.mp letters c name)
      · rcases List.mem_append.mp name with letter | blank
        · exact .inl (List.all_eq_true.mp letters c letter)
        · exact .inr (.inl (List.mem_singleton.mp blank))
    · exact .inr (.inr (List.eq_of_mem_replicate star))

theorem not_mem_starText (hy : Trailing y) {c : Char} (letter : isIdentChar c = false)
    (blank : c ≠ ' ') (star : c ≠ '*') : c ∉ starText tag y n := by
  intro h
  rcases mem_starText hy h with yes | same | same
  · rw [letter] at yes
    cases yes
  · exact blank same
  · exact star same

theorem head_starText (tag : Option TagWord) (n : Nat) (hy : Trailing y) :
    ∃ c, (starText tag y n).head? = some c ∧ isIdentChar c = true := by
  cases tag with
  | some tag => cases tag <;> exact ⟨_, rfl, rfl⟩
  | none =>
      obtain ⟨x, ne, letters, same⟩ := hy
      obtain ⟨c, rest, rfl⟩ := List.exists_cons_of_ne_nil ne
      rw [List.all_cons, Bool.and_eq_true] at letters
      rcases same with rfl | rfl <;> exact ⟨c, rfl, letters.1⟩

/-- A word at the start of such a text is that of the tag, or it is the name. -/
theorem word_of_start (hy : Trailing y) (hw : ' ' ∉ w) (h : w ++ [' '] <+: starText tag y n) :
    (∃ word, tag = some word ∧ w = word.word) ∨ (tag = none ∧ y = w ++ [' ']) := by
  have run {a : List Char} (ha : ' ' ∉ a) (b : List Char) :
      (a ++ ' ' :: b).takeWhile (· != ' ') = a := by
    refine takeWhile_run (fun c hc => ?_) (headIs_cons (p := fun c => (c != ' ') = false) rfl b)
    exact bne_iff_ne.mpr fun same => ha (same ▸ hc)
  obtain ⟨rest, same⟩ := h
  rw [List.append_assoc, List.singleton_append] at same
  have first := (run hw rest).symm
  rw [same] at first
  cases tag with
  | some word =>
      have text : starText (some word) y n = word.word ++ ' ' :: (y ++ List.replicate n '*') :=
        List.append_assoc ..
      have letters : ' ' ∉ word.word := by cases word <;> decide
      rw [text, run letters] at first
      exact .inl ⟨word, rfl, first⟩
  | none =>
      obtain ⟨x, _, letters, rfl | rfl⟩ := hy
      · have blank : ' ' ∈ y ++ List.replicate n '*' := by
          change ' ' ∈ starText none y n
          rw [← same]
          simp
        rcases List.mem_append.mp blank with name | star
        · exact absurd name (not_mem_of_letters letters rfl)
        · exact absurd star (not_mem_stars (by decide))
      · have text : starText none (x ++ [' ']) n = x ++ ' ' :: List.replicate n '*' :=
          List.append_assoc ..
        rw [text, run (not_mem_of_letters letters rfl)] at first
        exact .inr ⟨rfl, by rw [first]⟩

theorem tight_starText (tag : Option TagWord) (hy : Trailing y) (single : n = 0 → ' ' ∉ y) :
    Tight (starText tag y n) := by
  constructor
  · intro c hc
    obtain ⟨d, head, letter⟩ := head_starText tag n hy
    rw [head] at hc
    cases hc
    exact isBlank_of_isIdentChar letter
  · cases n with
    | succ more =>
        rw [starText, List.replicate_succ', ← List.append_assoc, ← List.append_assoc]
        exact lastIs_concat (by decide) _
    | zero =>
        obtain ⟨x, ne, letters, rfl | rfl⟩ := hy
        · rw [starText, List.replicate_zero, List.append_nil]
          exact (tight_of_idents letters).last.append_right ne _
        · exact absurd (List.mem_append_right x List.mem_cons_self) (single rfl)

/-- The tag whose word is still there where the base of a type is read. -/
def keptTag : Option TagWord → Option TagWord
  | some .enum => some .enum
  | _ => none

/-- The words of records are dropped also from names that end in them. -/
def recordWords : List (List Char) := ["struct".toList, "union".toList]

theorem stripRecordWords_starText {id : Identifier} (hy : Worn id y) :
    stripRecordWords (starText tag y n) = starText (keptTag tag) (dropWords recordWords y) n := by
  have first : replaceAll "struct ".toList [] (starText tag y n) =
      replaceAll "struct ".toList [] (tagStart tag) ++
        (dropWord "struct".toList y ++ List.replicate n '*') :=
    replaceAll_starText (w := "struct".toList) (by decide) hy.trailing (last_tagStart tag) n
  have struct : Worn id (dropWord "struct".toList y) := hy.dropWord (by decide)
  have start : LastIs (· = ' ') (replaceAll "struct ".toList [] (tagStart tag)) := by
    rcases tag with _ | _ | _ | _
    · exact lastIs_nil
    · exact lastIs_nil
    · exact lastIs_concat (p := (· = ' ')) rfl "union".toList
    · exact lastIs_concat (p := (· = ' ')) rfl "enum".toList
  have second : replaceAll "union ".toList [] (replaceAll "struct ".toList [] (starText tag y n)) =
      starText (keptTag tag) (dropWords recordWords y) n := by
    rw [first]
    refine (replaceAll_starText (w := "union".toList) (by decide) struct.trailing start n).trans ?_
    rcases tag with _ | _ | _ | _ <;> rfl
  have other : afterStart? "signed ".toList
      (starText (keptTag tag) (dropWords recordWords y) n) = none := by
    have union : Worn id (dropWords recordWords y) := hy.dropWords (by decide)
    rw [afterStart?_eq_none]
    intro h
    rcases word_of_start (w := "signed".toList) union.trailing (by decide) h with
      ⟨word, _, same⟩ | ⟨_, same⟩
    · revert same
      cases word <;> decide
    · exact id.ne_keyword (by decide) (union.eq_of_word same)
  rw [stripRecordWords, second, other]
  rfl

theorem splitStars_starText (hy : Trailing y) (single : n = 0 → ' ' ∉ y) :
    splitStars (starText tag y n) = (tagStart tag ++ stem y, n) := by
  obtain ⟨ne, letters, same⟩ := hy.stem_eq
  have trimmed := trimEnd_of_last (tight_starText tag hy single).last
  have stop : LastIs (isStarOrSpace · = false) (tagStart tag ++ stem y) := by
    refine LastIs.append_right (fun c hc => ?_) ne _
    have letter := List.all_eq_true.mp letters c (List.mem_of_getLast? hc)
    simp [isStarOrSpace, ne_of_isIdentChar letter (d := '*') rfl,
      ne_of_isIdentChar letter (d := ' ') rfl]
  obtain ⟨run, text, all, count⟩ : ∃ run, starText tag y n = tagStart tag ++ stem y ++ run ∧
      (∀ c ∈ run, isStarOrSpace c = true) ∧ run.reverse.count '*' = n := by
    have star : ∀ c ∈ List.replicate n '*', isStarOrSpace c = true := fun c hc => by
      rw [List.eq_of_mem_replicate hc]
      rfl
    rcases same with same | same
    · refine ⟨List.replicate n '*', ?_, star, by simp⟩
      rw [starText, ← same, List.append_assoc]
    · refine ⟨' ' :: List.replicate n '*', ?_, List.forall_mem_cons.mpr ⟨rfl, star⟩, by simp⟩
      rw [starText, same, (stem_of_letters letters).2, List.append_assoc, List.append_assoc]
      rfl
  have tight : Tight (tagStart tag ++ stem y) := by
    have whole := tight_starText (n := 0) tag
      ⟨stem y, ne, letters, .inl rfl⟩ fun _ => not_mem_of_letters letters rfl
    rwa [starText, List.replicate_zero, List.append_nil] at whole
  rw [splitStars, trimmed, text, takeWhile_reverse_run all stop, dropEndWhile_run all stop, count,
    tight.trim_eq]

/-- The name and the stars are found. -/
theorem ofText_starText {id : Identifier} (hy : Worn id y) (single : n = 0 → ' ' ∉ y) :
    Declarator.ofText (starText tag y n) =
      ⟨tagStart (keptTag tag) ++ stem (dropWords recordWords y), n, []⟩ := by
  have dims : splitDimensions (starText tag y n) = (starText tag y n, []) := by
    rw [splitDimensions, if_neg]
    rintro ⟨_, bracket, _⟩
    exact not_mem_starText hy.trailing rfl (by decide) (by decide)
      (List.contains_iff_mem.mp bracket)
  have colon : ':' ∉ starText tag y n := not_mem_starText hy.trailing rfl (by decide) (by decide)
  have union : Worn id (dropWords recordWords y) := hy.dropWords (by decide)
  have left : n = 0 → ' ' ∉ dropWords recordWords y := by
    intro none
    rw [dropWords_of_no_blank (single none)]
    exact single none
  obtain ⟨ne, letters, _⟩ := union.trailing.stem_eq
  have last : (tagStart (keptTag tag) ++ stem (dropWords recordWords y)).getLast? ≠ some '&' := by
    rw [List.getLast?_append_of_ne_nil _ ne]
    exact fun h => not_mem_of_letters letters (d := '&') rfl (List.mem_of_getLast? h)
  simp only [Declarator.ofText, dims, stripNamespace_of_no_colon colon,
    stripRecordWords_starText hy, splitStars_starText union.trailing left,
    splitReference_of_last last, Bool.false_eq_true, if_false]

theorem drop_starText {id : Identifier} (hw : w ∈ qualifierWords) (hy : Worn id y) :
    replaceAll (w ++ [' ']) [] (starText tag y n) = starText tag (dropWord w y) n := by
  have blank : ∀ w ∈ qualifierWords, ' ' ∉ w := by decide
  have starts : ∀ w ∈ qualifierWords,
      replaceAll (w ++ [' ']) [] (tagStart tag) = tagStart tag := by
    rcases tag with _ | _ | _ | _ <;> decide
  rw [starText, replaceAll_starText (blank w hw) hy.trailing (last_tagStart tag), starts w hw]
  rfl

/-- A name is not the word `const`, and a star is not a part of it. -/
theorem dropFinalConst_starText {id : Identifier} (single : n = 0 → y = id.chars) :
    dropFinalConst (starText tag y n) = starText tag y n := by
  have star : ∀ {front : List Char}, starText tag y n = front ++ "const".toList →
      n = 0 ∧ tagStart tag ++ id.chars = front ++ "const".toList := by
    intro front same
    cases n with
    | zero =>
        rw [starText, List.replicate_zero, List.append_nil, single rfl] at same
        exact ⟨rfl, same⟩
    | succ more =>
        have last := congrArg List.getLast? same
        rw [starText, List.replicate_succ', ← List.append_assoc, ← List.append_assoc,
          List.getLast?_concat, List.getLast?_append_of_ne_nil _ (by decide)] at last
        cases last
  unfold dropFinalConst
  split
  · rename_i front found
    obtain ⟨none, same⟩ := star (beforeEnd?_eq_some.mp found)
    refine if_neg fun before => ?_
    have letters {a : List Char} (ha : LastIs (· = ' ') a) {x : List Char} (hx : ' ' ∉ x) :
        (a ++ x).reverse.takeWhile (· != ' ') = x.reverse := by
      refine takeWhile_reverse_run (fun c hc => bne_iff_ne.mpr fun eq => hx (eq ▸ hc)) ?_
      intro c hc
      rw [ha c hc]
      rfl
    rcases before with blank | star
    · have whole := letters (last_tagStart tag) id.no_blank
      have const := letters (a := front) (fun c hc => by rw [blank] at hc; cases hc; rfl)
        (x := "const".toList) (by decide)
      rw [same, const] at whole
      exact id.ne_keyword (w := "const".toList) (by decide) (List.reverse_injective whole).symm
    · have inside : '*' ∈ tagStart tag ++ id.chars := by
        rw [same]
        exact List.mem_append_left _ (List.mem_of_getLast? star)
      have start : '*' ∉ tagStart tag := by rcases tag with _ | _ | _ | _ <;> decide
      exact (List.mem_append.mp inside).elim start (not_mem_of_letters id.letters rfl)
  · rfl

theorem no_blank_of_single {id : Identifier} (h : n = 0 → y = id.chars) : n = 0 → ' ' ∉ y := by
  intro none
  rw [h none]
  exact id.no_blank

theorem stripQualifiers_starText {id : Identifier} (hy : Worn id y)
    (single : n = 0 → y = id.chars) :
    (stripQualifiers (starText tag y n)).text = starText tag (dropWords qualifierWords y) n := by
  have const := hy.dropWord (w := "const".toList) (by decide)
  have volatile := const.dropWord (w := "volatile".toList) (by decide)
  have static : Worn id (dropWords qualifierWords y) :=
    volatile.dropWord (w := "static".toList) (by decide)
  have words : replaceAll "static ".toList [] (replaceAll "volatile ".toList []
      (replaceAll "const ".toList [] (starText tag y n))) =
        starText tag (dropWords qualifierWords y) n := by
    refine (congrArg _ (congrArg _ (drop_starText (w := "const".toList) (by decide) hy))).trans ?_
    refine (congrArg _ (drop_starText (w := "volatile".toList) (by decide) const)).trans ?_
    exact drop_starText (w := "static".toList) (by decide) volatile
  have still : n = 0 → dropWords qualifierWords y = id.chars := by
    intro none
    rw [single none, dropWords_of_no_blank id.no_blank]
  have colon : ¬ "std::".toList <:+: starText tag (dropWords qualifierWords y) n := fun h =>
    not_mem_starText static.trailing (c := ':') rfl (by decide) (by decide) (h.subset (by decide))
  simp only [stripQualifiers, words, replaceAll_of_absent colon]
  rw [dropFinalConst_starText still,
    (tight_starText tag static.trailing (no_blank_of_single still)).trim_eq]

theorem opaquePointer?_of_start {s : List Char} (char : ¬ "char ".toList <+: s)
    (void : ¬ "void ".toList <+: s) : opaquePointer? s = none := by
  have rest : afterStart? "void *[".toList s = none := by
    rw [afterStart?_eq_none]
    exact fun h => void (List.IsPrefix.trans ⟨"*[".toList, rfl⟩ h)
  rw [opaquePointer?, if_neg, if_neg, if_neg, rest]
  · rfl
  · rintro (rfl | rfl) <;> exact void ⟨_, rfl⟩
  · rintro rfl
    exact void ⟨_, rfl⟩
  · rintro (rfl | rfl) <;> exact char ⟨_, rfl⟩

/-- Of the words that mean something with a blank behind them, only that of the tag is there. -/
theorem not_start_starText {id : Identifier} (hy : Worn id y) (blank : ' ' ∉ w)
    (other : ∀ word : TagWord, w ≠ word.word) (name : tag = none → y ≠ id.chars → id.chars ≠ w) :
    ¬ w ++ [' '] <+: starText tag y n := by
  intro h
  rcases word_of_start hy.trailing blank h with ⟨word, _, same⟩ | ⟨none, same⟩
  · exact other word same
  · have named := hy.eq_of_word same
    refine name none (fun whole => ?_) named
    rw [whole, named] at same
    exact absurd (congrArg List.length same) (by simp)

theorem opaquePointer?_starText {id : Identifier} (hy : Worn id y) :
    opaquePointer? (starText tag y n) = none := by
  have keyword : ∀ w ∈ ["char".toList, "void".toList], ¬ w ++ [' '] <+: starText tag y n := by
    have words : ∀ w ∈ ["char".toList, "void".toList],
        keywords.contains (String.ofList w) = true ∧ ' ' ∉ w := by decide
    intro w hw
    refine not_start_starText hy (words w hw).2 (fun word => ?_) fun _ _ =>
      id.ne_keyword (words w hw).1
    revert w
    cases word <;> decide
  exact opaquePointer?_of_start (keyword "char".toList (by decide))
    (keyword "void".toList (by decide))

theorem isFunctionType_starText {id : Identifier} (hy : Worn id y)
    (func : tag = none → y ≠ id.chars → id.chars ≠ "func".toList) :
    isFunctionType (starText tag y n) = false := by
  have word : startsWith "func ".toList (starText tag y n) = false := by
    rw [← Bool.not_eq_true, startsWith_iff]
    refine not_start_starText (w := "func".toList) hy (by decide) (fun word => ?_) func
    cases word <;> decide
  have bracket : startsWith "func(".toList (starText tag y n) = false := by
    rw [← Bool.not_eq_true, startsWith_iff]
    exact fun h => not_mem_starText hy.trailing (c := '(') rfl (by decide) (by decide)
      (h.subset (by decide))
  rw [isFunctionType, word, bracket]
  rfl

theorem unqualifiedText_starText {id : Identifier} (hy : Worn id y)
    (single : n = 0 → y = id.chars)
    (func : tag = none → y ≠ id.chars → id.chars ≠ "func".toList) :
    unqualifiedText (starText tag y n) =
      match enumName? (starText tag y n) with
      | some name => name
      | none =>
          pointing n (baseText (tagStart (keptTag tag) ++ stem (dropWords recordWords y))) := by
  obtain ⟨c, head, letter⟩ := head_starText tag n hy.trailing
  have absent {d : Char} (hd : isIdentChar d = false) (blank : d ≠ ' ') (star : d ≠ '*') :
      d ∉ starText tag y n := not_mem_starText hy.trailing hd blank star
  have reference : afterStart? "&".toList (starText tag y n) = none := by
    rw [afterStart?_eq_none]
    exact fun h => absent (d := '&') rfl (by decide) (by decide) (h.subset (by decide))
  have dims : leadingDimensions? (starText tag y n) = none := by
    rw [leadingDimensions?, if_neg]
    exact fun h => absent (d := '[') rfl (by decide) (by decide) (List.mem_of_mem_head? h)
  rw [unqualifiedText_of_name (tight_starText tag hy.trailing (no_blank_of_single single))
    (isFunctionType_starText hy func) reference dims,
    isSignature_of_no_bracket (absent rfl (by decide) (by decide))
      (absent rfl (by decide) (by decide)),
    ofText_starText hy (no_blank_of_single single), declaredText_eq]
  rfl

/-- Stars turn the rule for enumerations off. -/
theorem enumName?_starText {id : Identifier} (hy : Worn id y) (h : tag = some .enum → n ≠ 0) :
    enumName? (starText tag y n) = none := by
  by_cases enum : tag = some .enum
  · obtain ⟨more, rfl⟩ := Nat.exists_eq_succ_of_ne_zero (h enum)
    exact enumName?_of_star (List.mem_append_right _ (List.mem_append_right _ List.mem_cons_self))
  · have none : afterStart? "enum ".toList (starText tag y n) = none := by
      rw [afterStart?_eq_none]
      intro start
      rcases word_of_start (w := "enum".toList) hy.trailing (by decide) start with
        ⟨word, rfl, same⟩ | ⟨_, same⟩
      · cases word with
        | struct | union => revert same; decide
        | enum => exact enum rfl
      · exact id.ne_keyword (by decide) (hy.eq_of_word same)
    rw [enumName?, none]
    rfl

theorem enumName?_enum (id : Identifier) :
    enumName? (starText (some .enum) id.chars 0) = some (capitalizeFirst id.chars) := by
  have start : afterStart? "enum ".toList (starText (some .enum) id.chars 0) = some id.chars := by
    rw [starText, List.replicate_zero, List.append_nil]
    exact afterStart?_eq_some.mpr rfl
  have absent {c : Char} (hc : isIdentChar c = false) : id.chars.contains c = false := by
    rw [← Bool.not_eq_true, List.contains_iff_mem]
    exact not_mem_of_letters id.letters hc
  rw [enumName?, start, Option.bind_some, absent rfl, absent rfl,
    (tight_of_idents id.letters).trim_eq]
  rfl

theorem typeText_starText {id : Identifier} (hy : Worn id y) (single : n = 0 → y = id.chars)
    (func : tag = none → y ≠ id.chars → id.chars ≠ "func".toList)
    (list : contains "__va_list_tag".toList (starText tag y n) = false) :
    typeText (starText tag y n) =
      match enumName? (starText tag (dropWords qualifierWords y) n) with
      | some name => name
      | none =>
          pointing n (baseText (tagStart (keptTag tag) ++ stem (dropWords droppedWords y))) := by
  have left : Worn id (dropWords qualifierWords y) := hy.dropWords (by decide)
  have whole : y = id.chars → dropWords qualifierWords y = id.chars := by
    rintro rfl
    exact dropWords_of_no_blank id.no_blank qualifierWords
  have all : dropWords droppedWords y = dropWords recordWords (dropWords qualifierWords y) :=
    List.foldl_append
  have trimmed := (tight_starText tag hy.trailing (no_blank_of_single single)).trim_eq
  rw [typeText, trimmed, if_neg (Bool.eq_false_iff.mp list), stripQualifiers_starText hy single,
    opaquePointer?_starText left, all]
  exact unqualifiedText_starText left (fun none => whole (single none))
    fun none other => func none fun same => other (whole same)

end Starred

end VFromC.Spelling
