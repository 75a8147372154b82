import VFromC.Proofs.Batch.Growth
import VFromC.Proofs.Text.Replace
import Mathlib.Algebra.GroupWithZero.Nat
/-!
Open files in the units of a directory.

Whether a unit uses open files is read off its own text, without the globals that were moved out of
it. The globals file declares their type if some text of a unit tells so, whatever it holds itself.
-/
namespace VFromC.Text

variable {pat s : List Char} {sep : Char}

/-- The number of places at which a pattern starts. -/
def occurrences (pat : List Char) : List Char → Nat
  | [] => 0
  | c :: s => (if startsWith pat (c :: s) then 1 else 0) + occurrences pat s

def countIn (pat s : String) : Nat := occurrences pat.toList s.toList

theorem occurrences_of_absent (h : ¬ pat <:+: s) : occurrences pat s = 0 := by
  induction s with
  | nil => rfl
  | cons c s ih =>
      rw [List.infix_cons_iff, not_or] at h
      rw [occurrences, if_neg fun start => h.1 (startsWith_iff.mp start), ih h.2]

/-- A pattern is found on both sides of a character that it does not have. -/
theorem occurrences_append_cons (hne : pat ≠ []) (outside : sep ∉ pat) (x y : List Char) :
    occurrences pat (x ++ sep :: y) = occurrences pat x + occurrences pat y := by
  induction x with
  | nil =>
      have start : ¬ startsWith pat (sep :: y) = true := fun h =>
        not_start_cons outside hne y (startsWith_iff.mp h)
      simp only [List.nil_append, occurrences, if_neg start]
  | cons c x ih =>
      have start : startsWith pat (c :: (x ++ sep :: y)) = startsWith pat (c :: x) := by
        rw [Bool.eq_iff_iff, startsWith_iff, startsWith_iff]
        constructor
        · intro h
          exact prefix_of_not_straddles (not_straddles_cons outside (c :: x) y)
            (List.cons_ne_nil c x) h
        · intro h
          exact h.trans (List.prefix_append (c :: x) _)
      rw [List.cons_append, occurrences, start, ih, occurrences, Nat.add_assoc]

theorem occurrences_intercalate (hne : pat ≠ []) (outside : sep ∉ pat)
    (parts : List (List Char)) :
    occurrences pat ([sep].intercalate parts) = (parts.map (occurrences pat)).sum := by
  induction parts with
  | nil => rfl
  | cons part rest ih =>
      cases rest with
      | nil => simp
      | cons next rest =>
          rw [List.intercalate_cons_cons, List.append_assoc, List.singleton_append,
            occurrences_append_cons hne outside, ih]
          rfl

end VFromC.Text

namespace VFromC
open VFromC.Syntax VFromC.Output VFromC.Emit VFromC.Decl VFromC.Text

namespace Batch

/-- The walk through a unit does not tell whether it uses open files. -/
theorem usesFile_walked (b : Batch) (root : Node) (source : Option String) :
    (b.walked root source).usesFile = b.symbols.usesFile := by
  obtain ⟨changes, _, _, made⟩ := b.walked_changes root source
  rw [made, Symbols.addTexts_eq]
  exact Symbols.usesFile_replay b.symbols changes

theorem usesFile_noteFile (symbols : Symbols) (body : String) :
    (noteFile symbols body).usesFile =
      (symbols.usesFile || occursIn "FILE" (unitHeader ++ body)) := by
  unfold noteFile
  split <;> simp_all [Symbols.markFile]

/-- One unit of a directory adds that open files are used exactly if its text tells so. -/
theorem usesFile_render {b : Batch} (shared : b.shared = true) (root : Node)
    (source : Option String) :
    (b.render root source).batch.symbols.usesFile =
      (b.symbols.usesFile || (b.render root source).result.toOption.any (occursIn "FILE")) := by
  have before := b.usesFile_walked root source
  rw [render]
  rcases b.renderKnowing_cases {} root source with ⟨body, -, -, same⟩ | ⟨e, -, same⟩
  · have whole : unitText b.shared body = unitHeader ++ body := by
      rw [unitText, shared]
      rfl
    rw [same, ← before, whole]
    exact usesFile_noteFile (b.walked root source) body
  · rw [same, ← before]
    exact (Bool.or_false _).symm

theorem usesFile_after {b : Batch} (shared : b.shared = true)
    (units : List (Node × Option String)) :
    (b.after units).symbols.usesFile =
      (b.symbols.usesFile || (b.texts units).any (occursIn "FILE")) := by
  induction units generalizing b with
  | nil => exact (Bool.or_false _).symm
  | cons unit rest ih =>
      have later := ih ((b.shared_render unit.1 unit.2).trans shared)
      have first : (b.render unit.1 unit.2).result.toOption.any (occursIn "FILE") =
          (b.render unit.1 unit.2).result.toOption.toList.any (occursIn "FILE") := by
        cases (b.render unit.1 unit.2).result.toOption <;> simp
      rw [texts, List.any_append, ← first, ← Bool.or_assoc, ← usesFile_render shared]
      exact later

/-- A pattern that keeps to one line occurs in the parts of the globals file only. -/
theorem countIn_globalsFile (b : Batch) {pat : String} (hne : pat.toList ≠ [])
    (outside : '\n' ∉ pat.toList) :
    countIn pat b.globalsFile = (b.globalsParts.map (countIn pat)).sum := by
  have joined : countIn pat ("\n".intercalate b.globalsParts) =
      (b.globalsParts.map (countIn pat)).sum := by
    rw [countIn, String.toList_intercalate]
    refine (occurrences_intercalate hne outside _).trans ?_
    rw [List.map_map]
    rfl
  unfold globalsFile
  dsimp only
  split
  · exact joined
  · rw [← joined, countIn, String.toList_append]
    exact (occurrences_append_cons hne outside _ []).trans (Nat.add_zero _)

end Batch

/-- The line that declares the type of open files. -/
def fileLine : String := "struct C.FILE \x7b\x7d"

theorem countIn_globalsFile_fileLine (b : Batch) :
    countIn fileLine b.globalsFile =
      (if b.symbols.usesFile then 1 else 0) +
        (b.symbols.globalTexts.map fun entry => countIn fileLine entry.2).sum := by
  have header : countIn fileLine "[translated]\n" = 0 := by decide +kernel
  have declaration : countIn fileLine (trimmedEnd fileDeclaration) = 1 := by decide +kernel
  rw [b.countIn_globalsFile (by decide) (by decide), Batch.globalsParts]
  simp only [List.map_append, List.sum_append, List.map_map, List.map_cons, List.map_nil,
    List.sum_cons, List.sum_nil, header]
  cases b.symbols.usesFile with
  | true => simp [declaration, Function.comp_def]
  | false => simp [Function.comp_def]

/-- The globals file of a directory declares the type of open files once if some text of a unit has
`FILE` in it, and beyond that as often as the globals in it spell the declaration out. What the
globals use does not count. -/
theorem open_files_declared (units : List (Node × Option String)) :
    let b := ({ shared := true } : Batch).after units
    let texts := ({ shared := true } : Batch).texts units
    let declared := countIn fileLine b.globalsFile
    declared = (if texts.any (occursIn "FILE") then 1 else 0) +
        (b.symbols.globalTexts.map fun entry => countIn fileLine entry.2).sum ∧
    ((∀ entry ∈ b.symbols.globalTexts, occursIn fileLine entry.2 = false) →
      (declared = 1 ↔ ∃ text ∈ texts, occursIn "FILE" text = true) ∧
      ((∃ text ∈ texts, occursIn "C.FILE" text = true) → declared = 1)) := by
  intro b texts declared
  have marked : b.symbols.usesFile = texts.any (occursIn "FILE") :=
    (Batch.usesFile_after rfl units).trans (Bool.false_or _)
  have counted : declared = (if texts.any (occursIn "FILE") then 1 else 0) +
      (b.symbols.globalTexts.map fun entry => countIn fileLine entry.2).sum := by
    rw [← marked]
    exact countIn_globalsFile_fileLine b
  refine ⟨counted, ?_⟩
  intro unspelled
  have none : (b.symbols.globalTexts.map fun entry => countIn fileLine entry.2).sum = 0 := by
    rw [List.sum_eq_zero_iff_forall_eq_nat]
    intro count h
    obtain ⟨entry, he, rfl⟩ := List.mem_map.mp h
    apply occurrences_of_absent
    rw [← contains_iff_within, Bool.not_eq_true]
    exact unspelled entry he
  have once : declared = 1 ↔ ∃ text ∈ texts, occursIn "FILE" text = true := by
    rw [counted, none, ← List.any_eq_true]
    cases texts.any (occursIn "FILE") <;> simp
  refine ⟨once, ?_⟩
  rintro ⟨text, ht, used⟩
  apply once.mpr
  refine ⟨text, ht, ?_⟩
  have short : "FILE".toList <:+: "C.FILE".toList := ⟨"C.".toList, [], by decide⟩
  exact contains_iff_within.mpr (short.trans (contains_iff_within.mp used))

/-- A unit with a global for an open file. -/
def tracingUnit : Node :=
  let type : TypeText := { spelling := "FILE *" }
  ⟨{}, [], [⟨{ kind := .varDecl, name := "trace", type, place := { file := "a.c" } }, [], []⟩]⟩

/-- A unit with a function that takes an open file. -/
def closingUnit : Node :=
  let type : TypeText := { spelling := "FILE *" }
  let place : Place := { file := "b.c" }
  let file : Node := ⟨{ kind := .parmVarDecl, name := "f", type, place }, [], []⟩
  let body : Node := ⟨{ kind := .compoundStmt }, [], []⟩
  ⟨{}, [], [⟨{ kind := .functionDecl, name := "shut", place }, [], [file, body]⟩]⟩

/-- The global alone does not bring the declaration about, and the function does. -/
theorem tracingUnit_undeclared :
    let start : Batch := { shared := true }
    let units := [(tracingUnit, none), (closingUnit, none)]
    let collected := [("trace", "[weak]\n__global ( trace &C.FILE )\n\n")]
    (start.after (units.take 1)).symbols.globalTexts = collected ∧
    countIn fileLine (start.after (units.take 1)).globalsFile = 0 ∧
    countIn fileLine (start.after units).globalsFile = 1 := by
  intro start units collected
  obtain ⟨first, silent⟩ : (start.after (units.take 1)).symbols.globalTexts = collected ∧
      (start.texts (units.take 1)).any (occursIn "FILE") = false := by
    decide +kernel
  obtain ⟨both, closing⟩ : (start.after units).symbols.globalTexts = collected ∧
      "[translated]\nmodule main\n\nfunc shut(f &C.FILE) \x7b\n\x7d\n\n" ∈ start.texts units := by
    decide +kernel
  refine ⟨first, ?_, ?_⟩
  · have counted := (open_files_declared (units.take 1)).1
    rw [silent, first] at counted
    exact counted.trans (by decide +kernel)
  · apply ((open_files_declared units).2 ?_).2
    · exact ⟨_, closing, by decide +kernel⟩
    · rw [both]
      intro entry he
      cases List.mem_singleton.mp he
      decide +kernel

end VFromC
