import VFromC.Proofs.Decl.RestState
import VFromC.Proofs.Symbols.History
/-!
Which declarations of globals are written, and as what.
-/
namespace VFromC.Decl
open VFromC.Syntax VFromC.Output VFromC.Emit VFromC.Text

/-- The global is written as a constant. -/
def isConstant (n : Node) : Bool :=
  (initializer? n).isSome && ((Spelling.convert n.spelling).isConst || isFixedArray n)

/-- The type without which a global has nothing to hold. -/
def holdsUnnamedEnum (n : Node) : Bool :=
  (initializer? n).isNone &&
    (occursIn "anonymous enum" n.spelling || occursIn "unnamed enum" n.spelling)

/-- The unit has a use for the global: it is a constant, or the C text mentions it and it belongs
to the program. -/
def isWanted (u : SourceUnit) (n : Node) : Bool :=
  isConstant n ||
    (u.mentions n.name && !Ident.isLibraryGlobal (Ident.spell n.name) && !holdsUnnamedEnum n)

/-- The declaration is passed over, whatever is known. -/
def yields (u : SourceUnit) (n : Node) : Bool :=
  begins "[]" n.spelling || givesWay u n || !isWanted u n

/-- The declaration is written, judged by the symbols that are known. -/
def isWritten (u : SourceUnit) (known : Symbols) (n : Node) : Bool :=
  !yields u n && !isUnsized n &&
    match known.checkGlobal (Ident.spell n.name) (Spelling.typeOf n.spelling) with
    | .ok .emit => true
    | _ => false

/-- What is written for a global. -/
def definition (n : Node) : Script Unit :=
  match initializer? n with
  | some value =>
      if isConstant n then constantText n (Ident.spell n.name) value
      else variableText n (Ident.spell n.name) (Spelling.typeOf n.spelling) (some value)
  | none => variableText n (Ident.spell n.name) (Spelling.typeOf n.spelling) none

variable {u : SourceUnit} {known : Symbols} {n : Node}

/-- A declaration without storage and without a value is passed over where the global has a value
elsewhere. -/
theorem yields_of_initialized {other value : Node} (outer : n.isExtern = true)
    (bare : initializer? n = none) (there : other ∈ u.root.inner) (hk : other.kind = .varDecl)
    (same : other.name = n.name) (apart : other.info.id ≠ n.info.id)
    (given : initializer? other = some value) : yields u n = true := by
  have elsewhere : isInitializedElsewhere u n = true := by
    refine List.any_eq_true.mpr ⟨other, there, ?_⟩
    simp [hk, same, apart, given]
  simp [yields, givesWay, outer, bare, elsewhere]

theorem writeGlobal_of_isWanted (h : isWanted u n = true) :
    writeGlobal u n (Ident.spell n.name) (Spelling.convert n.spelling) =
      recordGlobal u n (Ident.spell n.name) (Spelling.typeOf n.spelling) (definition n) := by
  unfold writeGlobal definition
  cases hi : initializer? n with
  | some value =>
      have constant : isConstant n =
          ((Spelling.convert n.spelling).isConst || isFixedArray n) := by
        simp [isConstant, hi]
      dsimp only
      rw [← constant]
      cases hc : isConstant n with
      | true => rfl
      | false =>
          simp only [isWanted, hc, Bool.false_or, Bool.and_eq_true, Bool.not_eq_true'] at h
          obtain ⟨⟨mentioned, own⟩, _⟩ := h
          simp only [writeVariable, mentioned, own, Bool.not_true, Bool.false_eq_true, if_false,
            Option.isNone_some, Bool.false_and]
          rfl
  | none =>
      simp only [isWanted, isConstant, holdsUnnamedEnum, hi, Option.isSome_none, Bool.false_and,
        Option.isNone_none, Bool.true_and, Bool.false_or, Bool.and_eq_true,
        Bool.not_eq_true'] at h
      obtain ⟨⟨mentioned, own⟩, named⟩ := h
      simp only [writeVariable, mentioned, own, named, Bool.not_true, Bool.false_eq_true, if_false,
        Option.isNone_none, Bool.true_and]
      rfl

theorem writeVariable_silent {name type : String} {value : Option Node}
    (h : (u.mentions n.name && !Ident.isLibraryGlobal name &&
      !(value.isNone && (occursIn "anonymous enum" n.spelling ||
        occursIn "unnamed enum" n.spelling))) = false) :
    Silent (writeVariable u n name type value) := by
  unfold writeVariable
  split
  · exact silent_note _
  · split
    · exact silent_pure
    · split
      · exact silent_pure
      · simp_all

theorem writeGlobal_silent (h : isWanted u n = false) :
    Silent (writeGlobal u n (Ident.spell n.name) (Spelling.convert n.spelling)) := by
  simp only [isWanted, Bool.or_eq_false_iff] at h
  obtain ⟨plain, unwanted⟩ := h
  unfold writeGlobal
  cases hi : initializer? n with
  | some value =>
      simp only [isConstant, hi, Option.isSome_some, Bool.true_and] at plain
      dsimp only
      rw [plain]
      exact writeVariable_silent (by simpa [holdsUnnamedEnum, hi] using unwanted)
  | none => exact writeVariable_silent (by simpa [holdsUnnamedEnum, hi] using unwanted)

theorem judgedGlobal_of_isWritten (h : isWritten u known n = true) :
    judgedGlobal u n known =
      recordGlobal u n (Ident.spell n.name) (Spelling.typeOf n.spelling) (definition n) := by
  simp only [isWritten, yields, Bool.and_eq_true, Bool.not_eq_true', Bool.or_eq_false_iff,
    Bool.not_eq_false'] at h
  obtain ⟨⟨⟨⟨sized, stays⟩, wanted⟩, written⟩, verdict⟩ := h
  split at verdict
  · rename_i emit
    simp only [Spelling.typeOf] at emit
    simp only [judgedGlobal, sized, emit, stays, written, Bool.false_eq_true, if_false]
    exact writeGlobal_of_isWanted wanted
  · cases verdict

theorem silent_of_not_isWritten (h : isWritten u known n = false) :
    Silent (judgedGlobal u n known) := by
  unfold judgedGlobal
  dsimp only
  split
  · exact silent_pure
  · split
    · exact silent_fail _
    · exact silent_note _
    · rename_i emit
      split
      · exact silent_pure
      · split
        · exact silent_fail _
        · refine writeGlobal_silent ?_
          simp_all [isWritten, yields, Spelling.typeOf]

/-- A declaration that is neither passed over nor refused is written, unless the global has been
defined with storage. -/
theorem isWritten_of_ok {desk : Desk} (stays : yields u n = false)
    (unsettled : ∀ g, known.globals.lookup (Ident.spell n.name) = some g → g.isExtern = true)
    (ok : (judgedGlobal u n known desk).result = .ok ()) : isWritten u known n = true := by
  have judged := stays
  simp only [yields, Bool.or_eq_false_iff] at judged
  obtain ⟨⟨sized, settles⟩, _⟩ := judged
  simp only [judgedGlobal, sized, settles, Bool.false_eq_true, if_false] at ok
  unfold isWritten Spelling.typeOf
  rcases hc : known.checkGlobal (Ident.spell n.name) (Spelling.convert n.spelling).name with
    e | ⟨⟩ | ⟨⟩
  · rw [hc] at ok
    cases ok
  · rw [hc] at ok
    cases hu : isUnsized n with
    | false => rw [stays]; rfl
    | true =>
        rw [hu] at ok
        cases ok
  · obtain ⟨g, found, storage, -⟩ := Symbols.checkGlobal_duplicate hc
    rw [unsettled g found] at storage
    cases storage

theorem checkGlobal_of_isWritten (h : isWritten u known n = true) :
    known.checkGlobal (Ident.spell n.name) (Spelling.typeOf n.spelling) = .ok .emit := by
  simp only [isWritten, Bool.and_eq_true] at h
  have verdict := h.2
  split at verdict
  · assumption
  · cases verdict

end VFromC.Decl
