import VFromC.Proofs.Decl.Globals
/-!
What a declaration asks about the rest of its unit.

A function without a body asks whether the unit defines it, and a global whether it gives way to
another declaration. In units that differ otherwise, a declaration is written alike exactly if these
questions have the same answers, where they are asked at all.
-/
namespace VFromC.Syntax

/-- The node with another number of redeclarations. -/
def Node.recount (n : Node) (count : Nat) : Node :=
  { n with info := { n.info with redeclarations := count } }

theorem Node.recount_self (n : Node) : n.recount n.info.redeclarations = n := by
  obtain ⟨info, filler, inner⟩ := n
  rfl

end VFromC.Syntax

namespace VFromC.Decl
open VFromC.Syntax VFromC.Output VFromC.Emit VFromC.Text

section Commands

variable {α β : Type} {s : Script α} {f : α → Script β}

/-- The script gives some command, wherever it starts. -/
def Speaks (s : Script α) : Prop := ∀ desk, (s desk).commands ≠ []

theorem speaks_command (c : Command) : Speaks (Script.command c) := fun _ => List.cons_ne_nil c []

theorem Speaks.bind (hs : Speaks s) : Speaks (s >>= f) := by
  intro desk silent
  rw [Script.bind_apply] at silent
  split at silent
  · exact hs desk (List.append_eq_nil_iff.mp silent).1
  · exact hs desk silent

theorem Speaks.after (ok : ∀ desk, ∃ a, (s desk).result = .ok a) (hf : ∀ a, Speaks (f a)) :
    Speaks (s >>= f) := by
  intro desk silent
  obtain ⟨a, ha⟩ := ok desk
  rw [Script.bind_apply, ha] at silent
  exact hf a _ (List.append_eq_nil_iff.mp silent).2

end Commands

variable {u : SourceUnit} {root n : Node} {count : Nat}

section Functions

/-- The function has no body, and it is written unless it is known or defined by the unit. -/
def isPrototype (u : SourceUnit) (n : Node) : Bool :=
  !(occursIn "usr/include" n.info.place.file || n.name = "" || n.name = "invalid") &&
    u.mentions n.name && !n.hasChild .compoundStmt

theorem speaks_functionText (n : Node) : Speaks (functionText n) := by
  have line (condition : Prop) [Decidable condition] (text : String) (desk : Desk) :
      ∃ a, (Script.when condition (Script.line text) desk).result = .ok a := by
    unfold Script.when
    split
    · exact ⟨(), rfl⟩
    · exact ⟨(), rfl⟩
  apply Speaks.after (line _ _)
  intro _
  apply Speaks.after (line _ _)
  intro _
  apply Speaks.after fun _ => ⟨(), rfl⟩
  intro _
  apply Speaks.bind
  cases (n.childrenOf .compoundStmt).head? with
  | none => exact Speaks.bind (Speaks.bind (speaks_command _))
  | some body =>
      apply Speaks.after fun _ => ⟨(), rfl⟩
      intro _
      exact Speaks.bind (Speaks.bind (speaks_command _))

/-- At the very start a prototype is passed over if and only if the unit defines the function. -/
theorem definesFunction_iff_silent (h : isPrototype u n = true) :
    definesFunction u n.name = true ↔ (functionDecl u n {}).commands = [] := by
  simp only [isPrototype, Bool.and_eq_true, Bool.not_eq_true'] at h
  obtain ⟨⟨own, mentioned⟩, bodiless⟩ := h
  have written : functionDecl u n {} =
      (if definesFunction u n.name then pure () else functionText n : Script Unit) {} := by
    change (if occursIn "usr/include" n.info.place.file || n.name = "" || n.name = "invalid" then _
      else if !u.mentions n.name then _
      else if !n.hasChild .compoundStmt && (false || definesFunction u n.name) then _
      else _ : Script Unit) {} = _
    rw [own, mentioned, bodiless]
    rfl
  rw [written]
  cases definesFunction u n.name with
  | true => exact ⟨fun _ => rfl, fun _ => rfl⟩
  | false => exact ⟨nofun, fun silent => absurd silent (speaks_functionText n {})⟩

theorem functionDecl_eq_iff :
    functionDecl { u with root } n = functionDecl u n ↔
      (isPrototype u n = true →
        definesFunction { u with root } n.name = definesFunction u n.name) := by
  constructor
  · intro same prototype
    have here : isPrototype { u with root } n = true := prototype
    rw [Bool.eq_iff_iff, definesFunction_iff_silent here, definesFunction_iff_silent prototype, same]
  · intro answer
    cases h : isPrototype u n with
    | true =>
        unfold functionDecl
        rw [answer h]
        rfl
    | false =>
        have mentions : SourceUnit.mentions { u with root } n.name = u.mentions n.name := rfl
        simp only [isPrototype, Bool.and_eq_false_iff, Bool.not_eq_false'] at h
        unfold functionDecl
        rcases h with (foreign | unmentioned) | body
        · simp only [foreign, if_true]
        · simp only [mentions, unmentioned, Bool.not_false, if_true]
        · simp only [mentions, body, Bool.not_true, Bool.false_and]

end Functions

section Globals

/-- It matters for what is written or noted whether the global gives way. -/
def isJudged (u : SourceUnit) (n : Node) : Bool :=
  !begins "[]" n.spelling && (isUnsized n || isConstant n || !u.mentions n.name ||
    !(Ident.isLibraryGlobal (Ident.spell n.name) || holdsUnnamedEnum n))

theorem speaks_recordGlobal (u : SourceUnit) (n : Node) (name type : String) (text : Script Unit) :
    Speaks (recordGlobal u n name type text) :=
  Speaks.bind (speaks_command _)

theorem speaks_writeGlobal (h : (isConstant n || !u.mentions n.name ||
      !(Ident.isLibraryGlobal (Ident.spell n.name) || holdsUnnamedEnum n)) = true) :
    Speaks (writeGlobal u n (Ident.spell n.name) (Spelling.convert n.spelling)) := by
  cases wanted : isWanted u n with
  | true =>
      rw [writeGlobal_of_isWanted wanted]
      exact speaks_recordGlobal u n _ _ _
  | false =>
      -- What is mentioned and judged is wanted, so that the global is not mentioned.
      have unmentioned : u.mentions n.name = false := by
        cases hm : u.mentions n.name with
        | false => rfl
        | true => simp_all [isWanted]
      have note (value : Option Node) :
          Speaks (writeVariable u n (Ident.spell n.name) (Spelling.typeOf n.spelling) value) := by
        simp only [writeVariable, unmentioned, Bool.not_false, if_true]
        exact speaks_command _
      unfold writeGlobal
      cases hi : initializer? n with
      | none => exact note none
      | some value =>
          have plain : ((Spelling.convert n.spelling).isConst || isFixedArray n) = false := by
            simpa [isWanted, isConstant, hi, unmentioned] using wanted
          dsimp only
          rw [plain]
          exact note (some value)

theorem writeGlobal_of_idle (mentioned : u.mentions n.name = true) (plain : isConstant n = false)
    (idle : (Ident.isLibraryGlobal (Ident.spell n.name) || holdsUnnamedEnum n) = true) :
    writeGlobal u n (Ident.spell n.name) (Spelling.convert n.spelling) = pure () := by
  have nothing {value : Option Node} (given : initializer? n = value) (type : String) :
      writeVariable u n (Ident.spell n.name) type value = pure () := by
    unfold writeVariable
    rw [mentioned]
    rcases Bool.or_eq_true_iff.mp idle with library | unnamed
    · rw [library]
      rfl
    · rw [holdsUnnamedEnum, given] at unnamed
      simp only [unnamed, Bool.not_true, Bool.false_eq_true, if_false, if_true, ite_self]
  unfold writeGlobal
  cases hi : initializer? n with
  | none => exact nothing hi _
  | some value =>
      have variable_ : ((Spelling.convert n.spelling).isConst || isFixedArray n) = false := by
        simpa [isConstant, hi] using plain
      dsimp only
      rw [variable_]
      exact nothing hi _

/-- What is done with a global that is neither known nor without any size. -/
def outcomeOf (u : SourceUnit) (n : Node) : Script Unit :=
  if givesWay u n then pure ()
  else if isUnsized n then Script.fail (.unsizedArray (Ident.spell n.name) n.spelling)
  else writeGlobal u n (Ident.spell n.name) (Spelling.convert n.spelling)

theorem globalDecl_start (sized : begins "[]" n.spelling = false) :
    globalDecl u n {} = outcomeOf u n {} := by
  change (if begins "[]" n.spelling then pure () else outcomeOf u n : Script Unit) {} = _
  rw [sized]
  rfl

/-- At the very start the global leaves nothing behind if and only if it gives way. -/
theorem givesWay_iff_silent (h : isJudged u n = true) :
    givesWay u n = true ↔ globalDecl u n {} = ⟨[], {}, .ok ()⟩ := by
  simp only [isJudged, Bool.and_eq_true, Bool.not_eq_true'] at h
  rw [globalDecl_start h.1, outcomeOf]
  cases givesWay u n with
  | true => exact ⟨fun _ => rfl, fun _ => rfl⟩
  | false =>
      refine ⟨nofun, fun silent => ?_⟩
      cases hs : isUnsized n with
      | true =>
          rw [hs] at silent
          cases silent
      | false =>
          rw [hs] at silent h
          have speaks := speaks_writeGlobal (u := u) h.2 {}
          exact absurd (congrArg Written.commands silent) speaks

theorem storageMark_recount (single : u.shared = false) (stays : givesWay u n = false)
    (stays' : givesWay { u with root } (n.recount count) = false) (value : Option Node) :
    storageMark (n.recount count) value = storageMark n value := by
  cases outer : n.isExtern with
  | false =>
      have outer' : (n.recount count).isExtern = false := outer
      simp [storageMark, outer, outer']
  | true =>
      have outer' : (n.recount count).isExtern = true := outer
      have never : n.info.redeclarations = 0 := by simp_all [givesWay]
      have never' : (n.recount count).info.redeclarations = 0 := by simp_all [givesWay]
      simp only [storageMark, never, never', outer, outer']
      rfl

theorem outcomeOf_recount (single : u.shared = false)
    (answer : givesWay { u with root } (n.recount count) = givesWay u n) :
    outcomeOf { u with root } (n.recount count) = outcomeOf u n := by
  unfold outcomeOf
  rw [answer]
  cases stays : givesWay u n with
  | true => rfl
  | false =>
      rw [stays] at answer
      have text (name type : String) (value : Option Node) :
          variableText (n.recount count) name type value = variableText n name type value := by
        unfold variableText
        rw [storageMark_recount single stays answer]
        rfl
      have written (name type : String) (value : Option Node) :
          writeVariable { u with root } (n.recount count) name type value =
            writeVariable u n name type value := by
        unfold writeVariable
        rw [text]
        rfl
      have given : initializer? (n.recount count) = initializer? n := rfl
      have global (name : String) (type : Spelling.VType) :
          writeGlobal { u with root } (n.recount count) name type = writeGlobal u n name type := by
        unfold writeGlobal
        rw [given]
        cases initializer? n with
        | none => exact written _ _ _
        | some value =>
            dsimp only
            rw [written]
            rfl
      simp only [Bool.false_eq_true, if_false]
      rw [← global]
      rfl

/-- Where nobody judges, it is all the same whether the global gives way. -/
theorem outcomeOf_of_not_isJudged (h : isJudged u n = false) (sized : begins "[]" n.spelling = false) :
    outcomeOf u n = pure () := by
  simp only [isJudged, sized, Bool.not_false, Bool.true_and, Bool.or_eq_false_iff,
    Bool.not_eq_false'] at h
  obtain ⟨⟨⟨fits, plain⟩, mentioned⟩, idle⟩ := h
  unfold outcomeOf
  rw [fits, writeGlobal_of_idle mentioned plain idle]
  split <;> rfl

theorem judgedGlobal_of_outcome {w : SourceUnit} {m : Node} (name : m.name = n.name)
    (spelling : m.spelling = n.spelling) (sized : begins "[]" n.spelling = false)
    (outcome : outcomeOf w m = outcomeOf u n) (known : Symbols) :
    judgedGlobal w m known = judgedGlobal u n known := by
  rw [outcomeOf, outcomeOf, name, spelling] at outcome
  unfold judgedGlobal
  rw [name, spelling, sized]
  dsimp only
  cases known.checkGlobal (Ident.spell n.name) (Spelling.convert n.spelling).name with
  | error e => rfl
  | ok verdict =>
      cases verdict with
      | duplicate => rfl
      | emit => exact outcome

theorem globalDecl_eq_iff (single : u.shared = false) :
    globalDecl { u with root } (n.recount count) = globalDecl u n ↔
      (isJudged u n = true → givesWay { u with root } (n.recount count) = givesWay u n) := by
  constructor
  · intro same judged
    have here : isJudged { u with root } (n.recount count) = true := judged
    rw [Bool.eq_iff_iff, givesWay_iff_silent here, givesWay_iff_silent judged, same]
  · intro answer
    cases sized : begins "[]" n.spelling with
    | true =>
        have none (u : SourceUnit) (m : Node) (h : begins "[]" m.spelling = true)
            (known : Symbols) : judgedGlobal u m known = pure () := by
          simp only [judgedGlobal, h, if_true]
        have sized' : begins "[]" (n.recount count).spelling = true := sized
        unfold globalDecl
        simp only [none _ _ sized, none _ _ sized']
    | false =>
        have sized' : begins "[]" (n.recount count).spelling = false := sized
        have outcome : outcomeOf { u with root } (n.recount count) = outcomeOf u n := by
          cases hj : isJudged u n with
          | true => exact outcomeOf_recount single (answer hj)
          | false =>
              rw [outcomeOf_of_not_isJudged hj sized]
              exact outcomeOf_of_not_isJudged (u := { u with root }) hj sized'
        have name : (n.recount count).name = n.name := rfl
        have spelling : (n.recount count).spelling = n.spelling := rfl
        unfold globalDecl
        congr 1
        funext known
        exact judgedGlobal_of_outcome name spelling sized outcome known

end Globals

/-- The declaration finds the same answers in both units to what it asks. The second one counts its
redeclarations anew. -/
def AnsweredAlike (u w : SourceUnit) (n m : Node) : Prop :=
  n.info.isBuiltin = false →
    (n.kind = .functionDecl → isPrototype u n = true →
      definesFunction w n.name = definesFunction u n.name) ∧
    (n.kind = .varDecl → isJudged u n = true → givesWay w m = givesWay u n)

instance (u w : SourceUnit) (n m : Node) : Decidable (AnsweredAlike u w n m) :=
  inferInstanceAs (Decidable (_ → (_ → _ → _) ∧ (_ → _ → _)))

section TopLevel

theorem topLevel_function {next : Option Node} (hb : n.info.isBuiltin = false)
    (hk : n.kind = .functionDecl) : topLevel u next n = functionDecl u n := by
  obtain ⟨info, filler, inner⟩ := n
  have hk : info.kind = .functionDecl := hk
  simp [topLevel, hk, show info.isBuiltin = false from hb]

theorem recordDecl_recount {next next' : Option Node} (tag : tagName n next' = tagName n next) :
    recordDecl next' (n.recount count) = recordDecl next n := by
  obtain ⟨info, filler, inner⟩ := n
  have tag' : tagName (⟨{ info with redeclarations := count }, filler, inner⟩ : Node) next' =
      tagName ⟨info, filler, inner⟩ next := tag
  rw [Node.recount, recordDecl, recordDecl]
  dsimp only at tag' ⊢
  rw [tag']
  rfl

theorem enumDecl_recount {next next' : Option Node} (tag : tagName n next' = tagName n next) :
    enumDecl (n.recount count) next' = enumDecl n next := by
  have tag' : tagName (n.recount count) next' = tagName n next := tag
  unfold enumDecl
  rw [tag']
  rfl

/-- All but functions and globals look at nothing but themselves, and records and enumerations at
what follows them if that names them. -/
theorem topLevel_of_other {next next' : Option Node} (hg : isGroup n.info = false)
    (tag : n.kind = .recordDecl ∨ n.kind = .enumDecl → tagName n next' = tagName n next)
    (hf : n.kind ≠ .functionDecl) (hv : n.kind ≠ .varDecl) :
    topLevel { u with root } next' (n.recount count) = topLevel u next n := by
  obtain ⟨info, filler, inner⟩ := n
  rw [Node.recount, topLevel, topLevel]
  dsimp only
  split
  · rfl
  · rename_i own
    split
    · rfl
    · exact absurd ‹_› hf
    · rename_i hk
      exact recordDecl_recount (tag (.inl hk))
    · exact absurd ‹_› hv
    · rename_i hk
      exact enumDecl_recount (tag (.inr hk))
    iterate 5 rfl
    iterate 2 simp_all [isGroup]
    · rfl

/-- A declaration is written alike in both units exactly if it is answered alike. -/
theorem topLevel_eq_iff {next next' : Option Node} (single : u.shared = false)
    (hg : isGroup n.info = false)
    (tag : n.kind = .recordDecl ∨ n.kind = .enumDecl → tagName n next' = tagName n next) :
    topLevel { u with root } next' (n.recount count) = topLevel u next n ↔
      AnsweredAlike u { u with root } n (n.recount count) := by
  cases hb : n.info.isBuiltin with
  | true =>
      have same : topLevel { u with root } next' (n.recount count) = topLevel u next n := by
        obtain ⟨info, filler, inner⟩ := n
        have hb : info.isBuiltin = true := hb
        rw [Node.recount, topLevel, topLevel, if_pos hb, if_pos hb]
      simp [AnsweredAlike, same, hb]
  | false =>
      have hb' : (n.recount count).info.isBuiltin = false := hb
      by_cases hf : n.kind = .functionDecl
      · have same : functionDecl { u with root } (n.recount count) =
          functionDecl { u with root } n := rfl
        rw [topLevel_function hb hf, topLevel_function hb' hf, same, functionDecl_eq_iff]
        simp [AnsweredAlike, hb, hf]
      · by_cases hv : n.kind = .varDecl
        · rw [topLevel_global hb hv, topLevel_global hb' hv, globalDecl_eq_iff single]
          simp [AnsweredAlike, hb, hv]
        · simp [AnsweredAlike, topLevel_of_other hg tag hf hv, hf, hv]

end TopLevel

end VFromC.Decl
