import VFromC.Proofs.Decl.RestState
import VFromC.Proofs.Output.Behind
/-!
The two ways of writing a unit: its globals stay where they are declared, or they go to a file that
all units share. Nothing else differs.
-/
namespace VFromC.Decl
open VFromC.Syntax VFromC.Output VFromC.Emit

/-- A visit with the text that is written for it when globals stay. -/
structure Piece where
  visit : Visit
  text : String

/-- The piece is a global that is written, and not one that is passed over. -/
def Piece.isGlobal (p : Piece) : Bool := p.visit.decl.kind = .varDecl && p.text ≠ ""

def fullText (pieces : List Piece) : String := String.join (pieces.map Piece.text)

/-- What is left of the text when the globals are moved away. -/
def ownText (pieces : List Piece) : String :=
  String.join ((pieces.filter fun p => !p.isGlobal).map Piece.text)

/-- The globals, each with its text. -/
def movedTexts (pieces : List Piece) : List (String × String) :=
  (pieces.filter Piece.isGlobal).map fun p => (Ident.spell p.visit.decl.name, p.text)

theorem fullText_nil : fullText [] = "" := rfl

theorem ownText_nil : ownText [] = "" := rfl

theorem movedTexts_nil : movedTexts [] = [] := rfl

theorem fullText_cons (p : Piece) (rest : List Piece) :
    fullText (p :: rest) = p.text ++ fullText rest := by
  simp only [fullText, List.map_cons, String.join_cons]

theorem ownText_cons (p : Piece) (rest : List Piece) :
    ownText (p :: rest) = ownText [p] ++ ownText rest := by
  cases h : p.isGlobal <;> simp [ownText, h]

theorem movedTexts_cons (p : Piece) (rest : List Piece) :
    movedTexts (p :: rest) = movedTexts [p] ++ movedTexts rest := by
  cases h : p.isGlobal <;> simp [movedTexts, h]

theorem ownText_singleton {p : Piece} (h : p.isGlobal = false) : ownText [p] = p.text := by
  simp [ownText, h]

theorem movedTexts_singleton {p : Piece} (h : p.isGlobal = false) : movedTexts [p] = [] := by
  simp [movedTexts, h]

/-- The unit with its globals where they are declared. -/
def single (root : Node) (source : Option String) : SourceUnit := ⟨root, source, false⟩

/-- The unit with its globals moved away. -/
def directory (root : Node) (source : Option String) : SourceUnit := ⟨root, source, true⟩

/-- Both ways of writing a visit add the same piece, which stays on the page or is moved away. -/
def AddsPiece (v : Visit) (one dir : List Command) : Prop :=
  ∀ labels journal, ∃ piece : Piece, piece.visit = v ∧ ∃ labels' journal', ∀ text place taken,
    (∃ place', (Draft.restAt text labels journal place taken).run one =
      Draft.restAt (text ++ piece.text) labels' journal' place' taken) ∧
    ∃ place', (Draft.restAt text labels journal place taken).run dir =
      Draft.restAt (text ++ ownText [piece]) labels' journal' place' (taken ++ movedTexts [piece])

theorem addsPiece_of_added {v : Visit} {commands : List Command}
    (h : ∀ labels journal, ∃ added labels' journal', (Piece.mk v added).isGlobal = false ∧
      ∀ text place taken, (Draft.restAt text labels journal place taken).run commands =
        Draft.restAt (text ++ added) labels' journal' place taken) :
    AddsPiece v commands commands := by
  intro labels journal
  obtain ⟨added, labels', journal', own, run⟩ := h labels journal
  refine ⟨⟨v, added⟩, rfl, labels', journal', fun text place taken => ⟨⟨place, ?_⟩, place, ?_⟩⟩
  · exact run text place taken
  · rw [ownText_singleton own, movedTexts_singleton own, List.append_nil]
    exact run text place taken

theorem addsPiece_of_notes {v : Visit} {commands : List Command}
    (h : ∀ c ∈ commands, ∃ e, c = .note e) : AddsPiece v commands commands := by
  refine addsPiece_of_added fun labels journal => ?_
  obtain ⟨entries, he⟩ := run_notes h
  refine ⟨"", labels, journal ++ entries, by simp [Piece.isGlobal], fun text place taken => ?_⟩
  rw [he, String.append_empty]
  rfl

theorem addsPiece_of_rests {v : Visit} {s : Script Unit} {desk : Desk}
    (hs : Rests Command.Adds s) (hk : v.decl.kind ≠ .varDecl) (hmain : desk.context.inMain = false)
    (hr : (s desk).result = .ok ()) : AddsPiece v (s desk).commands (s desk).commands := by
  refine addsPiece_of_added fun labels journal => ?_
  obtain ⟨_, adds, level⟩ := hs.1 desk hmain hr
  obtain ⟨added, labels', journal', run⟩ := restAt_run adds (level 0) (hs.2 desk hr) labels journal
  exact ⟨added, labels', journal', by simp [Piece.isGlobal, hk], run⟩

section Globals

variable {u : SourceUnit} {n : Node} {name type : String} {text : Script Unit} {desk next : Desk}
  {commands : List Command}

theorem recordGlobal_apply_error {e : Fault} (h : text desk = ⟨commands, next, .error e⟩) :
    recordGlobal u n name type text desk = ⟨.mark :: commands, next, .error e⟩ := by
  have mark : Script.command .mark desk = ⟨[.mark], desk, .ok ()⟩ := rfl
  rw [recordGlobal, Script.bind_apply_ok mark, Script.bind_apply_error h]
  rfl

theorem recordGlobal_apply_ok (h : text desk = ⟨commands, next, .ok ()⟩) :
    recordGlobal u n name type text desk =
      ⟨.mark :: (commands ++ [.line ""] ++ if u.shared then [.take name] else []),
        { next with symbols := next.symbols.addGlobal ⟨name, type, n.isExtern⟩ }, .ok ()⟩ := by
  have mark : Script.command .mark desk = ⟨[.mark], desk, .ok ()⟩ := rfl
  have line : Script.line "" next = ⟨[.line ""], next, .ok ()⟩ := rfl
  have moved : Script.when u.shared (Script.command (.take name)) next =
      ⟨if u.shared then [.take name] else [], next, .ok ()⟩ := by
    unfold Script.when
    split <;> rfl
  rw [recordGlobal, Script.bind_apply_ok mark, Script.bind_apply_ok h, Script.bind_apply_ok line,
    Script.bind_apply_ok moved]
  simp [Script.register]

theorem addsPiece_of_global {v : Visit} (hk : v.decl.kind = .varDecl)
    (hs : Rests Command.Adds text) (hmain : desk.context.inMain = false)
    (hr : (text desk).result = .ok ()) :
    AddsPiece v (.mark :: ((text desk).commands ++ [.line ""]))
      (.mark :: ((text desk).commands ++ [.line ""] ++ [.take (Ident.spell v.decl.name)])) := by
  intro labels journal
  obtain ⟨_, adds, level⟩ := hs.1 desk hmain hr
  obtain ⟨added, labels', journal', run⟩ := restAt_run adds (level 0) (hs.2 desk hr) labels journal
  have isGlobal : (Piece.mk v (added ++ "\n")).isGlobal = true := by
    simp [Piece.isGlobal, hk]
  refine ⟨⟨v, added ++ "\n"⟩, rfl, labels', journal', fun before place taken =>
    ⟨⟨_, restAt_run_marked run before place taken⟩, before.utf8ByteSize, ?_⟩⟩
  rw [restAt_run_taken run]
  simp [ownText, movedTexts, isGlobal]

end Globals

section Visits

variable {root : Node} {source : Option String}

/-- A declaration without storage has no later one. -/
def LastOfItsName (v : Visit) : Prop :=
  v.decl.kind = .varDecl → v.decl.isExtern = true → v.decl.info.redeclarations = 0

theorem givesWay_directory {v : Visit} (h : LastOfItsName v) (hk : v.decl.kind = .varDecl) :
    givesWay (single root source) v.decl = givesWay (directory root source) v.decl := by
  cases he : v.decl.isExtern with
  | false => simp [givesWay, he]
  | true => simp [givesWay, he, h hk he, single, directory, isInitializedElsewhere]

theorem topLevel_directory {next : Option Node} {n : Node} (hg : isGroup n.info = false)
    (hk : n.kind ≠ .varDecl) :
    topLevel (single root source) next n = topLevel (directory root source) next n := by
  obtain ⟨info, filler, inner⟩ := n
  rw [topLevel, topLevel]
  split
  · rfl
  · split
    iterate 3 rfl
    · exact absurd ‹info.kind = .varDecl› hk
    iterate 6 rfl
    · simp_all [isGroup]
    · simp_all [isGroup]
    · rfl

/-- Two outcomes that differ at most in their commands. -/
structure SameOutcome (w₁ w₂ : Written Unit) : Prop where
  result : w₁.result = w₂.result
  desk : w₁.desk = w₂.desk

theorem global_step {v : Visit} (hv : LastOfItsName v) (hb : v.decl.info.isBuiltin = false)
    (hk : v.decl.kind = .varDecl) {desk : Desk} (hmain : desk.context.inMain = false) :
    SameOutcome (v.script (single root source) desk) (v.script (directory root source) desk) ∧
      ((v.script (single root source) desk).result = .ok () →
        AddsPiece v (v.script (single root source) desk).commands
          (v.script (directory root source) desk).commands) := by
  have judged (u : SourceUnit) : v.script u desk = judgedGlobal u v.decl desk.symbols desk := by
    rw [Visit.script, topLevel_global hb hk]
    rfl
  rw [judged, judged]
  have sources : (single root source).source = (directory root source).source := rfl
  have pair := judgedGlobal_pair sources (givesWay_directory hv hk) desk.symbols
  generalize judgedGlobal (single root source) v.decl desk.symbols = s₁ at pair
  generalize judgedGlobal (directory root source) v.decl desk.symbols = s₂ at pair
  cases pair with
  | silent h => exact ⟨⟨rfl, rfl⟩, fun _ => addsPiece_of_notes (h desk).2⟩
  | @written type text h =>
      rcases ht : text desk with ⟨commands, next, e | ⟨⟩⟩
      · rw [recordGlobal_apply_error ht, recordGlobal_apply_error ht]
        exact ⟨⟨rfl, rfl⟩, nofun⟩
      · rw [recordGlobal_apply_ok ht, recordGlobal_apply_ok ht]
        refine ⟨⟨rfl, rfl⟩, fun _ => ?_⟩
        have piece := addsPiece_of_global hk h hmain (by rw [ht])
        rw [ht] at piece
        simpa only [single, directory, Bool.false_eq_true, if_false, if_true, List.append_nil]
          using piece

theorem visit_step (root : Node) (source : Option String) {v : Visit}
    (hg : isGroup v.decl.info = false) (hv : LastOfItsName v)
    {desk : Desk} (hmain : desk.context.inMain = false) :
    SameOutcome (v.script (single root source) desk) (v.script (directory root source) desk) ∧
      ((v.script (single root source) desk).result = .ok () →
        AddsPiece v (v.script (single root source) desk).commands
          (v.script (directory root source) desk).commands) := by
  rcases hb : v.decl.info.isBuiltin with _ | _
  · by_cases hk : v.decl.kind = .varDecl
    · exact global_step hv hb hk hmain
    · have same : v.script (single root source) = v.script (directory root source) :=
        topLevel_directory hg hk
      rw [← same]
      exact ⟨⟨rfl, rfl⟩, addsPiece_of_rests (topLevel_rests_adds hg hk) hk hmain⟩
  · obtain ⟨text, ht⟩ := topLevel_of_isBuiltin v.next hb
    rw [Visit.script, Visit.script, ht, ht]
    exact ⟨⟨rfl, rfl⟩, fun _ => addsPiece_of_notes (silent_note text desk).2⟩

/-- The outcomes of one visit in the two modes. -/
inductive VisitStep (v : Visit) : Written Unit → Written Unit → Prop
  | failed (one dir : List Command) (next : Desk) (e : Fault) :
      VisitStep v ⟨one, next, .error e⟩ ⟨dir, next, .error e⟩
  | done (one dir : List Command) (next : Desk) (outside : next.context.inMain = false)
      (adds : AddsPiece v one dir) : VisitStep v ⟨one, next, .ok ()⟩ ⟨dir, next, .ok ()⟩

theorem visit_cases (root : Node) (source : Option String) {v : Visit}
    (hg : isGroup v.decl.info = false) (hv : LastOfItsName v)
    {desk : Desk} (hmain : desk.context.inMain = false) :
    VisitStep v (v.script (single root source) desk) (v.script (directory root source) desk) := by
  obtain ⟨⟨result, same⟩, adds⟩ := visit_step root source hg hv hmain
  have rests : Rests (fun _ => True) (v.script (single root source)) := topLevel_rests hg
  have stays := rests.1 desk hmain
  generalize v.script (single root source) desk = one at *
  generalize v.script (directory root source) desk = dir at *
  obtain ⟨commands₁, next₁, result₁⟩ := one
  obtain ⟨commands₂, next₂, result₂⟩ := dir
  cases result
  cases same
  cases result₁ with
  | error e => exact .failed commands₁ commands₂ next₁ e
  | ok =>
      have outside : next₁.context.inMain = false := by
        rw [(stays rfl).1, hmain]
      exact .done commands₁ commands₂ next₁ outside (adds rfl)

theorem walks_same {vs : List Visit}
    (hvs : ∀ v ∈ vs, isGroup v.decl.info = false ∧ LastOfItsName v) {desk : Desk}
    (hmain : desk.context.inMain = false) :
    SameOutcome (Script.each (Visit.script (single root source)) vs desk)
      (Script.each (Visit.script (directory root source)) vs desk) := by
  induction vs generalizing desk with
  | nil => exact ⟨rfl, rfl⟩
  | cons v rest ih =>
      obtain ⟨⟨hg, hv⟩, hrest⟩ := List.forall_mem_cons.mp hvs
      have step := visit_cases root source hg hv hmain
      generalize h₁ : v.script (single root source) desk = one at step
      generalize h₂ : v.script (directory root source) desk = dir at step
      rw [Script.each, Script.each]
      cases step with
      | failed =>
          -- Both walks stop here, with the same fault.
          rw [Script.bind_apply_error h₁, Script.bind_apply_error h₂]
          exact ⟨rfl, rfl⟩
      | done _ _ next outside =>
          rw [Script.bind_apply_ok h₁, Script.bind_apply_ok h₂]
          obtain ⟨result, same⟩ := ih hrest outside
          exact ⟨result, same⟩

theorem walks_add_pieces {vs : List Visit}
    (hvs : ∀ v ∈ vs, isGroup v.decl.info = false ∧ LastOfItsName v) {desk : Desk}
    (hmain : desk.context.inMain = false)
    (hr : (Script.each (Visit.script (single root source)) vs desk).result = .ok ())
    (labels : Labels) (journal : Journal) :
    ∃ pieces : List Piece, pieces.map Piece.visit = vs ∧
      ∀ k, ∃ labels' journal', ∀ text place taken,
        (∃ place', (Draft.restAt text labels journal place taken).run
            (Script.each (Visit.script (single root source)) (vs.take k) desk).commands =
          Draft.restAt (text ++ fullText (pieces.take k)) labels' journal' place' taken) ∧
        ∃ place', (Draft.restAt text labels journal place taken).run
            (Script.each (Visit.script (directory root source)) (vs.take k) desk).commands =
          Draft.restAt (text ++ ownText (pieces.take k)) labels' journal' place'
            (taken ++ movedTexts (pieces.take k)) := by
  induction vs generalizing desk labels journal with
  | nil =>
      refine ⟨[], rfl, fun k => ⟨labels, journal, fun text place taken => ?_⟩⟩
      rw [List.take_nil, List.take_nil, fullText_nil, ownText_nil, movedTexts_nil,
        String.append_empty, List.append_nil]
      exact ⟨⟨place, rfl⟩, place, rfl⟩
  | cons v rest ih =>
      obtain ⟨⟨hg, hv⟩, hrest⟩ := List.forall_mem_cons.mp hvs
      have step := visit_cases root source hg hv hmain
      generalize h₁ : v.script (single root source) desk = one at step
      generalize h₂ : v.script (directory root source) desk = dir at step
      rw [Script.each] at hr
      cases step with
      | failed =>
          rw [Script.bind_apply_error h₁] at hr
          cases hr
      | done one dir next outside adds =>
          rw [Script.bind_apply_ok h₁] at hr
          -- The piece must not depend on the text in front, so labels and journal come first.
          obtain ⟨piece, rfl, labels₁, journal₁, first⟩ := adds labels journal
          obtain ⟨pieces, hp, later⟩ := ih hrest outside hr labels₁ journal₁
          refine ⟨piece :: pieces, by rw [List.map_cons, hp], fun k => ?_⟩
          cases k with
          | zero =>
              refine ⟨labels, journal, fun text place taken => ?_⟩
              rw [List.take_zero, List.take_zero, fullText_nil, ownText_nil, movedTexts_nil,
                String.append_empty, List.append_nil]
              exact ⟨⟨place, rfl⟩, place, rfl⟩
          | succ k =>
              obtain ⟨labels', journal', runs⟩ := later k
              refine ⟨labels', journal', fun text place taken => ?_⟩
              obtain ⟨⟨place₁, run₁⟩, place₂, run₂⟩ := first text place taken
              rw [List.take_succ_cons, List.take_succ_cons, Script.each, Script.each,
                Script.bind_apply_ok h₁, Script.bind_apply_ok h₂, Draft.run_append,
                Draft.run_append, run₁, run₂, fullText_cons, ownText_cons piece (pieces.take k),
                movedTexts_cons piece (pieces.take k), ← String.append_assoc,
                ← String.append_assoc, ← List.append_assoc]
              exact ⟨(runs _ place₁ taken).1, (runs _ place₂ _).2⟩

variable {symbols : Symbols}

theorem units_same (source : Option String) (symbols : Symbols)
    (storage : ∀ v ∈ visits root.inner, LastOfItsName v) :
    SameOutcome (writeUnit (single root source) { symbols })
      (writeUnit (directory root source) { symbols }) := by
  rw [writeUnit_eq_firstVisits, writeUnit_eq_firstVisits, firstVisits, firstVisits,
    List.take_length, List.take_length]
  exact walks_same (fun v hv => ⟨not_isGroup_of_mem_visits _ hv, storage v hv⟩) rfl

/-- When a unit is written, its drafts are at rest after each visit, with the pieces so far. -/
theorem unit_pieces (storage : ∀ v ∈ visits root.inner, LastOfItsName v)
    (hr : (writeUnit (single root source) { symbols }).result = .ok ()) (labels : Labels) :
    ∃ pieces : List Piece, pieces.map Piece.visit = visits root.inner ∧
      ∀ k, ∃ labels' journal' place₁ place₂,
        ({ labels } : Draft).run (firstVisits (single root source) symbols k).commands =
          Draft.restAt (fullText (pieces.take k)) labels' journal' place₁ [] ∧
        ({ labels } : Draft).run (firstVisits (directory root source) symbols k).commands =
          Draft.restAt (ownText (pieces.take k)) labels' journal' place₂
            (movedTexts (pieces.take k)) := by
  rw [writeUnit_eq_firstVisits, firstVisits, List.take_length] at hr
  obtain ⟨pieces, hp, runs⟩ := walks_add_pieces
    (fun v hv => ⟨not_isGroup_of_mem_visits _ hv, storage v hv⟩) rfl hr labels []
  refine ⟨pieces, hp, fun k => ?_⟩
  obtain ⟨labels', journal', run⟩ := runs k
  obtain ⟨⟨place₁, run₁⟩, place₂, run₂⟩ := run "" 0 []
  rw [String.empty_append] at run₁ run₂
  exact ⟨labels', journal', place₁, place₂, run₁, run₂⟩

end Visits

theorem addTexts_apart (symbols : Symbols) (texts : List (String × String)) :
    { symbols.addTexts texts with globalTexts := [] } = { symbols with globalTexts := [] } := by
  induction texts generalizing symbols with
  | nil => rfl
  | cons entry rest ih => exact ih (symbols.setGlobalText entry.1 entry.2)

/-- Whether the globals of a unit stay or are moved away changes neither its outcome nor the
symbols apart from the texts of globals. The text with the globals in place is made of one piece
for each visit, in order; moving the globals away leaves the other pieces, and the texts that are
moved are the pieces of the globals. -/
theorem modes_differ_by_globals (root : Node) (source : Option String) (symbols : Symbols)
    (labels : Labels) (storage : ∀ v ∈ visits root.inner, LastOfItsName v) :
    let one := (single root source).compose symbols labels
    let dir := (directory root source).compose symbols labels
    one.result = dir.result ∧
    { one.symbols with globalTexts := [] } = { dir.symbols with globalTexts := [] } ∧
    (one.result = .ok () → ∃ pieces : List Piece,
      pieces.map Piece.visit = visits root.inner ∧
      (∀ k, (({ labels } : Draft).run
        (firstVisits (single root source) symbols k).commands).page.finish =
          fullText (pieces.take k)) ∧
      one.draft.page.finish = fullText pieces ∧
      one.draft.taken = [] ∧
      dir.draft.page.finish = ownText pieces ∧
      dir.draft.taken = movedTexts pieces ∧
      dir.symbols = one.symbols.addTexts (movedTexts pieces) ∧
      dir.draft.labels = one.draft.labels) := by
  intro one dir
  obtain ⟨result, desk⟩ := units_same source symbols storage
  refine ⟨result, ?_, fun hr => ?_⟩
  · change { Symbols.addTexts _ _ with globalTexts := [] } =
      { Symbols.addTexts _ _ with globalTexts := [] }
    rw [addTexts_apart, addTexts_apart, desk]
  · obtain ⟨pieces, hp, runs⟩ := unit_pieces storage hr labels
    have draft (u : SourceUnit) : (u.compose symbols labels).draft =
        ({ labels } : Draft).run (firstVisits u symbols (visits u.root.inner).length).commands := by
      rw [← writeUnit_eq_firstVisits]
      rfl
    have all : pieces.take (visits root.inner).length = pieces := by
      rw [← hp, List.length_map, List.take_length]
    obtain ⟨labels', journal', place₁, place₂, run₁, run₂⟩ := runs (visits root.inner).length
    rw [all] at run₁ run₂
    have hone : one.draft = Draft.restAt (fullText pieces) labels' journal' place₁ [] :=
      (draft (single root source)).trans run₁
    have hdir : dir.draft =
        Draft.restAt (ownText pieces) labels' journal' place₂ (movedTexts pieces) :=
      (draft (directory root source)).trans run₂
    refine ⟨pieces, hp, fun k => ?_, ?_, ?_, ?_, ?_, ?_, ?_⟩
    · obtain ⟨_, _, _, _, run, _⟩ := runs k
      rw [run, restAt_finish]
    · rw [hone, restAt_finish]
    · rw [hone]; rfl
    · rw [hdir, restAt_finish]
    · rw [hdir]; rfl
    · change Symbols.addTexts _ dir.draft.taken =
        Symbols.addTexts (Symbols.addTexts _ one.draft.taken) _
      rw [hone, hdir, desk]
      rfl
    · rw [hone, hdir]; rfl

/-- A unit with a global in a group, a function, and a global that has a value. -/
def countingUnit : Node :=
  let one : Node := ⟨{ kind := .integerLiteral, value := some (.text "1") }, [], []⟩
  let int : TypeText := { spelling := "int" }
  let limit : Node :=
    ⟨{ kind := .varDecl, name := "limit", storageClass := "extern", type := int }, [], []⟩
  let hits : Node := ⟨{ kind := .varDecl, name := "hits", type := int }, [], [one]⟩
  let group : Node := ⟨{ kind := .linkageSpecDecl }, [], [limit]⟩
  let count : Node :=
    ⟨{ kind := .functionDecl, name := "count" }, [], [⟨{ kind := .compoundStmt }, [], []⟩]⟩
  ⟨{}, [], [group, count, hits]⟩

theorem countingUnit_modes :
    (∀ v ∈ visits countingUnit.inner, LastOfItsName v) ∧
    ((single countingUnit none).compose {} {}).result = .ok () ∧
    ∃ pieces : List Piece, pieces.map Piece.visit = visits countingUnit.inner ∧
      ((single countingUnit none).compose {} {}).draft.page.finish = fullText pieces ∧
      ((directory countingUnit none).compose {} {}).draft.page.finish = ownText pieces ∧
      ((directory countingUnit none).compose {} {}).draft.taken = movedTexts pieces := by
  have storage : ∀ v ∈ visits countingUnit.inner, LastOfItsName v := by
    simp [countingUnit, visits, visit, isGroup, LastOfItsName]
  have walked : ((single countingUnit none).compose {} {}).result = .ok () := rfl
  obtain ⟨_, _, rest⟩ := modes_differ_by_globals countingUnit none {} {} storage
  obtain ⟨pieces, hp, _, hone, _, hdir, htaken, _⟩ := rest walked
  exact ⟨storage, walked, pieces, hp, hone, hdir, htaken⟩

end VFromC.Decl
