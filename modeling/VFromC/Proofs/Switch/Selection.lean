import Mathlib.Data.List.Basic
import VFromC.Proofs.Switch.Text
/-!
Which arm a value selects.

A switch is entered at the place whose labels cover the value, or else at the default. A case covers
one value, or all values from a lower to an upper bound. The match lists the first operand of each
case, and the values of no other arm come to the last one.
-/
namespace VFromC.Emit
open VFromC.Syntax VFromC.Output

section Places

variable (value : Node → Int) (v : Int)

/-- The values that a case stands for, when its operands have given values. -/
def caseBounds? (label : Node) : Option (Int × Int) :=
  if label.kind = .caseStmt then
    match label.inner with
    | [operand, _] => some (value operand, value operand)
    | [lower, upper, _] => some (value lower, value upper)
    | _ => none
  else none

/-- The labels at a place of entry. -/
def labelsAt : List Node → List Node
  | [] => []
  | label :: _ => chain label

/-- The first operands of the cases at a place. -/
def operandsAt (place : List Node) : List Node := (labelsAt place).filterMap caseLabel?

def covers (place : List Node) : Bool :=
  (labelsAt place).any fun label =>
    (caseBounds? value label).any fun bounds => bounds.1 ≤ v && v ≤ bounds.2

/-- Some case at the place has the value as its first operand. -/
def lists (place : List Node) : Bool := (operandsAt place).any fun operand => value operand = v

def isDefaultAt (place : List Node) : Bool := (labelsAt place).any (·.kind = .defaultStmt)

/-- Where a switch is entered for a value. -/
def enteredPlace (places : List (List Node)) : Option (List Node) :=
  (places.find? (covers value v)).or (places.find? isDefaultAt)

/-- The place whose arm the match has for a value. Labels beside a default are not written. -/
def writtenPlace (places : List (List Node)) : Option (List Node) :=
  (places.find? fun place => !isDefaultAt place && lists value v place).or
    (places.find? isDefaultAt)

end Places

/-- What C asks of the labels of a switch: there is at most one default, and no value is covered at
two places. -/
structure LabelsApart (value : Node → Int) (places : List (List Node)) : Prop where
  once : places.Pairwise fun p q => ¬(isDefaultAt p = true ∧ isDefaultAt q = true)
  apart (v : Int) : places.Pairwise fun p q => ¬(covers value v p = true ∧ covers value v q = true)

/-- The arm that is entered at a place, with all that it runs through. -/
def armAt (place : List Node) : Arm :=
  chainArm (labelsAt place) (bodyFrom ((entries place).map entryArm))

/-- The statements that are written for a place, or none. -/
def placeText (desk : Desk) : Option (List Node) → List Command
  | some place => bodyText desk (armAt place)
  | none => []

/-- The enumeration that a switch is written for, if there is one. -/
def switchOwner (symbols : Symbols) (cond body : Node) : Option String :=
  switchEnum? symbols cond ((entries (spliced body)).map armAt)

/-- What the commands write on an empty page. -/
def writtenText (commands : List Command) : String :=
  (Draft.run {} commands).page.done ++ (Draft.run {} commands).page.pending

/-- The statements of the arm with a label whose text reads as the value, or else those of the last
arm. -/
def MatchText.chosen (m : MatchText) (reads : String → Option Int) (v : Int) : List Command :=
  match m.arms.find? fun arm => arm.1.any fun label => reads (writtenText label) = some v with
  | some arm => arm.2
  | none => m.otherwise.getD []

theorem runOn_entries (children : List Node) :
    runOn ((entries children).map entryArm) = (entries children).map armAt := by
  induction children with
  | nil => rfl
  | cons child rest ih =>
      rw [entries]
      split
      · rename_i label
        rw [List.map_cons, List.map_cons, runOn_cons, ih]
        congr 1
        simp only [armAt, entryArm, chainArm, labelsAt]
        rw [entries, if_pos label]
        rfl
      · exact ih

theorem find?_of_pairwise {α : Type} {p : α → Bool} {l : List α} {a : α}
    (h : l.Pairwise fun x y => ¬(p x = true ∧ p y = true)) (ha : a ∈ l) (hp : p a = true) :
    l.find? p = some a := by
  induction l with
  | nil => cases ha
  | cons x l ih =>
      obtain ⟨first, rest⟩ := List.pairwise_cons.mp h
      rcases List.mem_cons.mp ha with rfl | ha
      · exact List.find?_cons_of_pos hp
      · have skipped : ¬p x = true := fun hx => first a ha ⟨hx, hp⟩
        rw [List.find?_cons_of_neg skipped]
        exact ih rest ha

theorem find?_congr_mem {α : Type} {p q : α → Bool} {l : List α} (h : ∀ a ∈ l, p a = q a) :
    l.find? p = l.find? q := by
  induction l with
  | nil => rfl
  | cons a l ih =>
      rw [List.find?_cons, List.find?_cons, h a List.mem_cons_self,
        ih fun b hb => h b (List.mem_cons_of_mem a hb)]

section Chosen

variable {value : Node → Int} {reads : String → Option Int} {v : Int} {desk : Desk}
  {places : List (List Node)}

theorem chosen_matchText (owner : Option String) (cond : Node)
    (means : ∀ place ∈ places, isDefaultAt place = false → ∀ operand ∈ operandsAt place,
      reads (writtenText (exprText desk operand)) = some (value operand)) :
    (matchText desk owner cond (places.map armAt)).chosen reads v =
      placeText desk (writtenPlace value v places) := by
  have listed : ∀ place ∈ places,
      decide ((!(armAt place).isDefault) = true ∧ (((armAt place).labels.map (exprText desk)).any
        fun label => reads (writtenText label) = some v) = true) =
      (!isDefaultAt place && lists value v place) := by
    intro place hp
    have default : (armAt place).isDefault = isDefaultAt place := rfl
    rw [default]
    cases plain : isDefaultAt place with
    | true => rfl
    | false =>
        have same : (((armAt place).labels.map (exprText desk)).any fun label =>
            reads (writtenText label) = some v) = lists value v place := by
          rw [List.any_map, Bool.eq_iff_iff, List.any_eq_true, lists, List.any_eq_true]
          refine exists_congr fun operand => and_congr_right fun ho => ?_
          simp [means place hp plain operand ho]
        rw [same]
        simp
  have first := find?_congr_mem listed
  simp only [MatchText.chosen, matchText, writtenPlace, List.filter_map, List.map_map,
    List.find?_map, List.find?_filter, Function.comp_def]
  rw [first]
  cases places.find? fun place => !isDefaultAt place && lists value v place with
  | some place => rfl
  | none =>
      have default : (places.find? fun place => (armAt place).isDefault) =
          places.find? isDefaultAt := rfl
      rw [default]
      cases places.find? isDefaultAt <;> rfl

/-- Where every case that is listed also covers its first operand, the arm that is written for a
value has the text of the one that is entered, exactly if this is so for a value that is covered and
not listed, which comes to the last arm. -/
theorem placeText_written_eq_iff (apart : LabelsApart value places)
    (full : ∀ place ∈ places, isDefaultAt place = false → lists value v place = true →
      covers value v place = true) :
    placeText desk (writtenPlace value v places) = placeText desk (enteredPlace value v places) ↔
      ∀ place ∈ places, isDefaultAt place = false → covers value v place = true →
        lists value v place = false →
        placeText desk (some place) = placeText desk (places.find? isDefaultAt) := by
  have covering {place : List Node} (hp : place ∈ places) (hc : covers value v place = true) :
      places.find? (covers value v) = some place := find?_of_pairwise (apart.apart v) hp hc
  unfold writtenPlace enteredPlace
  cases hw : places.find? fun place => !isDefaultAt place && lists value v place with
  | some place =>
      have hp := List.mem_of_find?_eq_some hw
      have both := List.find?_some hw
      obtain ⟨plain, listed⟩ : isDefaultAt place = false ∧ lists value v place = true := by
        simpa using both
      have found := covering hp (full place hp plain listed)
      rw [found]
      refine ⟨fun _ other ho _ hc unlisted => ?_, fun _ => rfl⟩
      cases found.symm.trans (covering ho hc)
      rw [listed] at unlisted
      cases unlisted
  | none =>
      have unlisted {place : List Node} (hp : place ∈ places) (plain : isDefaultAt place = false) :
          lists value v place = false := by
        have := List.find?_eq_none.mp hw place hp
        simpa [plain] using this
      cases hc : places.find? (covers value v) with
      | none =>
          refine ⟨fun _ place hp _ covered _ => ?_, fun _ => rfl⟩
          cases hc.symm.trans (covering hp covered)
      | some place =>
          have hp := List.mem_of_find?_eq_some hc
          have only {other : List Node} (ho : other ∈ places)
              (covered : covers value v other = true) : other = place :=
            Option.some.inj ((covering ho covered).symm.trans hc)
          cases plain : isDefaultAt place with
          | true =>
              have found := find?_of_pairwise apart.once hp plain
              refine ⟨fun _ other ho other_plain covered _ => ?_, fun _ => by rw [found]; rfl⟩
              rw [only ho covered, plain] at other_plain
              cases other_plain
          | false =>
              constructor
              · intro same other ho _ covered _
                rw [only ho covered]
                exact same.symm
              · intro same
                exact (same place hp plain (List.find?_some hc) (unlisted hp plain)).symm

end Chosen

theorem covers_eq_lists {value : Node → Int} {v : Int} {place : List Node}
    (single : ∀ label ∈ labelsAt place, label.kind = .caseStmt → label.inner.length = 2) :
    covers value v place = lists value v place := by
  rw [Bool.eq_iff_iff, covers, lists, operandsAt, List.any_eq_true, List.any_eq_true]
  simp only [List.mem_filterMap, ← exists_and_right, and_assoc]
  rw [exists_comm]
  refine exists_congr fun label => ?_
  simp only [exists_and_left]
  refine and_congr_right fun hl => ?_
  by_cases hk : label.kind = .caseStmt
  · obtain ⟨operand, stmt, hi⟩ := List.length_eq_two.mp (single label hl hk)
    simp [caseBounds?, caseLabel?, Node.firstChild?, hk, hi, Int.le_antisymm_iff]
  · simp [caseBounds?, caseLabel?, hk]

/-- Labels are read from the texts that they have in this switch, so members of different values
that are spelled alike have no reading. If no case apart from those beside a default is a range, the
match chooses the arm of the place that C enters, for every value. In general it lists the lower
bound of a range only. For a value that is not the lower bound of an empty range, the right arm is
chosen exactly if a place that covers the value without listing it has the text of the last arm. -/
theorem match_chooses_entered_iff {n cond body : Node} {desk : Desk} {value : Node → Int}
    {reads : String → Option Int} (hk : n.kind = .switchStmt) (hc : n.inner[0]? = some cond)
    (hb : (n.inner.drop 1).getLast? = some body) (ok : (emitStmt n desk).result = .ok ())
    (means : ∀ place ∈ entries (spliced body), isDefaultAt place = false →
      ∀ operand ∈ operandsAt place,
        reads (writtenText
          (exprText (insideSwitch desk (switchOwner desk.symbols cond body)) operand)) =
        some (value operand))
    (apart : LabelsApart value (entries (spliced body))) :
    let places := entries (spliced body)
    let owner := switchOwner desk.symbols cond body
    let inside := insideSwitch desk owner
    let written := matchText inside owner cond (places.map armAt)
    (emitStmt n desk).commands = switchText desk cond (places.map armAt) ∧
      ((∀ place ∈ places, isDefaultAt place = false → ∀ label ∈ labelsAt place,
          label.kind = .caseStmt → label.inner.length = 2) →
        ∀ v, written.chosen reads v = placeText inside (enteredPlace value v places)) ∧
      ∀ v, written.chosen reads v = placeText inside (writtenPlace value v places) ∧
        ((∀ place ∈ places, isDefaultAt place = false → lists value v place = true →
            covers value v place = true) →
          (written.chosen reads v = placeText inside (enteredPlace value v places) ↔
            ∀ place ∈ places, isDefaultAt place = false → covers value v place = true →
              lists value v place = false →
              placeText inside (some place) = placeText inside (places.find? isDefaultAt))) := by
  intro places owner inside written
  have arms : collectArms body = .ok (places.map armAt) := by
    obtain ⟨_, _, raw, -, hb', hs, -⟩ := emitStmt_switch hk ok
    cases hb.symm.trans hb'
    change (splitArms [] (spliced body)).map runOn = _
    rw [hs, splitArms_ok hs, ← runOn_entries]
    rfl
  obtain ⟨_, hc', text⟩ := commands_switch hk hb arms ok
  cases hc.symm.trans hc'
  have chosen (v : Int) :
      written.chosen reads v = placeText inside (writtenPlace value v places) :=
    chosen_matchText owner cond means
  refine ⟨text, fun single v => ?_, fun v => ⟨chosen v, fun full => ?_⟩⟩
  · have same (place : List Node) (hp : place ∈ places) (plain : isDefaultAt place = false) :
        covers value v place = lists value v place := covers_eq_lists (single place hp plain)
    rw [chosen v]
    refine (placeText_written_eq_iff apart ?_).mpr ?_
    · exact fun place hp plain listed => (same place hp plain).trans listed
    · intro place hp plain covered unlisted
      rw [same place hp plain, unlisted] at covered
      cases covered
  · rw [chosen v]
    exact placeText_written_eq_iff apart full

theorem writtenText_integer {n : Node} (hk : n.kind = .integerLiteral) (desk : Desk) :
    writtenText (exprText desk n) = integerText desk.context n := by
  have kept : (Surroundings.expression n.kind).enter desk.context = desk.context := by
    simp [Surroundings.expression, hk, passesReturned]
  have body : expressionBody whole n = (do integer n; pure (literalIsBool n)) := by
    simp only [expressionBody, hk]
  have text : exprText desk n = [.write (integerText desk.context n)] := by
    rw [exprText, emitExpr_eq, expression, body, Script.within, kept]
    rfl
  simp [text, writtenText, Draft.run, Draft.apply, Page.write]

/-- A switch body with a range, and with a case beside the default. -/
def rangedBody : Node :=
  let number (text : String) : Node :=
    ⟨{ kind := .integerLiteral, value := some (.text text) }, [], []⟩
  ⟨{ kind := .compoundStmt }, [],
    [⟨{ kind := .caseStmt }, [], [number "1", number "3", number "10"]⟩,
      ⟨{ kind := .breakStmt }, [], []⟩,
      ⟨{ kind := .caseStmt }, [],
        [number "5", ⟨{ kind := .defaultStmt }, [], [number "20"]⟩]⟩]⟩

/-- The number that the text of an operand of `rangedBody` reads as. -/
def rangedNumber (text : String) : Int := if text = "1" then 1 else if text = "3" then 3 else 5

/-- The range is entered for two values that come to the arm of the default. -/
theorem rangedBody_misses :
    let cond : Node := ⟨{ kind := .integerLiteral, value := some (.text "0") }, [], []⟩
    let switch : Node := ⟨{ kind := .switchStmt }, [], [cond, rangedBody]⟩
    let value (n : Node) : Int := rangedNumber n.valueText
    let places := entries (spliced rangedBody)
    let inside := insideSwitch {} none
    (emitStmt switch {}).result = .ok () ∧ LabelsApart value places ∧
      ∀ v, (matchText inside none cond (places.map armAt)).chosen (some ∘ rangedNumber) v =
          placeText inside (enteredPlace value v places) ↔ ¬(1 < v ∧ v ≤ 3) := by
  intro cond switch value places inside
  have ok : (emitStmt switch {}).result = .ok () := ok_of_isOk (by decide +kernel)
  obtain ⟨range, last, hp, plain, listed, covered, default, covered', texts⟩ :
      ∃ range last, places = [range, last] ∧ isDefaultAt range = false ∧
      (∀ v, lists value v range = decide (1 = v)) ∧
      (∀ v, covers value v range = (decide (1 ≤ v) && decide (v ≤ 3))) ∧ isDefaultAt last = true ∧
      (∀ v, covers value v last = (decide (5 ≤ v) && decide (v ≤ 5))) ∧
      placeText inside (some range) ≠ placeText inside (some last) := by
    refine ⟨_, _, rfl, rfl, fun v => Bool.or_false _, fun v => Bool.or_false _, rfl,
      fun v => Bool.or_false _, ?_⟩
    change [Command.write "10", .endLine] ≠ [Command.write "20", .endLine]
    decide
  have apart : LabelsApart value places := by
    constructor
    · simp [hp, plain]
    · intro v
      simp only [hp, List.pairwise_pair, covered, covered', Bool.and_eq_true, decide_eq_true_eq]
      omega
  have numbers : places.all (fun place => (operandsAt place).all (·.kind = .integerLiteral)) :=
    rfl
  have owner : switchOwner ({} : Desk).symbols cond rangedBody = none := rfl
  have means : ∀ place ∈ places, isDefaultAt place = false → ∀ operand ∈ operandsAt place,
      (some ∘ rangedNumber) (writtenText
        (exprText (insideSwitch {} (switchOwner ({} : Desk).symbols cond rangedBody)) operand)) =
      some (value operand) := by
    intro place hplace _ operand ho
    have number := List.all_eq_true.mp (List.all_eq_true.mp numbers place hplace) operand ho
    rw [writtenText_integer (of_decide_eq_true number)]
    rfl
  obtain ⟨-, -, law⟩ := match_chooses_entered_iff rfl rfl rfl ok means apart
  rw [owner] at law
  refine ⟨ok, apart, fun v => ?_⟩
  have differ : placeText (insideSwitch {} none) (some range) ≠
      placeText (insideSwitch {} none) ((entries (spliced rangedBody)).find? isDefaultAt) := by
    have only : places.find? isDefaultAt = some last := by simp [hp, plain, default]
    rw [only]
    exact texts
  have both {P : List Node → Prop} : (∀ place ∈ places, P place) ↔ P range ∧ P last := by simp [hp]
  refine ((law v).2 (both.mpr ⟨fun _ hl => ?_, fun no => ?_⟩)).trans (both.trans ?_)
  · rw [listed, decide_eq_true_eq] at hl
    rw [covered, ← hl]
    rfl
  · rw [default] at no
    cases no
  · have missed : ¬(1 < v ∧ v ≤ 3) ↔ (1 ≤ v ∧ v ≤ 3 → 1 = v) := by omega
    simp [plain, default, listed, covered, differ, missed]

end VFromC.Emit
