import VFromC.Proofs.Switch.Split
/-!
The text of a match, arm by arm.

The arms for labels come first, in their order and each with the texts of its labels and statements.
The last arm is for all other values. Every statement leaves the desk as it was, so that all of them
are written at the same desk.
-/
namespace VFromC.Emit
open VFromC.Syntax VFromC.Output

section Gives

variable {α β : Type} {s : Script α} {desk : Desk} {commands more : List Command}

/-- If the script succeeds at the desk, it gives the commands and leaves the desk as it was. -/
def Gives (s : Script α) (desk : Desk) (commands : List Command) : Prop :=
  ∀ a, (s desk).result = .ok a → (s desk).desk = desk ∧ (s desk).commands = commands

theorem Kept.gives (h : Kept s) (desk : Desk) : Gives s desk (s desk).commands :=
  fun _ _ => ⟨(h desk).1, rfl⟩

theorem gives_command (c : Command) (desk : Desk) : Gives (Script.command c) desk [c] :=
  fun _ _ => ⟨rfl, rfl⟩

theorem Gives.of_eq (h : Gives s desk commands) (same : commands = more) : Gives s desk more :=
  same ▸ h

theorem Gives.bind {f : α → Script β} (hs : Gives s desk commands)
    (hf : ∀ a, Gives (f a) desk more) : Gives (s >>= f) desk (commands ++ more) := by
  intro b ok
  rcases h : s desk with ⟨first, next, e | a⟩
  · rw [Script.bind_apply_error h] at ok
    cases ok
  · obtain ⟨same, rfl⟩ := hs a (by rw [h])
    rw [h] at same
    cases same
    rw [Script.bind_apply_ok h] at ok ⊢
    obtain ⟨same, rfl⟩ := hf a b ok
    rw [h]
    exact ⟨same, rfl⟩

theorem Gives.indented {s : Script Unit} (h : Gives s desk commands) :
    Gives (Script.indented s) desk (.deeper :: (commands ++ [.shallower])) :=
  (gives_command .deeper desk).bind fun _ => h.bind fun _ => gives_command .shallower desk

theorem Gives.within (around : Surroundings)
    (h : Gives s { desk with context := around.enter desk.context } commands) :
    Gives (Script.within around s) desk commands := by
  intro a ok
  obtain ⟨same, rfl⟩ := h a ok
  refine ⟨?_, rfl⟩
  simp only [Script.within, same, around.leave_enter]

theorem gives_each {f : α → Script Unit} {text : α → List Command} {l : List α}
    (h : ∀ a ∈ l, Gives (f a) desk (text a)) : Gives (Script.each f l) desk (l.flatMap text) := by
  induction l with
  | nil => exact fun _ _ => ⟨rfl, rfl⟩
  | cons a l ih =>
      have rest := ih fun b hb => h b (List.mem_cons_of_mem a hb)
      exact (h a List.mem_cons_self).bind fun _ => rest

theorem gives_separated {between : Script Unit} {f : α → Script Unit} {text : α → List Command}
    {l : List α} (hb : Gives between desk commands) (h : ∀ a ∈ l, Gives (f a) desk (text a)) :
    Gives (Script.separated between f l) desk (commands.intercalate (l.map text)) := by
  induction l with
  | nil => exact fun _ _ => ⟨rfl, rfl⟩
  | cons a l ih =>
      have first := h a List.mem_cons_self
      cases l with
      | nil => simpa [Script.separated, List.intercalate] using first
      | cons b l =>
          have rest := ih fun x hx => h x (List.mem_cons_of_mem a hx)
          have all := first.bind fun _ => hb.bind fun _ => rest
          simpa [Script.separated, List.intercalate] using all

end Gives

/-- The text of an expression and of a statement at a desk. -/
def exprText (desk : Desk) (n : Node) : List Command := (emitExpr n desk).commands

def stmtText (desk : Desk) (n : Node) : List Command := (emitStmt n desk).commands

theorem gives_value (desk : Desk) (n : Node) :
    Gives (whole.value n) desk (exprText desk n) := by
  refine Gives.of_eq (((whole_kept n).expr.gives desk).bind fun _ =>
    (congruence_kept.pure ()).gives desk) ?_
  exact List.append_nil _

theorem gives_statement (desk : Desk) (n : Node) : Gives (whole.stmt n) desk (stmtText desk n) :=
  ((whole_kept n).stmt).gives desk

/-- A match as it is written. Each arm has the texts of its labels and that of its statements. -/
structure MatchText where
  /-- What stands before the brace. -/
  value : List Command
  arms : List (List (List Command) × List Command)
  /-- The statements for all other values, unless there are none. -/
  otherwise : Option (List Command)

/-- Statements between the braces of an arm that opens in a given way. -/
def braced (opening : String) (body : List Command) : List Command :=
  .line opening :: .deeper :: (body ++ [.shallower, .line "\x7d"])

def elseText : Option (List Command) → List Command
  | some body => braced "else \x7b" body
  | none => [.line "else \x7b\x7d"]

def MatchText.commands (m : MatchText) : List Command :=
  m.value ++ .line " \x7b" :: .deeper ::
    (m.arms.flatMap (fun arm => [Command.write ", "].intercalate arm.1 ++ braced " \x7b" arm.2) ++
      (elseText m.otherwise ++ [.shallower, .line "\x7d"]))

def bodyText (desk : Desk) (arm : Arm) : List Command := arm.body.flatMap (stmtText desk)

/-- The match over arms: all arms without a default in their order, then the first one with it. -/
def matchText (desk : Desk) (owner : Option String) (cond : Node) (arms : List Arm) :
    MatchText where
  value := .write "match " :: (matchedValue whole owner cond desk).commands
  arms := (arms.filter fun arm => !arm.isDefault).map fun arm =>
    (arm.labels.map (exprText desk), bodyText desk arm)
  otherwise := (arms.find? Arm.isDefault).map (bodyText desk)

section Match

variable (desk : Desk) (owner : Option String) (cond : Node) (arms : List Arm)

theorem gives_armBody (arm : Arm) :
    Gives (armBody whole arm) desk (.deeper :: (bodyText desk arm ++ [.shallower])) :=
  (gives_each fun n _ => gives_statement desk n).indented

theorem gives_braced (opening : String) (arm : Arm) :
    Gives (do Script.line opening; armBody whole arm; Script.line "\x7d") desk
      (braced opening (bodyText desk arm)) := by
  refine Gives.of_eq ((gives_command (.line opening) desk).bind fun _ =>
    (gives_armBody desk arm).bind fun _ => gives_command (.line "\x7d") desk) ?_
  simp [braced]

theorem gives_labelledArm (arm : Arm) :
    Gives (labelledArm whole arm) desk
      ([Command.write ", "].intercalate (arm.labels.map (exprText desk)) ++
        braced " \x7b" (bodyText desk arm)) :=
  (gives_separated (gives_command (.write ", ") desk) fun n _ => gives_value desk n).bind fun _ =>
    gives_braced desk " \x7b" arm

theorem gives_elseArm : Gives (elseArm whole (arms.find? Arm.isDefault)) desk
    (elseText (matchText desk owner cond arms).otherwise) := by
  simp only [matchText]
  cases arms.find? Arm.isDefault with
  | none => exact gives_command _ desk
  | some arm => exact gives_braced desk "else \x7b" arm

theorem gives_matchHead :
    Gives (matchHead whole owner cond) desk
      ((matchText desk owner cond arms).value ++ [.line " \x7b"]) := by
  have value : Kept (matchedValue whole owner cond) := by
    cases owner with
    | none => exact (whole_kept cond).value congruence_kept
    | some name =>
        exact (kept_write _).bind fun _ => ((whole_kept cond).value congruence_kept).bind fun _ =>
          kept_write _
  refine Gives.of_eq ((gives_command (.write "match ") desk).bind fun _ =>
    (value.gives desk).bind fun _ => gives_command (.line " \x7b") desk) ?_
  simp [matchText]

theorem gives_matchArms :
    Gives (matchArms whole owner cond arms) desk (matchText desk owner cond arms).commands := by
  have labelled : Gives (Script.each (labelledArm whole) (arms.filter fun arm => !arm.isDefault))
      desk _ := gives_each fun arm _ => gives_labelledArm desk arm
  have inside := labelled.bind fun _ => gives_elseArm desk owner cond arms
  refine Gives.of_eq ((gives_matchHead desk owner cond arms).bind fun _ =>
    inside.indented.bind fun _ => gives_command (.line "\x7d") desk) ?_
  simp [MatchText.commands, matchText, List.flatMap_map]

end Match

/-- The desk at which the arms of a switch are written. -/
def insideSwitch (desk : Desk) (owner : Option String) : Desk :=
  { desk with context := (Surroundings.switch owner).enter desk.context }

/-- The record of a switch, and the match. -/
def switchText (desk : Desk) (cond : Node) (arms : List Arm) : List Command :=
  let owner := switchEnum? desk.symbols cond arms
  .note (debug s!"switch with {arms.length} arms over {enumWord owner}") ::
    (matchText (insideSwitch desk owner) owner cond arms).commands

theorem commands_switch {n body : Node} {desk : Desk} {arms : List Arm} (hk : n.kind = .switchStmt)
    (hb : (n.inner.drop 1).getLast? = some body) (ha : collectArms body = .ok arms)
    (ok : (emitStmt n desk).result = .ok ()) :
    ∃ cond, n.inner[0]? = some cond ∧ (emitStmt n desk).commands = switchText desk cond arms := by
  obtain ⟨cond, body', raw, hc, hb', hs, same⟩ := emitStmt_switch hk ok
  cases hb.symm.trans hb'
  have found : collectArms body = .ok (runOn raw) := by
    change (splitArms [] (spliced body)).map runOn = _
    rw [hs]
    rfl
  cases ha.symm.trans found
  refine ⟨cond, hc, ?_⟩
  have text : Gives (matchOver desk.symbols cond (runOn raw)) desk
      (switchText desk cond (runOn raw)) :=
    (gives_command _ desk).bind fun _ => (gives_matchArms _ _ cond (runOn raw)).within (.switch _)
  rw [same] at ok ⊢
  exact (text () ok).2

/-- How the arms of a switch come from the children of its body. -/
structure Splits (children : List Node) (arms : List Arm) : Prop where
  /-- Each label of the body is a place of entry. -/
  starts : (entries children).map List.head? =
    (children.filter fun n => isLabel n.kind).map some
  /-- Each place of entry gives one arm. -/
  count : arms.length = (entries children).length
  /-- An arm has the labels of all cases on its chain, and is the one for all other values if there
  is a default on the chain. -/
  labels {i : Nat} {arm : Arm} {label : Node} {rest : List Node} (ha : arms[i]? = some arm)
    (he : (entries children)[i]? = some (label :: rest)) :
    arm.labels = (chain label).filterMap caseLabel? ∧
      (arm.isDefault = true ↔ ∃ l ∈ chain label, l.kind = .defaultStmt)
  /-- An arm runs through the statements of the arms up to the first one that does not run on. -/
  body {i : Nat} {arm : Arm} (ha : arms[i]? = some arm) :
    ∃ j, RunsTo ((entries children).map ownStatements) i j ∧
      arm.body = ((((entries children).map ownStatements).take (j + 1)).drop i).flatten

theorem head?_entries (children : List Node) :
    (entries children).map List.head? =
      (children.filter fun n => isLabel n.kind).map some := by
  induction children with
  | nil => rfl
  | cons child rest ih =>
      rw [entries]
      by_cases label : child.kind = .caseStmt ∨ child.kind = .defaultStmt
      · simp [label, isLabel_of_label label, ih]
      · simp [label, isLabel_of_not_label label, ih]

theorem runOn_getElem? {raw : List Arm} {i : Nat} {arm : Arm} (h : (runOn raw)[i]? = some arm) :
    ∃ own, raw[i]? = some own ∧ arm = { own with body := bodyFrom (raw.drop i) } := by
  induction raw generalizing i with
  | nil => cases h
  | cons first rest ih =>
      rw [runOn_cons] at h
      cases i with
      | zero => cases h; exact ⟨first, rfl, rfl⟩
      | succ i => exact ih h

theorem map_body_entryArm (children : List Node) :
    ((entries children).map entryArm).map Arm.body = (entries children).map ownStatements := by
  rw [List.map_map]
  refine List.map_congr_left fun entry _ => ?_
  cases entry <;> rfl

theorem splits_of_splitArms {children : List Node} {raw : List Arm}
    (h : splitArms [] children = .ok raw) : Splits children (runOn raw) := by
  have found := splitArms_ok h
  refine ⟨head?_entries children, ?_, ?_, ?_⟩
  · rw [length_runOn, found, List.length_map]
  · intro i arm label rest ha he
    obtain ⟨own, ho, rfl⟩ := runOn_getElem? ha
    rw [found, List.getElem?_map, he] at ho
    cases ho
    exact ⟨rfl, by simp [entryArm, chainArm]⟩
  · intro i arm ha
    obtain ⟨own, ho, rfl⟩ := runOn_getElem? ha
    obtain ⟨j, runs, body⟩ := exists_runsTo (List.getElem?_eq_some_iff.mp ho).1
    rw [found, map_body_entryArm] at runs body
    exact ⟨j, runs, found ▸ body⟩

/-- A switch is refused exactly if something stands before its first label or a case lacks its
statement. Otherwise it is split into the arms of its labels, and these are what is written. -/
theorem switch_splits_into_arms (body : Node) :
    ((∃ e, collectArms body = .error e) ↔ Misshapen (spliced body)) ∧
      ∀ arms, collectArms body = .ok arms →
        Splits (spliced body) arms ∧
          ∀ (n : Node) (desk : Desk), n.kind = .switchStmt →
            (n.inner.drop 1).getLast? = some body → (emitStmt n desk).result = .ok () →
            ∃ cond, n.inner[0]? = some cond ∧
              (emitStmt n desk).commands = switchText desk cond arms := by
  constructor
  · rw [misshapen_iff]
    have fails : (∃ e, collectArms body = .error e) ↔
        ∃ e, splitArms [] (spliced body) = .error e := by
      change (∃ e, (splitArms [] (spliced body)).map runOn = .error e) ↔ _
      cases splitArms [] (spliced body) <;> simp [Except.map]
    rw [fails, splitArms_error_iff]
    simp
  · intro arms ha
    obtain ⟨raw, hs, rfl⟩ := ok_of_map_ok ha
    exact ⟨splits_of_splitArms hs, fun n desk hk hb ok => commands_switch hk hb ha ok⟩

/-- A switch body whose first arm has two labels and two statements and runs on, whose second arm
has a default between two cases, and whose last arm has nothing. -/
def chainedBody : Node :=
  let number (text : String) : Node :=
    ⟨{ kind := .integerLiteral, value := some (.text text) }, [], []⟩
  let case (label : String) (stmt : Node) : Node :=
    ⟨{ kind := .caseStmt }, [], [number label, stmt]⟩
  ⟨{ kind := .compoundStmt }, [],
    [⟨{ kind := .comment }, [], []⟩,
      case "1" (case "2" (number "10")), number "20",
      case "3" ⟨{ kind := .defaultStmt }, [], [case "4" (number "30")]⟩,
      ⟨{ kind := .breakStmt }, [], []⟩,
      case "5" ⟨{ kind := .compoundStmt }, [], []⟩]⟩

theorem chainedBody_splits :
    let cond : Node := ⟨{ kind := .integerLiteral, value := some (.text "0") }, [], []⟩
    let switch : Node := ⟨{ kind := .switchStmt }, [], [cond, chainedBody]⟩
    ¬Misshapen (spliced chainedBody) ∧ ∃ arms, collectArms chainedBody = .ok arms ∧
      Splits (spliced chainedBody) arms ∧
      arms.map (fun arm => (arm.labels.length, arm.body.length, arm.isDefault)) =
        [(2, 4, false), (2, 2, true), (1, 0, false)] ∧
      (emitStmt switch {}).result = .ok () ∧
      (emitStmt switch {}).commands = switchText {} cond arms := by
  intro cond switch
  obtain ⟨refused, taken⟩ := switch_splits_into_arms chainedBody
  have ha : collectArms chainedBody = .ok (runOn ((entries (spliced chainedBody)).map entryArm)) :=
    rfl
  have ok : (emitStmt switch {}).result = .ok () := ok_of_isOk (by decide +kernel)
  obtain ⟨splits, written⟩ := taken _ ha
  obtain ⟨cond', hc, text⟩ := written switch {} rfl rfl ok
  cases hc
  refine ⟨fun bad => ?_, _, ha, splits, rfl, ok, text⟩
  obtain ⟨e, he⟩ := refused.mpr bad
  cases ha.symm.trans he

end VFromC.Emit
