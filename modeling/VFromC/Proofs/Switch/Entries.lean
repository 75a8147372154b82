import VFromC.Proofs.Emit.ArmParts
import VFromC.Proofs.Switch.Paths
/-!
Where a switch is entered, and when an arm does what is done from its entry.

Control that comes to a label goes on through all that follows it in the body of the switch, until
a break. An arm is written with the statements that are taken to follow, and without breaks.
-/
namespace VFromC.Emit
open VFromC.Syntax VFromC.Output VFromC.Control

mutual

/-- The statement below the labels of a node. A label without one stands before an empty block. -/
def unlabelled : Node → Node
  | ⟨info, filler, inner⟩ =>
      match info.kind with
      | .caseStmt => lastUnlabelled inner
      | .defaultStmt => firstUnlabelled inner
      | _ => ⟨info, filler, inner⟩

def lastUnlabelled : List Node → Node
  | [] => ⟨{ kind := .compoundStmt }, [], []⟩
  | [n] => unlabelled n
  | _ :: rest => lastUnlabelled rest

def firstUnlabelled : List Node → Node
  | [] => ⟨{ kind := .compoundStmt }, [], []⟩
  | n :: _ => unlabelled n

end

/-- The places where a switch can be entered, each with all that follows in the body. -/
def entries : List Node → List (List Node)
  | [] => []
  | child :: rest =>
      if child.kind = .caseStmt ∨ child.kind = .defaultStmt then (child :: rest) :: entries rest
      else entries rest

/-- What is done from a place in the body of a switch, where labels do nothing. -/
def doneFrom? (children : List Node) : Option (List (Flow SourceLoop)) :=
  flows? (children.map unlabelled)

section Unlabelled

variable {info : Info} {filler inner : List Node}

theorem unlabelled_of_case (h : info.kind = .caseStmt) :
    unlabelled ⟨info, filler, inner⟩ = lastUnlabelled inner := by
  simp only [unlabelled, h]

theorem unlabelled_of_default (h : info.kind = .defaultStmt) :
    unlabelled ⟨info, filler, inner⟩ = firstUnlabelled inner := by
  simp only [unlabelled, h]

end Unlabelled

theorem unlabelled_of_not_label {n : Node} (h : ¬(n.kind = .caseStmt ∨ n.kind = .defaultStmt)) :
    unlabelled n = n := by
  rcases n with ⟨info, filler, inner⟩
  unfold unlabelled
  split <;> simp_all [Node.kind]

mutual

theorem body_of_caseChain :
    ∀ {n : Node} {arm : Arm}, caseChain n = .ok arm → arm.body = spliced (unlabelled n)
  | ⟨info, filler, inner⟩, arm, h => by
      unfold caseChain at h
      split at h
      · rename_i hk
        rw [unlabelled_of_case hk]
        exact body_of_labelled h
      · rename_i hk
        rw [unlabelled_of_default hk]
        cases inner with
        | nil => cases h; rfl
        | cons stmt rest =>
            obtain ⟨found, hc, rfl⟩ := ok_of_map_ok h
            have found := body_of_caseChain hc
            exact found
      · rename_i noCase noDefault
        cases h
        rw [unlabelled_of_not_label (not_or.mpr ⟨noCase, noDefault⟩)]

theorem body_of_labelled :
    ∀ {l : List Node} {arm : Arm}, labelled l = .ok arm → arm.body = spliced (lastUnlabelled l)
  | [], _, h => by cases h
  | [_], _, h => by
      unfold labelled at h
      obtain ⟨_, hc, -⟩ := ok_of_map_ok h
      cases hc
  | _ :: stmt :: rest, _, h => by
      unfold labelled at h
      obtain ⟨found, hc, rfl⟩ := ok_of_map_ok h
      have found := body_of_lastChain (l := stmt :: rest) hc
      exact found

theorem body_of_lastChain :
    ∀ {l : List Node} {arm : Arm}, lastChain l = .ok arm → arm.body = spliced (lastUnlabelled l)
  | [], _, h => by cases h
  | [_], _, h => body_of_caseChain h
  | _ :: stmt :: rest, _, h => body_of_lastChain (l := stmt :: rest) h

end

def lead : List Node → List Node
  | [] => []
  | child :: rest =>
      if child.kind = .caseStmt ∨ child.kind = .defaultStmt then []
      else if child.kind.isAnnotation then lead rest
      else child :: lead rest

/-- The arms from their ends: a label takes the statements up to the next one. -/
def groups : List Node → Except Fault (List Arm)
  | [] => .ok []
  | child :: rest =>
      if child.kind = .caseStmt ∨ child.kind = .defaultStmt then do
        let arm ← caseChain child
        let others ← groups rest
        .ok ({ arm with body := arm.body ++ lead rest } :: others)
      else groups rest

theorem appendToLast_concat (stmt : Node) (arms : List Arm) (arm : Arm) :
    appendToLast stmt (arms ++ [arm]) = arms ++ [{ arm with body := arm.body ++ [stmt] }] := by
  induction arms with
  | nil => rfl
  | cons first rest ih =>
      cases rest with
      | nil => rfl
      | cons second rest => simpa [appendToLast] using ih

theorem foldl_appendToLast_concat (stmts : List Node) (arms : List Arm) (arm : Arm) :
    stmts.foldl (fun arms stmt => appendToLast stmt arms) (arms ++ [arm]) =
      arms ++ [{ arm with body := arm.body ++ stmts }] := by
  induction stmts generalizing arm with
  | nil => simp
  | cons stmt stmts ih => rw [List.foldl_cons, appendToLast_concat, ih]; simp

theorem groups_of_splitArms {arms found : List Arm} {children : List Node}
    (h : splitArms arms children = .ok found) :
    ∃ others, groups children = .ok others ∧
      found = (lead children).foldl (fun arms stmt => appendToLast stmt arms) arms ++ others := by
  fun_induction splitArms arms children with
  | case1 => cases h; exact ⟨[], rfl, by simp [lead]⟩
  | case2 arms child rest label arm hchain ih =>
      -- The new arm is the last one, so it takes the statements up to the next label.
      obtain ⟨others, hg, rfl⟩ := ih h
      refine ⟨{ arm with body := arm.body ++ lead rest } :: others, ?_, ?_⟩
      · rw [groups, if_pos label, hchain, hg]
        rfl
      · simp [lead, label, foldl_appendToLast_concat]
  | case3 | case5 => cases h
  | case4 arms child rest label annotation ih =>
      obtain ⟨others, hg, rfl⟩ := ih h
      refine ⟨others, by rw [groups, if_neg label, hg], ?_⟩
      rw [lead, if_neg label, if_pos annotation]
  | case6 arms child rest label annotation _ ih =>
      obtain ⟨others, hg, rfl⟩ := ih h
      refine ⟨others, by rw [groups, if_neg label, hg], ?_⟩
      rw [lead, if_neg label, if_neg annotation, List.foldl_cons]

theorem groups_of_splitArms_nil {raw : List Arm} {children : List Node}
    (h : splitArms [] children = .ok raw) : groups children = .ok raw := by
  obtain ⟨others, hg, rfl⟩ := groups_of_splitArms h
  have none : (lead children).foldl (fun arms stmt => appendToLast stmt arms) [] = [] := by
    induction lead children with
    | nil => rfl
    | cons stmt stmts ih => exact ih
  rw [none]
  exact hg

/-- The statements of a block do the same outside of it. -/
theorem givenAll_spliced {n : Node} {s : Flow SourceLoop} (h : flow? n = some s) :
    ∃ l, flows? (spliced n) = some l ∧ straightAll l = s.isStraight ∧
      ∀ fuel rest, givenAll fuel (s :: rest) = givenAll fuel (l ++ rest) := by
  rcases n with ⟨info, filler, inner⟩
  by_cases hk : info.kind = .compoundStmt
  · simp only [flow?, hk] at h
    obtain ⟨l, hl, rfl⟩ := Option.map_eq_some_iff.mp h
    refine ⟨l, ?_, rfl, fun fuel rest => ?_⟩
    · rw [spliced, if_pos hk]
      exact hl
    · rw [givenAll_append]
      rfl
  · refine ⟨[s], ?_, Bool.and_true _, fun _ _ => rfl⟩
    rw [spliced, if_neg hk]
    exact flows?_cons h rfl

theorem flow?_eq_idle {n : Node} (h : n.kind.isAnnotation = true) : flow? n = some .idle := by
  rcases n with ⟨info, filler, inner⟩
  have hk : info.kind.isAnnotation = true := h
  unfold flow?
  split <;> simp_all [Kind.isAnnotation]

theorem groups_cons_inv {child : Node} {rest : List Node} {raw : List Arm}
    (label : child.kind = .caseStmt ∨ child.kind = .defaultStmt)
    (h : groups (child :: rest) = .ok raw) :
    ∃ arm others, caseChain child = .ok arm ∧ groups rest = .ok others ∧
      raw = { arm with body := arm.body ++ lead rest } :: others := by
  rw [groups, if_pos label] at h
  cases hc : caseChain child with
  | error e => rw [hc] at h; cases h
  | ok arm =>
      rw [hc] at h
      cases hg : groups rest with
      | error e => rw [hg] at h; cases h
      | ok others => rw [hg] at h; cases h; exact ⟨arm, others, rfl, rfl, rfl⟩

/-- The arms one after another do what is done in the body of the switch. -/
theorem givenAll_groups {children : List Node} {raw : List Arm} {done : List (Flow SourceLoop)}
    (h : groups children = .ok raw) (hd : doneFrom? children = some done) :
    ∃ l, flows? (lead children ++ raw.flatMap Arm.body) = some l ∧
      straightAll l = straightAll done ∧ ∀ fuel, givenAll fuel done = givenAll fuel l := by
  induction children generalizing raw done with
  | nil => cases h; cases hd; exact ⟨[], rfl, rfl, fun _ => rfl⟩
  | cons child rest ih =>
      obtain ⟨first, others, hfirst, hothers, rfl⟩ := flows?_cons_inv hd
      by_cases label : child.kind = .caseStmt ∨ child.kind = .defaultStmt
      · obtain ⟨arm, later, hc, hg, rfl⟩ := groups_cons_inv label h
        obtain ⟨body, hbody, straight, same⟩ := givenAll_spliced hfirst
        obtain ⟨l, hl, straight', same'⟩ := ih hg hothers
        rw [← body_of_caseChain hc] at hbody
        refine ⟨body ++ l, ?_, ?_, fun fuel => ?_⟩
        · simpa [lead, label] using flows?_append hbody hl
        · rw [straightAll_append, straight, straight', straightAll]
        · rw [same, givenAll_append, givenAll_append, same']
      · rw [groups, if_neg label] at h
        rw [unlabelled_of_not_label label] at hfirst
        obtain ⟨l, hl, straight, same⟩ := ih h hothers
        by_cases annotation : child.kind.isAnnotation = true
        · rw [flow?_eq_idle annotation] at hfirst
          cases hfirst
          refine ⟨l, by rwa [lead, if_neg label, if_pos annotation], ?_, fun fuel => ?_⟩
          · rw [straight, straightAll, Flow.isStraight, Bool.true_and]
          · exact same fuel
        · refine ⟨first :: l, ?_, ?_, fun fuel => ?_⟩
          · rw [lead, if_neg label, if_neg annotation]
            exact flows?_cons hfirst hl
          · rw [straightAll, straightAll, straight]
          · exact congrArg (Run.seq (first.given fuel)) (same fuel)

theorem groups_of_entries {children entry : List Node} {raw : List Arm} {i : Nat}
    (h : groups children = .ok raw) (he : (entries children)[i]? = some entry) :
    groups entry = .ok (raw.drop i) ∧ lead entry = [] ∧ ∃ start, children = start ++ entry := by
  induction children generalizing raw i with
  | nil => cases he
  | cons child rest ih =>
      rw [entries] at he
      by_cases label : child.kind = .caseStmt ∨ child.kind = .defaultStmt
      · rw [if_pos label] at he
        cases i with
        | zero =>
            cases he
            exact ⟨h, by rw [lead, if_pos label], [], rfl⟩
        | succ i =>
            obtain ⟨arm, others, -, hg, rfl⟩ := groups_cons_inv label h
            obtain ⟨later, nothing, start, rfl⟩ := ih hg he
            exact ⟨later, nothing, child :: start, rfl⟩
      · rw [if_neg label] at he
        rw [groups, if_neg label] at h
        obtain ⟨later, nothing, start, rfl⟩ := ih h he
        exact ⟨later, nothing, child :: start, rfl⟩

theorem length_entries {children : List Node} {raw : List Arm} (h : groups children = .ok raw) :
    (entries children).length = raw.length := by
  induction children generalizing raw with
  | nil => cases h; rfl
  | cons child rest ih =>
      rw [entries]
      by_cases label : child.kind = .caseStmt ∨ child.kind = .defaultStmt
      · obtain ⟨arm, others, -, hg, rfl⟩ := groups_cons_inv label h
        rw [if_pos label, List.length_cons, List.length_cons, ih hg]
      · rw [groups, if_neg label] at h
        rw [if_neg label, ih h]

/-- The statements of the arms that the first arm stops before. -/
def bodyBehind : List Arm → List Node
  | [] => []
  | arm :: rest =>
      if arm.body.isEmpty || lastLeaves arm.body then rest.flatMap Arm.body else bodyBehind rest

theorem bodyFrom_append_bodyBehind (arms : List Arm) :
    bodyFrom arms ++ bodyBehind arms = arms.flatMap Arm.body := by
  induction arms with
  | nil => rfl
  | cons arm rest ih =>
      rw [bodyFrom, bodyBehind, List.flatMap_cons]
      split
      · rfl
      · rw [List.append_assoc, ih]

theorem body_of_runOn {raw : List Arm} {i : Nat} {arm : Arm} (h : (runOn raw)[i]? = some arm) :
    arm.body = bodyFrom (raw.drop i) := by
  induction raw generalizing i with
  | nil => cases h
  | cons first rest ih =>
      rw [runOn_cons] at h
      cases i with
      | zero => cases h; rfl
      | succ i => exact ih h

theorem length_runOn (raw : List Arm) : (runOn raw).length = raw.length := by
  induction raw with
  | nil => rfl
  | cons first rest ih => rw [runOn_cons, List.length_cons, List.length_cons, ih]

/-- A match over arms, whose text is one switch deeper. -/
def matchOver (symbols : Symbols) (cond : Node) (arms : List Arm) : Script Unit := do
  let owner := switchEnum? symbols cond arms
  Script.note s!"switch with {arms.length} arms over {enumWord owner}"
  Script.within (.switch owner) (matchArms whole owner cond arms)

theorem emitStmt_switch {n : Node} {desk : Desk} (hk : n.kind = .switchStmt)
    (ok : (emitStmt n desk).result = .ok ()) :
    ∃ cond body raw, n.inner[0]? = some cond ∧ (n.inner.drop 1).getLast? = some body ∧
      splitArms [] (spliced body) = .ok raw ∧
      emitStmt n desk = matchOver desk.symbols cond (runOn raw) desk := by
  rw [emitStmt_eq] at ok ⊢
  simp only [statement, hk, switchStatement, childAt, switchBody] at ok ⊢
  cases hc : n.inner[0]? with
  | none => rw [hc] at ok; cases ok
  | some cond =>
      cases hb : (n.inner.drop 1).getLast? with
      | none => rw [hc, hb] at ok; cases ok
      | some body =>
          cases ha : collectArms body with
          | error e => rw [hc, hb] at ok; simp only [pure_bind, ha] at ok; cases ok
          | ok arms =>
              obtain ⟨raw, hs, rfl⟩ := ok_of_map_ok ha
              refine ⟨cond, body, raw, rfl, rfl, hs, ?_⟩
              simp only [pure_bind, ha]
              rfl

/-- A switch over arms of straight statements. -/
def isStraightSwitch (n : Node) : Bool :=
  n.kind = .switchStmt && (n.inner.drop 1).getLast?.all fun body =>
    (doneFrom? (spliced body)).any straightAll

/-- The text of an arm is that of the statements it goes through, without their breaks. For all
outcomes it does the same as the switch does from the entry of the arm, exactly when nothing that is
done stands behind a break and, if the end of the arm may be come to, nothing is done in the arms
that it stops before. -/
theorem arm_does_as_entered_iff {n : Node} {desk : Desk} (straight : isStraightSwitch n = true)
    (ok : (emitStmt n desk).result = .ok ()) :
    ∃ cond body raw, n.inner[0]? = some cond ∧ (n.inner.drop 1).getLast? = some body ∧
      splitArms [] (spliced body) = .ok raw ∧
      emitStmt n desk = matchOver desk.symbols cond (runOn raw) desk ∧
      (runOn raw).length = (entries (spliced body)).length ∧
      ∀ (i : Nat) (arm : Arm) (entry : List Node), (runOn raw)[i]? = some arm →
        (entries (spliced body))[i]? = some entry →
        ∃ done written missed, doneFrom? entry = some done ∧ flows? arm.body = some written ∧
          flows? (bodyBehind (raw.drop i)) = some missed ∧
          (∀ inside : Desk, 0 < inside.context.switchDepth → armBody whole arm inside =
            Script.indented (printFlows (lowerAll (stayAll true written))) inside) ∧
          ∀ fuel, (∀ outcomes, (givenAll fuel done outcomes).acts =
              (emittedAll fuel (lowerAll (stayAll true written)) outcomes).acts) ↔
            (viewOf written).clean = true ∧
              ((viewOf written).mayPass = true → (viewOf missed).mayAct = false) := by
  simp only [isStraightSwitch, Bool.and_eq_true, decide_eq_true_eq] at straight
  obtain ⟨hk, straight⟩ := straight
  obtain ⟨cond, body, raw, hc, hb, hs, text⟩ := emitStmt_switch hk ok
  rw [hb, Option.all_some, Option.any_eq_true] at straight
  obtain ⟨all, hall, straight⟩ := straight
  have hg := groups_of_splitArms_nil hs
  refine ⟨cond, body, raw, hc, hb, hs, text, ?_, ?_⟩
  · rw [length_runOn, length_entries hg]
  · intro i arm entry harm hentry
    obtain ⟨hgroups, noLead, start, split⟩ := groups_of_entries hg hentry
    rw [doneFrom?, split, List.map_append] at hall
    obtain ⟨_, done, -, hdone, rfl⟩ := flows?_append_inv hall
    rw [straightAll_append, Bool.and_eq_true] at straight
    obtain ⟨l, hl, straight', same⟩ := givenAll_groups hgroups hdone
    rw [straight.2] at straight'
    -- All that follows the entry is what the arm goes through and what it stops before.
    rw [noLead, List.nil_append, ← bodyFrom_append_bodyBehind] at hl
    obtain ⟨written, missed, hwritten, hmissed, rfl⟩ := flows?_append_inv hl
    rw [straightAll_append, Bool.and_eq_true] at straight'
    rw [← body_of_runOn harm] at hwritten
    refine ⟨done, written, missed, hdone, hwritten, hmissed, fun inside deep => ?_, fun fuel => ?_⟩
    · have here : isInSwitch inside.context = true := by simpa [isInSwitch] using Nat.ne_of_gt deep
      exact (writes_of_flows? hwritten).indented.2 inside here
    · rw [same fuel]
      exact acts_given_eq_stayed_iff straight'.1 straight'.2

theorem ok_of_isOk {ε : Type} {result : Except ε Unit} (h : result.isOk = true) :
    result = .ok () := by
  cases result with
  | ok => rfl
  | error e => cases h

/-- The children of a switch over four arms: the first one is empty, the second one ends in a
break, the third one may be left before its last statement, and the last one is for all other
values. -/
def fourArms : List Node :=
  let number (text : String) : Node :=
    ⟨{ kind := .integerLiteral, value := some (.text text) }, [], []⟩
  let leave : Node := ⟨{ kind := .breakStmt }, [], []⟩
  let arm (label : String) (stmt : Node) : Node := ⟨{ kind := .caseStmt }, [], [number label, stmt]⟩
  let cond : Node := ⟨{ kind := .binaryOperator, opcode := "==" }, [], [number "5", number "6"]⟩
  [arm "1" ⟨{ kind := .compoundStmt }, [], []⟩,
    arm "2" (number "20"), leave,
    arm "3" ⟨{ kind := .ifStmt }, [], [cond, leave]⟩, number "30", leave,
    ⟨{ kind := .defaultStmt }, [], [number "40"]⟩]

theorem fourArms_do_as_entered :
    let cond : Node := ⟨{ kind := .integerLiteral, value := some (.text "0") }, [], []⟩
    let switch : Node :=
      ⟨{ kind := .switchStmt }, [], [cond, ⟨{ kind := .compoundStmt }, [], fourArms⟩]⟩
    isStraightSwitch switch = true ∧ (emitStmt switch {}).result = .ok () ∧
      ∃ raw, splitArms [] fourArms = .ok raw ∧ (runOn raw).length = 4 ∧
        ∀ (i : Nat) (arm : Arm) (entry : List Node) (done written : List (Flow SourceLoop))
          (fuel : Nat),
          (runOn raw)[i]? = some arm → (entries fourArms)[i]? = some entry →
          doneFrom? entry = some done → flows? arm.body = some written →
          ((∀ outcomes, (givenAll fuel done outcomes).acts =
              (emittedAll fuel (lowerAll (stayAll true written)) outcomes).acts) ↔
            i = 1 ∨ i = 3) := by
  intro cond switch
  have straight : isStraightSwitch switch = true := rfl
  have ok : (emitStmt switch {}).result = .ok () := ok_of_isOk (by decide +kernel)
  obtain ⟨_, body, raw, -, hb, hs, -, -, each⟩ := arm_does_as_entered_iff straight ok
  cases hb
  cases hs
  refine ⟨straight, ok, _, rfl, rfl, ?_⟩
  intro i arm entry done written fuel harm hentry hdone hwritten
  obtain ⟨_, _, missed, hdone', hwritten', hmissed, -, same⟩ := each i arm entry harm hentry
  cases hdone.symm.trans hdone'
  cases hwritten.symm.trans hwritten'
  rw [same fuel]
  match i with
  | 0 | 1 | 2 | 3 =>
      cases harm
      cases hwritten
      cases hmissed
      decide
  | i + 4 => cases harm

end VFromC.Emit
