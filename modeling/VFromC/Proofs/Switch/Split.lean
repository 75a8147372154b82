import VFromC.Proofs.Switch.Entries
/-!
How the body of a switch is split into arms.

A label may stand before another one, and the labels before one statement are its chain. Each chain
of the body gives one arm, which has the statement below the chain and those that follow it up to the
next label as its own. When an arm does not end in a jump, the statements of the next arm are added.
-/
namespace VFromC.Emit
open VFromC.Syntax

def isLabel (kind : Kind) : Bool := kind = .caseStmt || kind = .defaultStmt

section Labels

variable {kind : Kind}

theorem isLabel_of_label (h : kind = .caseStmt ∨ kind = .defaultStmt) : isLabel kind = true := by
  simpa [isLabel] using h

theorem isLabel_of_not_label (h : ¬(kind = .caseStmt ∨ kind = .defaultStmt)) :
    isLabel kind = false := by
  simpa [isLabel] using h

end Labels

mutual

/-- The labels that stand before one statement, from the outermost one. -/
def chain : Node → List Node
  | ⟨info, filler, inner⟩ =>
      match info.kind with
      | .caseStmt => ⟨info, filler, inner⟩ :: chainOfLast inner
      | .defaultStmt => ⟨info, filler, inner⟩ :: chainOfFirst inner
      | _ => []

def chainOfLast : List Node → List Node
  | [] => []
  | [n] => chain n
  | _ :: rest => chainOfLast rest

def chainOfFirst : List Node → List Node
  | [] => []
  | n :: _ => chain n

end

/-- A case has a label and a statement. -/
def isComplete (label : Node) : Bool := label.kind ≠ .caseStmt || 2 ≤ label.inner.length

def caseLabel? (label : Node) : Option Node :=
  if label.kind = .caseStmt then label.firstChild? else none

/-- All cases on the chain of a label are complete. -/
def isWhole (label : Node) : Bool := (chain label).all isComplete

/-- The arm of a chain with some statements. -/
def chainArm (labels : List Node) (body : List Node) : Arm where
  labels := labels.filterMap caseLabel?
  body := body
  isDefault := labels.any (·.kind = .defaultStmt)

/-- The arm of a chain, if all cases on it are complete. -/
def checkedArm (labels : List Node) (stmt : Node) : Except Fault Arm :=
  if labels.all isComplete then .ok (chainArm labels (spliced stmt))
  else .error (.switchShape "case without a statement")

section Chain

variable {n : Node}

theorem checkedArm_default (hk : n.kind = .defaultStmt) (labels : List Node) (stmt : Node) :
    checkedArm (n :: labels) stmt =
      (checkedArm labels stmt).map fun arm => { arm with isDefault := true } := by
  have complete : isComplete n = true := by simp [isComplete, hk]
  have unnamed : caseLabel? n = none := by simp [caseLabel?, hk]
  simp only [checkedArm, List.all_cons, complete, Bool.true_and]
  split
  · simp [chainArm, Except.map, unnamed, hk]
  · rfl

theorem checkedArm_case {label next : Node} {rest : List Node} (hk : n.kind = .caseStmt)
    (hi : n.inner = label :: next :: rest) (labels : List Node) (stmt : Node) :
    checkedArm (n :: labels) stmt =
      (checkedArm labels stmt).map fun arm => { arm with labels := label :: arm.labels } := by
  have complete : isComplete n = true := by simp [isComplete, hi]
  have named : caseLabel? n = some label := by simp [caseLabel?, hk, Node.firstChild?, hi]
  simp only [checkedArm, List.all_cons, complete, Bool.true_and]
  split
  · simp [chainArm, Except.map, named, hk]
  · rfl

theorem checkedArm_incomplete (hk : n.kind = .caseStmt) (short : n.inner.length < 2)
    (labels : List Node) (stmt : Node) :
    checkedArm (n :: labels) stmt = .error (.switchShape "case without a statement") := by
  have incomplete : isComplete n = false := by simp [isComplete, hk, short]
  simp [checkedArm, incomplete]

end Chain

section Kinds

variable {info : Info} {filler inner : List Node}

theorem chain_of_case (h : info.kind = .caseStmt) :
    chain ⟨info, filler, inner⟩ = ⟨info, filler, inner⟩ :: chainOfLast inner := by
  simp only [chain, h]

theorem chain_of_default (h : info.kind = .defaultStmt) :
    chain ⟨info, filler, inner⟩ = ⟨info, filler, inner⟩ :: chainOfFirst inner := by
  simp only [chain, h]

theorem chain_of_not_label (h : ¬(info.kind = .caseStmt ∨ info.kind = .defaultStmt)) :
    chain ⟨info, filler, inner⟩ = [] := by
  unfold chain
  split <;> simp_all

end Kinds

mutual

theorem caseChain_eq : ∀ n : Node, caseChain n = checkedArm (chain n) (unlabelled n)
  | ⟨info, filler, inner⟩ => by
      unfold caseChain
      split
      · rename_i hk
        rw [unlabelled_of_case hk, chain_of_case hk]
        exact labelled_eq hk inner
      · rename_i hk
        rw [unlabelled_of_default hk, chain_of_default hk, checkedArm_default hk]
        cases inner with
        | nil => rfl
        | cons stmt rest => exact congrArg (Except.map _) (caseChain_eq stmt)
      · rename_i noCase noDefault
        have plain := not_or.mpr ⟨noCase, noDefault⟩
        rw [unlabelled_of_not_label plain, chain_of_not_label plain]
        rfl

theorem labelled_eq {info : Info} {filler : List Node} (hk : info.kind = .caseStmt) :
    ∀ l : List Node,
      labelled l = checkedArm (⟨info, filler, l⟩ :: chainOfLast l) (lastUnlabelled l)
  | [] => (checkedArm_incomplete (n := ⟨info, filler, []⟩) hk (by simp) _ _).symm
  | [label] => (checkedArm_incomplete (n := ⟨info, filler, [label]⟩) hk (by simp) _ _).symm
  | label :: stmt :: rest => by
      rw [labelled, lastChain_eq (stmt :: rest) (by simp),
        checkedArm_case (n := ⟨info, filler, label :: stmt :: rest⟩) hk rfl]
      rfl

theorem lastChain_eq :
    ∀ l : List Node, l ≠ [] → lastChain l = checkedArm (chainOfLast l) (lastUnlabelled l)
  | [], h => absurd rfl h
  | [n], _ => caseChain_eq n
  | _ :: stmt :: rest, _ => lastChain_eq (stmt :: rest) (by simp)

end

/-- The statements that an arm has of its own: the one below its labels, a block as what is in it,
and those that follow up to the next label. -/
def ownStatements : List Node → List Node
  | [] => []
  | label :: rest =>
      spliced (unlabelled label) ++
        (rest.takeWhile fun n => !isLabel n.kind).filter fun n => !n.kind.isAnnotation

theorem lead_eq (l : List Node) :
    lead l = (l.takeWhile fun n => !isLabel n.kind).filter fun n => !n.kind.isAnnotation := by
  induction l with
  | nil => rfl
  | cons child rest ih =>
      by_cases label : child.kind = .caseStmt ∨ child.kind = .defaultStmt
      · simp [lead, label, isLabel_of_label label]
      · rw [lead, if_neg label, ih]
        by_cases annotation : child.kind.isAnnotation = true <;>
          simp [isLabel_of_not_label label, annotation]

/-- The arm that is entered at a place of the body, before it runs on. -/
def entryArm : List Node → Arm
  | [] => {}
  | label :: rest => chainArm (chain label) (ownStatements (label :: rest))

theorem caseChain_ok {label : Node} {arm : Arm} (h : caseChain label = .ok arm) (rest : List Node) :
    isWhole label = true ∧
      ({ arm with body := arm.body ++ lead rest } : Arm) = entryArm (label :: rest) := by
  rw [caseChain_eq, checkedArm] at h
  split at h
  · cases h
    refine ⟨‹_›, ?_⟩
    rw [lead_eq]
    rfl
  · cases h

theorem groups_eq {children : List Node} {raw : List Arm} (h : groups children = .ok raw) :
    raw = (entries children).map entryArm := by
  induction children generalizing raw with
  | nil => cases h; rfl
  | cons child rest ih =>
      rw [entries]
      by_cases label : child.kind = .caseStmt ∨ child.kind = .defaultStmt
      · obtain ⟨arm, others, hc, hg, rfl⟩ := groups_cons_inv label h
        rw [if_pos label, List.map_cons, ← ih hg, (caseChain_ok hc rest).2]
      · rw [groups, if_neg label] at h
        rw [if_neg label, ih h]

/-- Something stands before the first label, or a case lacks its statement. -/
def Misshapen (children : List Node) : Prop :=
  (∃ child ∈ children.takeWhile fun n => !isLabel n.kind, child.kind.isAnnotation = false) ∨
    ∃ child ∈ children, isLabel child.kind = true ∧
      ∃ label ∈ chain child, label.kind = .caseStmt ∧ label.inner.length < 2

theorem misshapen_iff {children : List Node} :
    Misshapen children ↔ lead children ≠ [] ∨
      ∃ child ∈ children, isLabel child.kind = true ∧ isWhole child = false := by
  have broken (child : Node) : isWhole child = false ↔
      ∃ label ∈ chain child, label.kind = .caseStmt ∧ label.inner.length < 2 := by
    simp [isWhole, isComplete]
  simp only [Misshapen, broken, lead_eq]
  refine or_congr_left ?_
  simp [List.filter_eq_nil_iff]

theorem splitArms_error_iff (arms : List Arm) (children : List Node) :
    (∃ e, splitArms arms children = .error e) ↔
      (arms = [] ∧ lead children ≠ []) ∨
        ∃ child ∈ children, isLabel child.kind = true ∧ isWhole child = false := by
  fun_induction splitArms arms children with
  | case1 => simp [lead]
  | case2 arms child rest label arm hchain ih =>
      rw [ih]
      simp [lead, label, (caseChain_ok hchain rest).1]
  | case3 arms child rest label e hchain =>
      have broken : isWhole child = false := by
        rw [caseChain_eq, checkedArm] at hchain
        split at hchain
        · cases hchain
        · rename_i incomplete
          simpa [isWhole] using incomplete
      simp [isLabel_of_label label, broken]
  | case4 arms child rest label annotation ih =>
      rw [ih]
      simp [lead, label, annotation, isLabel_of_not_label label]
  | case5 arms child rest label annotation empty =>
      have none : arms = [] := List.isEmpty_iff.mp empty
      simp [lead, label, annotation, none]
  | case6 arms child rest label annotation some ih =>
      have there : arms ≠ [] := by simpa using some
      have still : appendToLast child arms ≠ [] := by
        fun_cases appendToLast child arms <;> simp_all
      rw [ih]
      simp [isLabel_of_not_label label, there, still]

theorem splitArms_ok {children : List Node} {raw : List Arm}
    (h : splitArms [] children = .ok raw) : raw = (entries children).map entryArm :=
  groups_eq (groups_of_splitArms_nil h)

/-- The last statement that does anything. -/
def lastStatement? (l : List Node) : Option Node := (l.filter fun n => !isIdle n.kind).getLast?

/-- Statements whose last one is a jump, or a block that ends in a jump. -/
inductive EndsInJump : List Node → Prop where
  | jump {l : List Node} {n : Node} (last : lastStatement? l = some n)
      (kind : isJump n.kind = true) : EndsInJump l
  | block {l : List Node} {n : Node} (last : lastStatement? l = some n)
      (kind : n.kind = .compoundStmt) (inside : EndsInJump n.inner) : EndsInJump l

theorem lastStatement?_of_idle {n : Node} {rest : List Node}
    (h : rest.all (fun m => isIdle m.kind) = true) :
    lastStatement? (n :: rest) = if isIdle n.kind then none else some n := by
  have nothing : rest.filter (fun m => !isIdle m.kind) = [] := by
    simpa [List.filter_eq_nil_iff] using h
  rw [lastStatement?, List.filter_cons, nothing]
  cases isIdle n.kind <;> rfl

theorem lastStatement?_of_not_idle {n : Node} {rest : List Node}
    (h : ¬rest.all (fun m => isIdle m.kind) = true) :
    lastStatement? (n :: rest) = lastStatement? rest := by
  have something : rest.filter (fun m => !isIdle m.kind) ≠ [] := by
    simpa [List.filter_eq_nil_iff] using h
  rw [lastStatement?, lastStatement?, List.filter_cons]
  split
  · obtain ⟨first, others, hf⟩ := List.exists_cons_of_ne_nil something
    rw [hf, List.getLast?_cons_cons]
  · rfl

theorem lastLeaves_eq (l : List Node) : lastLeaves l = (lastStatement? l).any leaves := by
  induction l with
  | nil => rfl
  | cons n rest ih =>
      rw [lastLeaves]
      split
      · rw [lastStatement?_of_idle ‹_›]
        cases isIdle n.kind <;> simp
      · rw [lastStatement?_of_not_idle ‹_›, ih]

theorem EndsInJump.lastLeaves {l : List Node} (h : EndsInJump l) : lastLeaves l = true := by
  induction h with
  | @jump l n last kind =>
      rw [lastLeaves_eq, last, Option.any_some]
      have noBlock : n.kind ≠ .compoundStmt := by
        intro hk
        rw [hk] at kind
        cases kind
      rcases n with ⟨info, filler, inner⟩
      rwa [leaves, if_neg noBlock]
  | @block l n last kind inside ih =>
      rw [lastLeaves_eq, last, Option.any_some]
      rcases n with ⟨info, filler, inner⟩
      rwa [leaves, if_pos kind]

mutual

theorem endsInJump_of_leaves :
    ∀ {n : Node} {l : List Node}, lastStatement? l = some n → leaves n = true → EndsInJump l
  | ⟨info, filler, inner⟩, l, last, h => by
      rw [leaves] at h
      split at h
      · exact .block last ‹_› (endsInJump_of_lastLeaves h)
      · exact .jump last h

theorem endsInJump_of_lastLeaves : ∀ {l : List Node}, lastLeaves l = true → EndsInJump l
  | [], h => by cases h
  | n :: rest, h => by
      rw [lastLeaves] at h
      split at h
      · rename_i idle
        obtain ⟨acts, leaves⟩ := Bool.and_eq_true_iff.mp h
        have acts : isIdle n.kind = false := by simpa using acts
        refine endsInJump_of_leaves ?_ leaves
        rw [lastStatement?_of_idle idle, acts]
        rfl
      · rename_i busy
        -- The first statement does not matter to the last one.
        have same := lastStatement?_of_not_idle (n := n) busy
        cases endsInJump_of_lastLeaves h with
        | jump last kind => exact .jump (same.trans last) kind
        | block last kind inside => exact .block (same.trans last) kind inside

end

theorem lastLeaves_iff {l : List Node} : lastLeaves l = true ↔ EndsInJump l :=
  ⟨endsInJump_of_lastLeaves, EndsInJump.lastLeaves⟩

/-- An arm does not run on: it has no statements of its own, ends in a jump or is the last one. -/
def Stops (owns : List (List Node)) (j : Nat) : Prop :=
  ∃ own, owns[j]? = some own ∧ (own = [] ∨ EndsInJump own ∨ j + 1 = owns.length)

theorem stops_succ_iff {own : List Node} {owns : List (List Node)} {j : Nat} :
    Stops (own :: owns) (j + 1) ↔ Stops owns j := by
  simp [Stops]

/-- The first arm from `i` on that does not run on. -/
structure RunsTo (owns : List (List Node)) (i j : Nat) : Prop where
  le : i ≤ j
  stops : Stops owns j
  before : ∀ k, i ≤ k → k < j → ¬Stops owns k

theorem RunsTo.succ {own : List Node} {owns : List (List Node)} {i j : Nat}
    (h : RunsTo owns i j) : RunsTo (own :: owns) (i + 1) (j + 1) := by
  refine ⟨Nat.succ_le_succ h.le, stops_succ_iff.mpr h.stops, fun k hi hj => ?_⟩
  cases k with
  | zero => cases hi
  | succ k => exact fun hs => h.before k (by omega) (by omega) (stops_succ_iff.mp hs)

theorem RunsTo.goesOn {own : List Node} {owns : List (List Node)} {j : Nat}
    (first : ¬Stops (own :: owns) 0) (h : RunsTo owns 0 j) : RunsTo (own :: owns) 0 (j + 1) := by
  refine ⟨Nat.zero_le _, stops_succ_iff.mpr h.stops, fun k _ hj => ?_⟩
  cases k with
  | zero => exact first
  | succ k => exact fun hs => h.before k (Nat.zero_le k) (by omega) (stops_succ_iff.mp hs)

theorem exists_runsTo {arms : List Arm} {i : Nat} (hi : i < arms.length) :
    ∃ j, RunsTo (arms.map Arm.body) i j ∧
      bodyFrom (arms.drop i) = (((arms.map Arm.body).take (j + 1)).drop i).flatten := by
  induction arms generalizing i with
  | nil => cases hi
  | cons arm rest ih =>
      cases i with
      | succ i =>
          obtain ⟨j, runs, body⟩ := ih (Nat.lt_of_succ_lt_succ hi)
          exact ⟨j + 1, runs.succ, body⟩
      | zero =>
          have stops : Stops ((arm :: rest).map Arm.body) 0 ↔
              (arm.body.isEmpty || lastLeaves arm.body) = true ∨ rest = [] := by
            simp [Stops, lastLeaves_iff, or_assoc]
          simp only [List.drop_zero]
          rw [bodyFrom]
          by_cases here : (arm.body.isEmpty || lastLeaves arm.body) = true
          · refine ⟨0, ⟨Nat.le_refl 0, stops.mpr (.inl here), fun k _ hk => by omega⟩, ?_⟩
            rw [if_pos here]
            simp
          · rw [if_neg here]
            cases rest with
            | nil =>
                refine ⟨0, ⟨Nat.le_refl 0, stops.mpr (.inr rfl), fun k _ hk => by omega⟩, ?_⟩
                simp [bodyFrom]
            | cons next rest =>
                obtain ⟨j, runs, body⟩ := ih (i := 0) (by simp)
                have first : ¬Stops ((arm :: next :: rest).map Arm.body) 0 := by
                  rw [stops]
                  simpa using here
                refine ⟨j + 1, runs.goesOn first, ?_⟩
                simp only [List.drop_zero] at body
                rw [body]
                simp

end VFromC.Emit
