import VFromC.Emit.Arms
import VFromC.Proofs.Syntax.Below
/-!
What the arms of a switch are made of.
-/
namespace VFromC.Emit
open VFromC.Syntax

/-- All labels and statements of an arm have a property. -/
def Arm.All (P : Node → Prop) (arm : Arm) : Prop :=
  (∀ label ∈ arm.labels, P label) ∧ ∀ stmt ∈ arm.body, P stmt

section Except

variable {α β : Type} {r : Except Fault α} {f : α → β}

theorem ok_of_map_ok {b : β} (h : r.map f = .ok b) : ∃ a, r = .ok a ∧ b = f a := by
  cases r with
  | error => cases h
  | ok a => cases h; exact ⟨a, rfl, rfl⟩

theorem error_of_map_error {e : Fault} (h : r.map f = .error e) : r = .error e := by
  cases r with
  | ok => cases h
  | error => cases h; rfl

end Except

variable {P : Node → Prop}

/-- A property that goes from blocks and labelled statements to the nodes in them. -/
def GoesInside (P : Node → Prop) : Prop :=
  ∀ {m n : Node}, (n.kind = .compoundStmt ∨ n.kind = .caseStmt ∨ n.kind = .defaultStmt) →
    m ∈ n.inner → P n → P m

theorem goesInside_of_hereditary (hP : Node.Hereditary P) : GoesInside P :=
  fun _ hm => hP (.inl hm)

theorem goesInside_near (n : Node) : GoesInside n.Near := by
  intro m k kind hm near
  rcases kind with hk | hk | hk <;>
    exact near.trans (Node.not_setsPlace_of_kind hk) (Node.near_of_mem_inner hm)

theorem all_spliced (hP : GoesInside P) {n : Node} (hn : P n) : ∀ m ∈ spliced n, P m := by
  intro m hm
  unfold spliced at hm
  split at hm
  · exact hP (.inl ‹_›) hm hn
  · rwa [List.mem_singleton.mp hm]

mutual

theorem all_of_caseChain (hP : GoesInside P) :
    ∀ {n : Node} {arm : Arm}, P n → caseChain n = .ok arm → arm.All P
  | ⟨info, filler, inner⟩, arm, hn, h => by
      unfold caseChain at h
      split at h
      · exact all_of_labelled hP (fun m hm => hP (.inr (.inl ‹_›)) hm hn) h
      · have children : ∀ m ∈ inner, P m := fun m hm => hP (.inr (.inr ‹_›)) hm hn
        cases inner with
        | nil => cases h; exact ⟨by simp, by simp⟩
        | cons stmt rest =>
            obtain ⟨found, hc, rfl⟩ := ok_of_map_ok h
            have inner := all_of_caseChain hP (children stmt List.mem_cons_self) hc
            exact ⟨inner.1, inner.2⟩
      · cases h
        exact ⟨by simp, all_spliced hP hn⟩

theorem all_of_labelled (hP : GoesInside P) :
    ∀ {l : List Node} {arm : Arm}, (∀ m ∈ l, P m) → labelled l = .ok arm → arm.All P
  | [], _, _, h => by cases h
  | label :: rest, arm, hl, h => by
      unfold labelled at h
      obtain ⟨found, hc, rfl⟩ := ok_of_map_ok h
      have inner := all_of_lastChain hP (fun m hm => hl m (List.mem_cons_of_mem _ hm)) hc
      exact ⟨by simpa using ⟨hl label List.mem_cons_self, inner.1⟩, inner.2⟩

theorem all_of_lastChain (hP : GoesInside P) :
    ∀ {l : List Node} {arm : Arm}, (∀ m ∈ l, P m) → lastChain l = .ok arm → arm.All P
  | [], _, _, h => by cases h
  | [stmt], _, hl, h => all_of_caseChain hP (hl stmt List.mem_cons_self) h
  | _ :: stmt :: rest, _, hl, h =>
      all_of_lastChain hP (fun m hm => hl m (List.mem_cons_of_mem _ hm)) h

end

theorem all_appendToLast {stmt : Node} (hs : P stmt) {arms : List Arm}
    (h : ∀ arm ∈ arms, arm.All P) : ∀ arm ∈ appendToLast stmt arms, arm.All P := by
  fun_induction appendToLast stmt arms with
  | case1 => exact h
  | case2 arm =>
      intro a ha
      obtain rfl := List.mem_singleton.mp ha
      have harm := h arm List.mem_cons_self
      refine ⟨harm.1, fun m hm => ?_⟩
      rcases List.mem_append.mp hm with hm | hm
      · exact harm.2 m hm
      · rwa [List.mem_singleton.mp hm]
  | case3 arm rest _ ih =>
      intro a ha
      rcases List.mem_cons.mp ha with rfl | ha
      · exact h a List.mem_cons_self
      · exact ih (fun b hb => h b (List.mem_cons_of_mem _ hb)) a ha

theorem all_of_splitArms (hP : GoesInside P) {arms found : List Arm} {children : List Node}
    (ha : ∀ arm ∈ arms, arm.All P) (hc : ∀ m ∈ children, P m)
    (h : splitArms arms children = .ok found) : ∀ arm ∈ found, arm.All P := by
  fun_induction splitArms arms children with
  | case1 => cases h; exact ha
  | case2 arms child rest _ arm hchain ih =>
      refine ih ?_ (fun m hm => hc m (List.mem_cons_of_mem _ hm)) h
      intro a hmem
      rcases List.mem_append.mp hmem with hmem | hmem
      · exact ha a hmem
      · rw [List.mem_singleton.mp hmem]
        exact all_of_caseChain hP (hc child List.mem_cons_self) hchain
  | case3 | case5 => cases h
  | case4 arms child rest _ _ ih =>
      exact ih ha (fun m hm => hc m (List.mem_cons_of_mem _ hm)) h
  | case6 arms child rest _ _ _ ih =>
      exact ih (all_appendToLast (hc child List.mem_cons_self) ha)
        (fun m hm => hc m (List.mem_cons_of_mem _ hm)) h

/-- The statements that the first of some arms goes through when it runs on. -/
def bodyFrom : List Arm → List Node
  | [] => []
  | arm :: rest =>
      if arm.body.isEmpty || lastLeaves arm.body then arm.body else arm.body ++ bodyFrom rest

theorem runOn_cons (arm : Arm) (rest : List Arm) :
    runOn (arm :: rest) = { arm with body := bodyFrom (arm :: rest) } :: runOn rest := by
  induction rest generalizing arm with
  | nil =>
      simp only [runOn, bodyFrom, List.append_nil, ite_self]
  | cons next rest ih =>
      have head :
          ((runOn (next :: rest)).head?.map Arm.body).getD [] = bodyFrom (next :: rest) := by
        rw [ih next]
        rfl
      rw [runOn, head]
      · by_cases stops : (arm.body.isEmpty || lastLeaves arm.body) = true
        · rw [if_pos stops, bodyFrom, if_pos stops]
        · rw [if_neg stops, bodyFrom.eq_2 arm, if_neg stops]
      · exact nofun

theorem all_bodyFrom {arms : List Arm} (h : ∀ arm ∈ arms, arm.All P) :
    ∀ stmt ∈ bodyFrom arms, P stmt := by
  induction arms with
  | nil => simp [bodyFrom]
  | cons arm rest ih =>
      intro stmt hs
      have first := (h arm List.mem_cons_self).2
      rw [bodyFrom] at hs
      split at hs
      · exact first stmt hs
      · rcases List.mem_append.mp hs with hs | hs
        · exact first stmt hs
        · exact ih (fun a ha => h a (List.mem_cons_of_mem _ ha)) stmt hs

theorem all_runOn {arms : List Arm} (h : ∀ arm ∈ arms, arm.All P) :
    ∀ arm ∈ runOn arms, arm.All P := by
  induction arms with
  | nil => simp [runOn]
  | cons arm rest ih =>
      intro a ha
      rw [runOn_cons] at ha
      rcases List.mem_cons.mp ha with rfl | ha
      · exact ⟨(h arm List.mem_cons_self).1, all_bodyFrom h⟩
      · exact ih (fun b hb => h b (List.mem_cons_of_mem _ hb)) a ha

theorem all_of_collectArms (hP : GoesInside P) {body : Node} {arms : List Arm} (hb : P body)
    (h : collectArms body = .ok arms) : ∀ arm ∈ arms, arm.All P := by
  obtain ⟨found, hs, rfl⟩ := ok_of_map_ok h
  exact all_runOn (all_of_splitArms hP (by simp) (all_spliced hP hb) hs)

section Faults

variable {e : Fault}

mutual

theorem switchShape_of_caseChain :
    ∀ {n : Node}, caseChain n = .error e → ∃ what, e = .switchShape what
  | ⟨info, filler, inner⟩, h => by
      unfold caseChain at h
      split at h
      · exact switchShape_of_labelled h
      · cases inner with
        | nil => cases h
        | cons stmt rest => exact switchShape_of_caseChain (error_of_map_error h)
      · cases h

theorem switchShape_of_labelled :
    ∀ {l : List Node}, labelled l = .error e → ∃ what, e = .switchShape what
  | [], h => by cases h; exact ⟨_, rfl⟩
  | _ :: _, h => by
      unfold labelled at h
      exact switchShape_of_lastChain (error_of_map_error h)

theorem switchShape_of_lastChain :
    ∀ {l : List Node}, lastChain l = .error e → ∃ what, e = .switchShape what
  | [], h => by cases h; exact ⟨_, rfl⟩
  | [_], h => switchShape_of_caseChain h
  | _ :: stmt :: rest, h => switchShape_of_lastChain (l := stmt :: rest) h

end

theorem switchShape_of_splitArms {arms : List Arm} {children : List Node}
    (h : splitArms arms children = .error e) : ∃ what, e = .switchShape what := by
  fun_induction splitArms arms children with
  | case1 => cases h
  | case2 _ _ _ _ _ _ ih => exact ih h
  | case3 _ _ _ _ _ hc => cases h; exact switchShape_of_caseChain hc
  | case4 _ _ _ _ _ ih => exact ih h
  | case5 => cases h; exact ⟨_, rfl⟩
  | case6 _ _ _ _ _ _ ih => exact ih h

/-- The only fault of a switch body is its shape. -/
theorem switchShape_of_collectArms {body : Node} (h : collectArms body = .error e) :
    ∃ what, e = .switchShape what :=
  switchShape_of_splitArms (error_of_map_error h)

end Faults

end VFromC.Emit
