import VFromC.Proofs.Output.Patch
/-!
Resolving jumps at the end gives what knowing all labels from the start gives.
-/
namespace VFromC.Output
open VFromC.Text

def Command.label? : Command → Option (String × String)
  | .label id name => some (id, name)
  | _ => none

def Command.jump? : Command → Option String
  | .jump id => some id
  | _ => none

/-- The command with the name of its label, where it is a jump. -/
def Command.named (names : String → Option String) : Command → Command
  | .jump id =>
      match names id with
      | some name => .line s!"goto {name}"
      | none => .jump id
  | c => c

def labelsOf (commands : List Command) : List (String × String) :=
  commands.filterMap Command.label?

/-- The name that commands give to a label. -/
def nameIn (commands : List Command) (id : String) : Option String :=
  (labelsOf commands).lookup id

def jumpsOf (commands : List Command) : List String := commands.filterMap Command.jump?

/-- Each label has one name. -/
def OneName (table : List (String × String)) : Prop :=
  ∀ id name name', (id, name) ∈ table → (id, name') ∈ table → name = name'

theorem lookup_eq_some_iff_mem {table : List (String × String)} (one : OneName table)
    {id name : String} : table.lookup id = some name ↔ (id, name) ∈ table := by
  refine ⟨mem_of_lookup, fun hm => ?_⟩
  cases hl : table.lookup id with
  | none => exact absurd (List.lookup_eq_none_iff.mp hl (id, name) hm) (by simp)
  | some name' => rw [one id name' name (mem_of_lookup hl) hm]

theorem lookup_reverse {table : List (String × String)} (one : OneName table) (id : String) :
    table.reverse.lookup id = table.lookup id := by
  have one' : OneName table.reverse := fun i n n' h h' =>
    one i n n' (List.mem_reverse.mp h) (List.mem_reverse.mp h')
  refine Option.ext fun name => ?_
  rw [lookup_eq_some_iff_mem one', lookup_eq_some_iff_mem one, List.mem_reverse]

theorem names_apply (d : Draft) (c : Command) :
    (d.apply c).labels.names = c.label?.toList ++ d.labels.names := by
  cases c with
  | jump id =>
      simp only [Draft.apply, Labels.target, Command.label?, Option.toList_none, List.nil_append]
      split <;> rfl
  | _ => rfl

theorem names_run (d : Draft) (commands : List Command) :
    (d.run commands).labels.names = (labelsOf commands).reverse ++ d.labels.names := by
  induction commands generalizing d with
  | nil => rfl
  | cons c rest ih =>
      change ((d.apply c).run rest).labels.names = _
      rw [ih, names_apply]
      cases c with
      | label id name => simp [labelsOf, Command.label?]
      | _ => rfl

section Unresolved

variable {names : String → Option String} {table : List (String × String)}

/-- Resolving fails at the first label without a name, and only there. -/
theorem resolveAll_error_iff {ids : List String} {text : String} {e : Fault} :
    Labels.resolveAll table ids text = .error e ↔
      ∃ id, ids.find? (fun id => (table.lookup id).isNone) = some id ∧ e = .unresolvedLabel id := by
  induction ids generalizing text with
  | nil => simp [Labels.resolveAll]
  | cons id ids ih =>
      rw [Labels.resolveAll]
      cases hl : table.lookup id with
      | none => simp [hl, eq_comm]
      | some name => simp only [hl, ih, List.find?_cons, Option.isNone_some]

theorem find?_insertName_append {p : String → Bool} (id : String) (ids rest : List String) :
    (insertName id ids ++ rest).find? p = (ids ++ id :: rest).find? p := by
  unfold insertName
  split
  · rename_i hm
    have hm : id ∈ ids := by simpa using hm
    by_cases hp : p id = true
    · obtain ⟨first, hf⟩ := Option.isSome_iff_exists.mp (List.find?_isSome.mpr ⟨id, hm, hp⟩)
      rw [List.find?_append, List.find?_append, hf]
      rfl
    · rw [List.find?_append, List.find?_append, List.find?_cons_of_neg hp]
  · rw [List.append_assoc, List.singleton_append]

theorem known_apply {d : Draft} (hd : ∀ id, d.labels.names.lookup id = names id) {c : Command}
    (hc : Agrees names c) (id : String) : (d.apply c).labels.names.lookup id = names id := by
  cases c with
  | label i name =>
      simp only [Draft.apply, lookup_define]
      split
      · rename_i same
        rw [same]
        exact hc.symm
      · exact hd id
  | _ =>
      rw [names_apply]
      exact hd id

theorem known_run {d : Draft} (hd : ∀ id, d.labels.names.lookup id = names id)
    {commands : List Command} (hc : ∀ c ∈ commands, Agrees names c) (id : String) :
    (d.run commands).labels.names.lookup id = names id := by
  induction commands generalizing d with
  | nil => exact hd id
  | cons c rest ih =>
      obtain ⟨first, others⟩ := List.forall_mem_cons.mp hc
      exact ih (known_apply hd first) others

/-- The first label without a name that waits is the first one without a name that is jumped to. -/
theorem find?_pending_run (d : Draft) (hd : ∀ id, d.labels.names.lookup id = names id)
    {commands : List Command} (hc : ∀ c ∈ commands, Agrees names c) :
    (d.run commands).labels.pending.find? (fun id => (names id).isNone) =
      (d.labels.pending ++ jumpsOf commands).find? fun id => (names id).isNone := by
  induction commands generalizing d with
  | nil => simp [Draft.run, jumpsOf]
  | cons c rest ih =>
      obtain ⟨first, others⟩ := List.forall_mem_cons.mp hc
      change ((d.apply c).run rest).labels.pending.find? _ = _
      rw [ih (d.apply c) (known_apply hd first) others]
      cases c with
      | jump id =>
          have jumps : jumpsOf (.jump id :: rest) = id :: jumpsOf rest := rfl
          rw [jumps]
          cases hn : names id with
          | some name =>
              have hk : d.labels.names.lookup id = some name := (hd id).trans hn
              simp [Draft.apply, target_known hk, List.find?_append, hn]
          | none =>
              have hk : d.labels.names.lookup id = none := (hd id).trans hn
              simp only [Draft.apply, target_unknown hk]
              exact find?_insertName_append id _ _
      | _ => rfl

end Unresolved

section Finish

variable {names : String → Option String} {d₁ d₂ : Draft}

theorem finish_of_all_named (h : Knows names d₁ d₂)
    (full : ∀ id, d₁.labels.names.lookup id = names id)
    (named : ∀ id ∈ d₁.labels.pending, ∃ name, names id = some name)
    (free : ¬ Labels.markStart.toList <:+: d₂.page.finish.toList) :
    d₁.finish = .ok d₂.page.finish := by
  obtain ⟨t, first, second, slots⟩ := h.page.endLine.done
  have text₁ : d₁.page.finish = String.ofList (t.fill (patched names [])) := by
    rw [Page.finish, ← first, String.ofList_toList]
  have text₂ : d₂.page.finish = String.ofList (t.fill (settled names)) := by
    rw [Page.finish, ← second, String.ofList_toList]
  have ids : ∀ id ∈ d₁.labels.pending, IsClean id ∧
      ∃ name, d₁.labels.names.lookup id = some name ∧ names id = some name := by
    intro id hid
    obtain ⟨name, hname⟩ := named id hid
    exact ⟨h.clean id hid, name, (full id).trans hname, hname⟩
  have free' : ¬ Labels.markStart.toList <:+: t.fill (settled names) := by
    rwa [text₂, String.toList_ofList] at free
  have settles : t.fill (patched names (d₁.labels.pending.reverse ++ [])) =
      t.fill (settled names) := by
    -- A target that was not known waits, and all that wait are settled.
    refine Jotted.fill_congr fun p hp => if_pos ?_
    cases hk : p.2.known with
    | true => exact .inl rfl
    | false => exact .inr (List.mem_append_left _ (List.mem_reverse.mpr ((slots p hp).2 hk)))
  rw [Draft.finish, Labels.resolve, text₁, text₂,
    resolveAll_patched ids (fun p hp => (slots p hp).1) free' [], settles]

theorem finish_eq (h : Knows names d₁ d₂) (full : ∀ id, d₁.labels.names.lookup id = names id)
    (free : ∀ text, d₂.finish = .ok text → ¬ Labels.markStart.toList <:+: text.toList) :
    d₁.finish = d₂.finish := by
  have same₁ : (fun id => (d₁.labels.names.lookup id).isNone) = fun id => (names id).isNone :=
    funext fun id => by rw [full]
  have same₂ : (fun id => (d₂.labels.names.lookup id).isNone) = fun id => (names id).isNone :=
    funext fun id => by rw [h.known]
  cases missing : d₁.labels.pending.find? fun id => (names id).isNone with
  | some id =>
      have error₁ : d₁.finish = .error (.unresolvedLabel id) :=
        resolveAll_error_iff.mpr ⟨id, by rw [same₁, missing], rfl⟩
      have error₂ : d₂.finish = .error (.unresolvedLabel id) := by
        refine resolveAll_error_iff.mpr ⟨id, ?_, rfl⟩
        rw [same₂, h.waiting, List.find?_filter, ← missing]
        congr 1
        funext id
        cases names id <;> rfl
      rw [error₁, error₂]
  | none =>
      have named : ∀ id ∈ d₁.labels.pending, ∃ name, names id = some name := by
        intro id hid
        have := List.find?_eq_none.mp missing id hid
        exact Option.ne_none_iff_exists'.mp (by simpa using this)
      have nothing : d₂.labels.pending = [] := by
        rw [h.waiting, List.filter_eq_nil_iff]
        exact List.find?_eq_none.mp missing
      have second : d₂.finish = .ok d₂.page.finish := by
        rw [Draft.finish, Labels.resolve, nothing, Labels.resolveAll]
      rw [second]
      exact finish_of_all_named h full named (free _ second)

end Finish

section Named

variable {names : String → Option String}

theorem apply_named {d d' : Draft} (page : d.page = d'.page) (place : d.place = d'.place)
    (hd : ∀ id, d.labels.names.lookup id = names id) {c : Command}
    (hn : ∀ id, c.jump? = some id → ∃ name, names id = some name) :
    (d.apply c).page = (d'.apply (c.named names)).page ∧
      (d.apply c).place = (d'.apply (c.named names)).place := by
  cases c with
  | jump id =>
      obtain ⟨name, hname⟩ := hn id rfl
      have hk : d.labels.names.lookup id = some name := (hd id).trans hname
      simp [Command.named, hname, Draft.apply, target_known hk, page, place]
  | _ => simp [Command.named, Draft.apply, page, place]

/-- A draft that knows all labels has the page of one on which every jump is a line with the name of
its label. -/
theorem page_run_named (d d' : Draft) (page : d.page = d'.page) (place : d.place = d'.place)
    (hd : ∀ id, d.labels.names.lookup id = names id) {commands : List Command}
    (hc : ∀ c ∈ commands, Agrees names c)
    (hn : ∀ id ∈ jumpsOf commands, ∃ name, names id = some name) :
    (d.run commands).page = (d'.run (commands.map (Command.named names))).page := by
  induction commands generalizing d d' with
  | nil => exact page
  | cons c rest ih =>
      obtain ⟨first, others⟩ := List.forall_mem_cons.mp hc
      have here : ∀ id, c.jump? = some id → ∃ name, names id = some name := fun id hj =>
        hn id (List.mem_filterMap.mpr ⟨c, List.mem_cons_self, hj⟩)
      have later : ∀ id ∈ jumpsOf rest, ∃ name, names id = some name := by
        intro id hid
        obtain ⟨c', hc', hj⟩ := List.mem_filterMap.mp hid
        exact hn id (List.mem_filterMap.mpr ⟨c', List.mem_cons_of_mem _ hc', hj⟩)
      obtain ⟨page', place'⟩ := apply_named page place hd here
      exact ih _ _ page' place' (known_apply hd first) others later

end Named

section Run

variable {commands : List Command}

/-- A draft that knows the labels that commands name. -/
def knowing (commands : List Command) : Draft := { labels := { names := labelsOf commands } }

theorem knowing_knows (commands : List Command) (id : String) :
    (knowing commands).labels.names.lookup id = nameIn commands id := rfl

theorem knows_start (commands : List Command) : Knows (nameIn commands) {} (knowing commands) where
  page := ⟨rfl, rfl, shows_empty, "", "", "", "", shows_empty, rfl, rfl, rfl, rfl⟩
  met := nofun
  known := knowing_knows commands
  waiting := rfl
  clean _ h := absurd h List.not_mem_nil

/-- Learning the labels on the way and replacing marks at the end gives what a draft gives that
knows the labels from the start. -/
theorem finish_run_eq (one : OneName (labelsOf commands))
    (words : ∀ id name, nameIn commands id = some name → IsWord name)
    (hc : ∀ c ∈ commands, Agrees (nameIn commands) c)
    (free : ∀ text, ((knowing commands).run commands).finish = .ok text →
      ¬ Labels.markStart.toList <:+: text.toList) :
    (({} : Draft).run commands).finish = ((knowing commands).run commands).finish := by
  refine finish_eq ((knows_start commands).run words hc) (fun id => ?_) free
  rw [names_run, List.append_nil, lookup_reverse one]
  rfl

theorem finish_run_error_iff (hc : ∀ c ∈ commands, Agrees (nameIn commands) c) {e : Fault} :
    ((knowing commands).run commands).finish = .error e ↔
      ∃ id, (jumpsOf commands).find? (fun id => (nameIn commands id).isNone) = some id ∧
        e = .unresolvedLabel id := by
  have waiting := find?_pending_run (knowing commands) (knowing_knows commands) hc
  rw [knowing, List.nil_append, ← knowing] at waiting
  rw [Draft.finish, Labels.resolve, resolveAll_error_iff]
  simp only [known_run (knowing_knows commands) hc, waiting]

theorem finish_run_ok (words : ∀ id name, nameIn commands id = some name → IsWord name)
    (hc : ∀ c ∈ commands, Agrees (nameIn commands) c) {text : String}
    (h : ((knowing commands).run commands).finish = .ok text) :
    text = (({} : Draft).run (commands.map (Command.named (nameIn commands)))).page.finish := by
  have none : (jumpsOf commands).find? (fun id => (nameIn commands id).isNone) = none := by
    refine Option.eq_none_iff_forall_ne_some.mpr fun id hid => ?_
    rw [(finish_run_error_iff hc).mpr ⟨id, hid, rfl⟩] at h
    cases h
  have named : ∀ id ∈ jumpsOf commands, ∃ name, nameIn commands id = some name := fun id hid =>
    Option.ne_none_iff_exists'.mp (by simpa using List.find?_eq_none.mp none id hid)
  have waiting := find?_pending_run (knowing commands) (knowing_knows commands) hc
  have nothing : ((knowing commands).run commands).labels.pending = [] := by
    rw [knowing, List.nil_append, ← knowing, none] at waiting
    have all := ((knows_start commands).run words hc).waiting
    refine List.eq_nil_iff_forall_not_mem.mpr fun id hid => ?_
    have missing := List.find?_eq_none.mp waiting id hid
    rw [all] at hid
    exact missing (List.mem_filter.mp hid).2
  have page := page_run_named (knowing commands) {} rfl rfl (knowing_knows commands) hc named
  rw [Draft.finish, Labels.resolve, nothing, Labels.resolveAll] at h
  cases h
  rw [page]

end Run

end VFromC.Output
