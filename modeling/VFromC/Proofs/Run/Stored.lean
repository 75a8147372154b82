import VFromC.Proofs.Run.Deliveries
import Mathlib.Data.List.Infix
/-!
What stands in the files after texts are delivered to them. A delivery puts its text at a place that
its path leads to from then on, and in the end a place holds the last of the texts that went there.
-/
namespace VFromC.Run

namespace FileStore

variable {a b c store : FileStore} {here route other : Route} {parts : List (List Char)} {item : Item}

section Put

theorem get?_put_self (below : route.isAbove = false) (item : Item) :
    (store.put route item).get? route = some item := by
  have none_left : (store.items.filter fun entry => entry.1 ≠ route).find?
      (fun entry => entry.1 = route) = none := by simp
  rw [get?, below, put, List.find?_append, none_left]
  simp

theorem get?_put_of_ne (ne : other ≠ route) (item : Item) :
    (store.put route item).get? other = store.get? other := by
  unfold get? put
  split
  · rfl
  · congr 1
    rw [List.find?_append, List.find?_filter, List.find?_singleton, if_neg (by simpa using ne.symm),
      Option.or_none]
    congr 1
    funext entry
    by_cases h : entry.1 = other
    · simp [h, ne]
    · simp [h]

end Put

theorem follow_cons_iff {s : List Char} {rest : List (List Char)} :
    store.follow here (s :: rest) = .ok route ↔
      (s = [] ∨ s = ['.']) ∧ store.follow here rest = .ok route ∨
      s = ['.', '.'] ∧ store.follow here.up rest = .ok route ∨
      isName s = true ∧ isTooLong s = false ∧
        (rest = [] ∧ here ++ [s] = route ∨
          rest ≠ [] ∧ store.get? (here ++ [s]) = some .directory ∧
            store.follow (here ++ [s]) rest = .ok route) := by
  rw [follow]
  by_cases idle : s = [] ∨ s = ['.']
  · rcases idle with rfl | rfl <;> simp [isName]
  by_cases dots : s = ['.', '.']
  · subst dots
    simp [isName]
  have named : isName s = true := by simp_all [isName]
  rw [if_neg idle, if_neg dots]
  cases long : isTooLong s with
  | true => simp [idle, dots]
  | false =>
      by_cases last : rest = []
      · simp [idle, dots, named, last]
      · cases there : store.get? (here ++ [s]) with
        | none => simp [idle, dots, last]
        | some item => cases item <;> simp [idle, dots, named, last]

/-- What is a directory stays one. -/
def KeepsDirs (a b : FileStore) : Prop :=
  ∀ route, a.get? route = some .directory → b.get? route = some .directory

theorem KeepsDirs.trans (h : KeepsDirs a b) (h' : KeepsDirs b c) : KeepsDirs a c :=
  fun route dir => h' route (h route dir)

/-- Only directories on the way decide where a path leads. -/
theorem KeepsDirs.follow (h : KeepsDirs a b) (followed : a.follow here parts = .ok route) :
    b.follow here parts = .ok route := by
  induction parts generalizing here with
  | nil => exact followed
  | cons s rest ih =>
      rw [follow_cons_iff] at followed ⊢
      rcases followed with ⟨idle, followed⟩ | ⟨dots, followed⟩ | ⟨named, short, last | more⟩
      · exact .inl ⟨idle, ih followed⟩
      · exact .inr (.inl ⟨dots, ih followed⟩)
      · exact .inr (.inr ⟨named, short, .inl last⟩)
      · obtain ⟨more, dir, followed⟩ := more
        exact .inr (.inr ⟨named, short, .inr ⟨more, h _ dir, ih followed⟩⟩)

theorem KeepsDirs.locate (h : KeepsDirs a b) {path : String} (located : a.locate path = .ok route) :
    b.locate path = .ok route := by
  obtain ⟨parts, spelled, followed⟩ := bind_eq_ok located
  rw [FileStore.locate, spelled]
  exact h.follow followed

/-- Making directories leaves what is there as it is. -/
theorem makeAlong_keeps (h : a.makeAlong here parts = .ok b) (there : a.get? route = some item) :
    b.get? route = some item := by
  induction parts generalizing a here with
  | nil => cases h; exact there
  | cons s rest ih =>
      rw [makeAlong] at h
      split at h
      · exact ih h there
      split at h
      · exact ih h there
      split at h
      · cases h
      cases free : a.get? (here ++ [s]) with
      | some found =>
          rw [free] at h
          cases found with
          | file content => cases h
          | directory => exact ih h there
      | none =>
          rw [free] at h
          refine ih h ((get?_put_of_ne ?_ _).trans there)
          rintro rfl
          cases free.symm.trans there

theorem makeDirs_keeps {path : String} (h : a.makeDirs path = .ok b)
    (there : a.get? route = some item) : b.get? route = some item := by
  obtain ⟨parts, -, made⟩ := bind_eq_ok h
  exact makeAlong_keeps made there

theorem locate_of_target {path : String} (h : a.locateTarget path = .ok route) :
    a.locate path = .ok route := by
  obtain ⟨parts, spelled, h⟩ := bind_eq_ok h
  rw [locate, spelled]
  split at h
  · obtain ⟨_, _, h⟩ := bind_eq_ok h
    cases h
  · exact h

theorem writeFile_ok {path : String} {content : ByteArray} (h : a.writeFile path content = .ok b) :
    ∃ route, a.locate path = .ok route ∧ a.get? route ≠ some .directory ∧
      b = a.put route (.file content) := by
  obtain ⟨route, target, h⟩ := bind_eq_ok h
  refine ⟨route, locate_of_target target, ?_⟩
  split at h
  · cases h
  · rename_i free
    cases h
    exact ⟨free, rfl⟩

section Names

/-- A path that ends with a name of a file leads to a place of that name. -/
theorem follow_named {front : List (List Char)} {last : List Char} (named : isName last = true)
    (h : store.follow here (front ++ [last]) = .ok route) : route.getLast? = some last := by
  induction front generalizing here with
  | nil =>
      rw [List.nil_append, follow_cons_iff] at h
      rcases h with ⟨rfl | rfl, _⟩ | ⟨rfl, _⟩ | ⟨_, _, ⟨_, rfl⟩ | ⟨more, _⟩⟩
      · cases named
      · cases named
      · cases named
      · exact List.getLast?_concat
      · exact absurd rfl more
  | cons s rest ih =>
      rw [List.cons_append, follow_cons_iff] at h
      rcases h with ⟨_, followed⟩ | ⟨_, followed⟩ | ⟨_, _, ⟨last, _⟩ | ⟨_, _, followed⟩⟩
      · exact ih followed
      · exact ih followed
      · exact absurd last (by simp)
      · exact ih followed

/-- Every place on the route is a directory. -/
def Open (store : FileStore) (route : Route) : Prop :=
  ∀ front, front <+: route → store.get? front = some .directory

theorem get?_of_isAbove (h : route.isAbove = true) : store.get? route = some .directory := if_pos h

theorem open_start (store : FileStore) (path : String) : store.Open (start path) := by
  intro front h
  apply get?_of_isAbove
  unfold start at h
  split at h
  · rcases List.prefix_concat_iff.1 (show front <+: [] ++ [['/']] from h) with rfl | h
    · decide
    · rw [List.prefix_nil.1 h]; decide
  · rw [List.prefix_nil.1 h]; decide

theorem Open.concat {s : List Char} (h : store.Open here)
    (dir : store.get? (here ++ [s]) = some .directory) : store.Open (here ++ [s]) := by
  intro front inside
  rcases List.prefix_concat_iff.1 inside with rfl | inside
  · exact dir
  · exact h front inside

theorem Open.up (h : store.Open here) : store.Open here.up := by
  unfold Route.up
  split
  · exact h
  · rename_i other
    split
    · rename_i outside
      apply h.concat
      apply get?_of_isAbove
      unfold Route.isAbove at outside ⊢
      rw [Bool.or_eq_true_iff] at outside ⊢
      rcases outside with outside | outside
      · exact absurd (of_decide_eq_true outside) other
      · right
        rw [List.all_append, outside]
        rfl
    · intro front inside
      exact h front (inside.trans (List.dropLast_prefix here))

/-- A path that does not end with a name of a file leads to a directory. -/
theorem follow_unnamed {front : List (List Char)} {last : List Char} (opened : store.Open here)
    (unnamed : ¬isName last = true) (h : store.follow here (front ++ [last]) = .ok route) :
    store.get? route = some .directory := by
  induction front generalizing here with
  | nil =>
      rw [List.nil_append, follow_cons_iff] at h
      rcases h with ⟨_, followed⟩ | ⟨_, followed⟩ | ⟨named, _⟩
      · cases followed
        exact opened _ (List.prefix_refl _)
      · cases followed
        exact opened.up _ (List.prefix_refl _)
      · exact absurd named unnamed
  | cons s rest ih =>
      rw [List.cons_append, follow_cons_iff] at h
      rcases h with ⟨_, followed⟩ | ⟨_, followed⟩ | ⟨_, _, ⟨last, _⟩ | ⟨_, dir, followed⟩⟩
      · exact ih opened followed
      · exact ih opened.up followed
      · exact absurd last (by simp)
      · exact ih (opened.concat dir) followed

theorem pathSegments_ok {path : String} (h : pathSegments path = .ok parts) :
    parts = segments path.toList := by
  unfold pathSegments at h
  repeat' split at h
  all_goals cases h
  rfl

theorem locate_last {path : String} {front : List (List Char)} {last : List Char}
    (located : store.locate path = .ok route) (file : store.get? route ≠ some .directory)
    (spelled : segments path.toList = front ++ [last]) :
    isName last = true ∧ route.getLast? = some last := by
  obtain ⟨parts, counted, followed⟩ := bind_eq_ok located
  rw [pathSegments_ok counted, spelled] at followed
  by_cases named : isName last = true
  · exact ⟨named, follow_named named followed⟩
  · exact absurd (follow_unnamed (open_start store path) named followed) file

end Names

end FileStore

open FileStore

/-- What a delivery comes to: its text stands at a place, and all that was elsewhere is still there. -/
structure Lands (d : Delivery) (a b : FileStore) (route : Route) : Prop where
  located : b.locate d.path = .ok route
  holds : b.get? route = some (.file d.text.toUTF8)
  keeps : ∀ other item, other ≠ route → a.get? other = some item → b.get? other = some item
  keepsDirs : KeepsDirs a b

theorem lands_of_writeFile {d : Delivery} {a b : FileStore}
    (h : a.writeFile d.path d.text.toUTF8 = .ok b) : ∃ route, Lands d a b route := by
  obtain ⟨route, located, free, rfl⟩ := writeFile_ok h
  have below : route.isAbove = false := by
    rw [← Bool.not_eq_true]
    exact fun outside => free (get?_of_isAbove outside)
  have keepsDirs : KeepsDirs a (a.put route (.file d.text.toUTF8)) := by
    intro other dir
    have ne : other ≠ route := by
      rintro rfl
      exact free dir
    rw [get?_put_of_ne ne, dir]
  exact ⟨route, keepsDirs.locate located, get?_put_self below _,
    fun other item ne there => (get?_put_of_ne ne _).trans there, keepsDirs⟩

theorem lands_of_into {d : Delivery} {a b : FileStore} (h : d.into a = .ok b) :
    ∃ route, Lands d a b route := by
  unfold Delivery.into at h
  split at h
  · exact lands_of_writeFile h
  · obtain ⟨made, making, writing⟩ := bind_eq_ok h
    obtain ⟨route, landed⟩ := lands_of_writeFile writing
    exact ⟨route, landed.located, landed.holds,
      fun other item ne there => landed.keeps other item ne (makeDirs_keeps making there),
      KeepsDirs.trans (fun _ dir => makeDirs_keeps making dir) landed.keepsDirs⟩

theorem keepsDirs_deliverAll {ds : List Delivery} {a b : FileStore} (h : deliverAll ds a = .ok b) :
    KeepsDirs a b := by
  induction ds generalizing a with
  | nil => cases h; exact fun _ dir => dir
  | cons d rest ih =>
      obtain ⟨next, into, h⟩ := bind_eq_ok h
      obtain ⟨_, landed⟩ := lands_of_into into
      exact landed.keepsDirs.trans (ih h)

/-- The last of the texts that are delivered to the place to which a path leads. -/
def lastAt (files : FileStore) (path : String) (ds : List Delivery) : Option String :=
  (ds.filter fun d => files.locate d.path = files.locate path).getLast?.map Delivery.text

section LastAt

variable {files a b : FileStore} {path : String} {d : Delivery} {ds es : List Delivery}

theorem lastAt_append (files : FileStore) (path : String) (ds es : List Delivery) :
    lastAt files path (ds ++ es) = (lastAt files path es).or (lastAt files path ds) := by
  unfold lastAt
  rw [List.filter_append, List.getLast?_append, Option.map_or]

theorem lastAt_singleton (same : files.locate d.path = files.locate path) :
    lastAt files path [d] = some d.text := by
  simp [lastAt, same]

theorem lastAt_of_apart (apart : ∀ e ∈ es, files.locate e.path ≠ files.locate path) :
    lastAt files path es = none := by
  have nothing : (es.filter fun e => files.locate e.path = files.locate path) = [] := by
    rw [List.filter_eq_nil_iff]
    intro e he
    simpa using apart e he
  rw [lastAt, nothing]
  rfl

/-- A file that is there before some deliveries holds the last of them that goes to its place. -/
theorem get?_deliverAll {route : Route} {content : ByteArray} (h : deliverAll ds a = .ok b)
    (there : a.get? route = some (.file content)) (located : b.locate path = .ok route) :
    b.get? route = some (.file (((lastAt b path ds).map String.toUTF8).getD content)) := by
  induction ds generalizing a content with
  | nil => cases h; exact there
  | cons d rest ih =>
      obtain ⟨next, into, h⟩ := bind_eq_ok h
      obtain ⟨place, landed⟩ := lands_of_into into
      have stays : b.locate d.path = .ok place := (keepsDirs_deliverAll h).locate landed.located
      rw [← List.singleton_append, lastAt_append]
      by_cases same : place = route
      · subst same
        rw [ih h landed.holds, lastAt_singleton (stays.trans located.symm)]
        cases lastAt b path rest <;> rfl
      · have apart : ∀ e ∈ [d], b.locate e.path ≠ b.locate path := by
          intro e he
          rw [List.mem_singleton.1 he, stays, located]
          exact fun equal => same (Except.ok.inj equal)
        rw [ih h (landed.keeps route _ (Ne.symm same) there), lastAt_of_apart apart, Option.or_none]

theorem fromUTF8?_toUTF8 (text : String) : String.fromUTF8? text.toUTF8 = some text := by
  rw [String.fromUTF8?, String.toUTF8_eq_toByteArray, dif_pos text.isValidUTF8]
  rfl

theorem readText_of_file {route : Route} {text : String} (located : b.locate path = .ok route)
    (there : b.get? route = some (.file text.toUTF8)) : b.readText path = .ok text := by
  have found : b.find path = .ok (.file text.toUTF8) := by
    rw [find, located, Except.bind, there]
  rw [readText, found]
  dsimp only
  rw [fromUTF8?_toUTF8]

/-- The place of each delivery is found in the end as well. It holds the last of the texts that went
there. -/
theorem delivered (h : deliverAll ds a = .ok b) (hd : d ∈ ds) :
    ∃ route, b.locate d.path = .ok route ∧ b.get? route ≠ some .directory ∧
      (b.readText d.path).toOption = lastAt b d.path ds := by
  obtain ⟨before, later, rfl⟩ := List.append_of_mem hd
  obtain ⟨middle, _, h⟩ := deliverAll_split h
  obtain ⟨next, into, h⟩ := bind_eq_ok h
  obtain ⟨route, landed⟩ := lands_of_into into
  have located := (keepsDirs_deliverAll h).locate landed.located
  have there := get?_deliverAll h landed.holds located
  have last : lastAt b d.path (before ++ d :: later) =
      some ((lastAt b d.path later).getD d.text) := by
    rw [lastAt_append, ← List.singleton_append, lastAt_append, lastAt_singleton rfl]
    cases lastAt b d.path later <;> rfl
  have text : b.get? route = some (.file ((lastAt b d.path later).getD d.text).toUTF8) := by
    rw [there]
    cases lastAt b d.path later <;> rfl
  refine ⟨route, located, ?_, ?_⟩
  · rw [text]
    simp
  · rw [readText_of_file located text, last]
    rfl

theorem isName_of_delivered {front : List (List Char)} {last : List Char}
    (h : deliverAll ds a = .ok b) (hd : d ∈ ds)
    (spelled : segments d.path.toList = front ++ [last]) : isName last = true := by
  obtain ⟨route, located, file, -⟩ := delivered h hd
  exact (locate_last located file spelled).1

/-- Deliveries whose paths end with different segments go to different places. -/
theorem locate_ne_of_last {e : Delivery} {front back : List (List Char)} {x y : List Char}
    (h : deliverAll ds a = .ok b) (hd : d ∈ ds) (he : e ∈ ds)
    (dx : segments d.path.toList = front ++ [x]) (ey : segments e.path.toList = back ++ [y])
    (ne : x ≠ y) : b.locate d.path ≠ b.locate e.path := by
  obtain ⟨route, located, file, -⟩ := delivered h hd
  obtain ⟨route', located', file', -⟩ := delivered h he
  intro same
  rw [located, located'] at same
  cases same
  have last := (locate_last located file dx).2
  rw [(locate_last located' file' ey).2] at last
  exact ne (Option.some.inj last).symm

end LastAt

end VFromC.Run
