import VFromC.Proofs.Run.Paths
import VFromC.Proofs.Run.Retraced
import VFromC.Proofs.Run.Stored
/-!
What the units of a directory hold after a run. Two C files of one directory can have one unit path.
The main statement says when they do, and that the path then holds the text of the last of them, or
the globals if these go to the same place.
-/
namespace VFromC.Run
open FileStore

section Places

variable {ds : List Delivery} {a b : FileStore} {d e : Delivery} {out : Option String}
  {dir name other : String}

theorem unit_apart_from_unit (h : deliverAll ds a = .ok b) (hd : d ∈ ds) (he : e ∈ ds)
    (hn : IsSource name) (ho : IsSource other) (unit : d.path = unitPath out (joined dir name))
    (unit' : e.path = unitPath out (joined dir other)) (ne : e.path ≠ d.path) :
    b.locate e.path ≠ b.locate d.path := by
  have spelled := segments_unitPath hn out dir
  have spelled' := segments_unitPath ho out dir
  rw [← unit] at spelled
  rw [← unit'] at spelled'
  apply locate_ne_of_last h he hd spelled' spelled
  intro same
  apply ne
  rw [unit, unit', unitPath_eq_iff ho hn]
  exact same

/-- A unit and a tree that is kept have different endings, so they never meet. -/
theorem unit_apart_from_tree (h : deliverAll ds a = .ok b) (hd : d ∈ ds) (he : e ∈ ds)
    (hn : IsSource name) (ho : IsSource other) (unit : d.path = unitPath out (joined dir name))
    (tree : e.path = withExtension (joined dir other) "json") :
    b.locate e.path ≠ b.locate d.path := by
  have spelled := segments_unitPath hn out dir
  obtain ⟨last, spelled', ending⟩ := segments_keptTree ho dir
  rw [← unit] at spelled
  rw [← tree] at spelled'
  apply locate_ne_of_last h he hd spelled' spelled
  intro same
  have letter := ending (isName_of_delivered h he spelled')
  rw [same, getLast?_unitName (isName_of_delivered h hd spelled)] at letter
  cases letter

end Places

namespace Start

variable {s : Start} {dir : String}

/-- The names of the C files in a directory. -/
def sources (s : Start) (dir : String) : List String :=
  (s.files.fileNames dir).filter fun name => extension? name = some "c"

/-- Where the unit of a file that was done stands. -/
def unitOf (s : Start) (d : Done) : String := unitPath s.options.outputDir d.path

theorem isSource_of_mem (plain : ∀ name ∈ s.files.fileNames dir, '/' ∉ name.toList) {name : String}
    (h : name ∈ s.sources dir) : IsSource name := by
  obtain ⟨listed, isC⟩ := List.mem_filter.1 h
  exact ⟨of_decide_eq_true isC, plain name listed⟩

theorem source_of_path (inputs : s.options.inputs = [dir]) (isDir : s.files.isDir dir = true)
    (plain : ∀ name ∈ s.files.fileNames dir, '/' ∉ name.toList) {path : String}
    (h : path ∈ s.paths) : ∃ name, IsSource name ∧ path = joined dir name := by
  rw [paths, inputs, List.flatMap_singleton, standsFor, if_pos isDir] at h
  obtain ⟨name, listed, rfl⟩ := List.mem_map.1 h
  exact ⟨name, isSource_of_mem plain (List.mem_mergeSort.1 listed), rfl⟩

theorem globals_of_directory (inputs : s.options.inputs = [dir])
    (isDir : s.files.isDir dir = true) (batch : Batch) :
    s.globals batch = [s.globalsFor dir batch] := by
  have first : s.dir? = some dir := by
    rw [dir?, inputs, List.find?_singleton, if_pos isDir]
  rw [globals, first]
  rfl

section Done

variable {done before after : List Done} {d e : Done} {files : FileStore} {batch last : Batch}
  {more : List Delivery} {final : FileStore}

/-- Nothing that is delivered for a file of the directory goes to the place of another unit path. -/
theorem deliveries_apart (does : s.Does batch s.files done last files)
    (sources : ∀ d ∈ done, ∃ name, IsSource name ∧ d.path = joined dir name)
    (h : deliverAll (done.flatMap s.deliveriesOf ++ more) s.files = .ok final)
    (hd : d ∈ done) (he : e ∈ done) (ne : s.unitOf e ≠ s.unitOf d) {x : Delivery}
    (hx : x ∈ s.deliveriesOf e) : final.locate x.path ≠ final.locate (s.unitOf d) := by
  obtain ⟨name, isSource, path⟩ := sources d hd
  obtain ⟨other, isSource', path'⟩ := sources e he
  have all : ∀ {d x}, d ∈ done → x ∈ s.deliveriesOf d →
      x ∈ done.flatMap s.deliveriesOf ++ more := by
    intro d x hd hx
    exact List.mem_append_left _ (List.mem_flatMap.2 ⟨d, hd, hx⟩)
  have unit : s.unitFor d.path d.text ∈ s.deliveriesOf d :=
    List.mem_append_right _ List.mem_cons_self
  have unitPath_d : (s.unitFor d.path d.text).path =
      unitPath s.options.outputDir (joined dir name) := by
    rw [← path]
    rfl
  rcases List.mem_append.1 hx with kept | unit'
  · apply unit_apart_from_tree h (all hd unit) (all he hx) isSource isSource' unitPath_d
    rw [← path']
    exact does.kept_path he kept
  · rw [List.mem_singleton] at unit'
    subst unit'
    apply unit_apart_from_unit h (all hd unit) (all he hx) isSource isSource' unitPath_d _ ne
    rw [← path']
    rfl

/-- The last of the files with a unit path has its text there, unless the globals go there too. -/
theorem lastAt_unitOf (g : Delivery) (does : s.Does batch s.files done last files)
    (sources : ∀ d ∈ done, ∃ name, IsSource name ∧ d.path = joined dir name)
    (h : deliverAll (done.flatMap s.deliveriesOf ++ [g]) s.files = .ok final)
    (split : done = before ++ d :: after) (alone : ∀ e ∈ after, s.unitOf e ≠ s.unitOf d) :
    lastAt final (s.unitOf d) (done.flatMap s.deliveriesOf ++ [g]) =
      some (if final.locate g.path = final.locate (s.unitOf d) then g.text else d.text) := by
  have hd : d ∈ done := by
    rw [split]
    exact List.mem_append_right _ List.mem_cons_self
  have later : lastAt final (s.unitOf d) (after.flatMap s.deliveriesOf) = none := by
    apply lastAt_of_apart
    intro x hx
    obtain ⟨e, he, hx⟩ := List.mem_flatMap.1 hx
    have he' : e ∈ done := by
      rw [split]
      exact List.mem_append_right _ (List.mem_cons_of_mem d he)
    exact deliveries_apart does sources h hd he' (alone e he) hx
  have own : lastAt final (s.unitOf d) (s.deliveriesOf d) = some d.text := by
    rw [deliveriesOf, lastAt_append, lastAt_singleton (by rfl)]
    rfl
  have units : lastAt final (s.unitOf d) (done.flatMap s.deliveriesOf) = some d.text := by
    rw [split, List.flatMap_append, List.flatMap_cons, lastAt_append, lastAt_append, later, own]
    rfl
  rw [lastAt_append, units]
  split
  · rename_i same
    rw [lastAt_singleton same]
    rfl
  · rename_i other
    rw [lastAt_of_apart fun e he => by rw [List.mem_singleton.1 he]; exact other]
    rfl

end Done

end Start

open Start

/-- Two C files of a directory have one unit path just when their stems are names that agree before
their last dots. In a run that succeeds a unit path holds the text of the last file with that path,
or the globals if they go to the same place. -/
theorem unit_paths_hold_last_texts (s : Start) (dir : String) (inputs : s.options.inputs = [dir])
    (isDir : s.files.isDir dir = true)
    (plain : ∀ name ∈ s.files.fileNames dir, '/' ∉ name.toList) :
    (∀ a ∈ s.sources dir, ∀ b ∈ s.sources dir, a ≠ b →
      (unitPath s.options.outputDir (joined dir a) = unitPath s.options.outputDir (joined dir b) ↔
        isName (stemOf a) = true ∧ isName (stemOf b) = true ∧
          (cutName (stemOf a)).1 = (cutName (stemOf b)).1)) ∧
    ∀ outputs w, Ran (run (World.site s.frontEnd) s.options) s.world (.ok outputs) w →
      ∃ done last files, s.Does s.fresh s.files done last files ∧
        (done.map Done.path).Sublist s.paths ∧ outputs.units = done.map s.unitOf ∧
        ∀ before d after, done = before ++ d :: after →
          (∀ e ∈ after, s.unitOf e ≠ s.unitOf d) →
          w.files.readText (s.unitOf d) =
            .ok (if w.files.locate (s.globalsFor dir last).path = w.files.locate (s.unitOf d)
              then last.globalsFile else d.text) := by
  constructor
  · intro a ha b hb ne
    have sa := isSource_of_mem plain ha
    have sb := isSource_of_mem plain hb
    rw [unitPath_eq_iff sa sb]
    exact unitName_eq_iff sa.filled sb.filled (sa.stemOf_ne sb ne)
  · intro outputs w ran
    obtain ⟨done, last, files, does, sub, units, globals⟩ := run_of_ran ran
    refine ⟨done, last, files, does, sub, units, ?_⟩
    intro before d after split alone
    have delivered_all :
        deliverAll (done.flatMap s.deliveriesOf ++ [s.globalsFor dir last]) s.files =
          .ok w.files := by
      rw [← globals_of_directory inputs isDir, deliverAll_append, does.delivered]
      exact globals
    have sources : ∀ d ∈ done, ∃ name, IsSource name ∧ d.path = joined dir name := by
      intro d hd
      exact source_of_path inputs isDir plain (sub.subset (List.mem_map_of_mem hd))
    have unit : s.unitFor d.path d.text ∈
        done.flatMap s.deliveriesOf ++ [s.globalsFor dir last] := by
      rw [split]
      simp [deliveriesOf]
    obtain ⟨_, _, _, read⟩ := delivered delivered_all unit
    have last_text := lastAt_unitOf (s.globalsFor dir last) does sources delivered_all split alone
    have text : (w.files.readText (s.unitOf d)).toOption = some _ := read.trans last_text
    cases found : w.files.readText (s.unitOf d) with
    | error cause => rw [found] at text; cases text
    | ok t =>
        rw [found] at text
        cases text
        rfl

/-- A front end that finds one alias in `d/a.c` and nothing in other files. -/
def aliasFrontEnd : FrontEnd := fun _ command =>
  if "d/a.c" ∈ command.arguments then
    .ok { stdout := ("\x7b\"kind\":\"TranslationUnitDecl\",\"inner\":[\x7b\"kind\":\"TypedefDecl\"" ++
      ",\"name\":\"T\",\"type\":\x7b\"qualType\":\"int\"\x7d,\"loc\":\x7b\"offset\":1,\"file\":\"a\"\x7d\x7d]\x7d").toUTF8 }
  else .ok { stdout := "\x7b\"kind\":\"TranslationUnitDecl\"\x7d".toUTF8 }

/-- A directory with two files whose stems agree before their last dots. -/
def dottedStart : Start where
  frontEnd := aliasFrontEnd
  options := { inputs := ["d"] }
  files := { items := ([['d']], .directory) ::
    ["a.b.c", "a.c"].map fun name => ([['d'], name.toList], .file .empty) }

/-- Its files are done, and the second text stands where the first one was. -/
theorem dottedStart_ran :
    ∃ w, Ran (doInputs (World.site dottedStart.frontEnd) dottedStart.options dottedStart.fresh {}
        ["d/a.b.c", "d/a.c"] >>= dottedStart.ending) dottedStart.world
        (.ok { units := ["d/a.v", "d/a.v"], globals := some "d/_globals.v" }) w ∧
      w.files.readText "d/a.v" = .ok (unitHeader ++ "type T = int\n\n") ∧
      w.files.locate (joined "d" "_globals.v") ≠ w.files.locate "d/a.v" := by
  let steps := doInputs (World.site dottedStart.frontEnd) dottedStart.options dottedStart.fresh {}
    ["d/a.b.c", "d/a.c"] >>= dottedStart.ending
  have evaluated :
      (steps.run dottedStart.world).1 =
        .ok { units := ["d/a.v", "d/a.v"], globals := some "d/_globals.v" } ∧
      (steps.run dottedStart.world).2.files.readText "d/a.v" =
        .ok (unitHeader ++ "type T = int\n\n") ∧
      (steps.run dottedStart.world).2.files.locate (joined "d" "_globals.v") ≠
        (steps.run dottedStart.world).2.files.locate "d/a.v" := by
    decide +kernel
  exact ⟨_, ran_of_result evaluated.1, evaluated.2⟩

theorem dottedStart_loses_text :
    unitPath none "d/a.b.c" = unitPath none "d/a.c" ∧
      ∃ outputs w, Ran (run (World.site dottedStart.frontEnd) dottedStart.options) dottedStart.world
          (.ok outputs) w ∧ outputs.units = ["d/a.v", "d/a.v"] ∧
        ∃ x y : Done, x.path = "d/a.b.c" ∧ y.path = "d/a.c" ∧ x.text = unitHeader ∧
          y.text = unitHeader ++ "type T = int\n\n" ∧ w.files.readText "d/a.v" = .ok y.text := by
  have plain : ∀ name ∈ dottedStart.files.fileNames "d", '/' ∉ name.toList := by decide +kernel
  obtain ⟨collide, hold⟩ := unit_paths_hold_last_texts dottedStart "d" rfl (by decide +kernel) plain
  have paths : dottedStart.paths = ["d/a.b.c", "d/a.c"] := by
    rw [paths_of_directory dottedStart "d" ["a.b.c", "a.c"] rfl (by decide +kernel)
      (by decide +kernel) (by decide)]
    decide +kernel
  have some_paths : dottedStart.paths ≠ [] := by
    rw [paths]
    exact List.cons_ne_nil _ _
  constructor
  · exact (collide "a.b.c" (by decide +kernel) "a.c" (by decide +kernel) (by decide)).2
      (by decide +kernel)
  obtain ⟨w, steps, stored, elsewhere⟩ := dottedStart_ran
  rw [← paths] at steps
  have ran := run_eq some_paths steps
  obtain ⟨done, last, files, does, sub, units, holds⟩ := hold _ w ran
  have both : done.map Done.path = ["d/a.b.c", "d/a.c"] := by
    rw [paths] at sub
    apply sub.eq_of_length
    have counted := congrArg List.length units
    rw [List.length_map] at counted ⊢
    exact counted.symm
  obtain ⟨x, rest, rfl, first, both⟩ := List.map_eq_cons_iff.1 both
  obtain ⟨y, rest, rfl, second, both⟩ := List.map_eq_cons_iff.1 both
  obtain rfl := List.map_eq_nil_iff.1 both
  have text_x : x.text = unitHeader := by
    cases does with
    | more unit _ _ _ =>
        have computed : (((dottedStart.seeing dottedStart.files).unit dottedStart.fresh
            "d/a.b.c").map Prod.fst) = .ok unitHeader := by decide +kernel
        rw [first] at unit
        rw [unit] at computed
        exact Except.ok.inj computed
  have unit_y : dottedStart.unitOf y = "d/a.v" := by
    rw [unitOf, second]
    decide +kernel
  have held := holds [x] y [] rfl fun _ none_left => absurd none_left List.not_mem_nil
  rw [unit_y, if_neg (show ¬w.files.locate (dottedStart.globalsFor "d" last).path = _ from
    elsewhere)] at held
  refine ⟨_, w, ran, rfl, x, y, first, second, text_x, ?_, held⟩
  exact Except.ok.inj (held.symm.trans stored)

end VFromC.Run
