import Mathlib.Data.List.Nodup
import Phrasebook.Program.Run
import Phrasebook.Proofs.Dispatch
import Phrasebook.Proofs.Places

/-!
# Where reports go

A run without a console writes one report for each intent, at a path that is made of the intent's
name. All examples are there before the first of them is written.

* `Files.place_join`, `Program.reportPlace_eq`: a name without a slash is a file in the directory;
* `Program.writeReports_own`, `Program.writeReports_others`: the reports are there, and no other
  file is changed;
* `Program.run_reports`: the files that a run creates are its reports, in its directory, just when
  no name leads out of it or to the report of another.
-/

namespace Phrasebook

namespace Path

theorem endsWith_slash {path : String} (slashed : path.endsWith "/" = true) :
    path.toList.getLast? = some '/' := by
  obtain ⟨front, whole⟩ := String.Slice.endsWith_string_iff.mp slashed
  rw [String.copy_toSlice] at whole
  rw [← whole]
  exact List.getLast?_concat

end Path

namespace Files

variable {fs after : Files} {base name : String}

/-- A file is there that was not there before. -/
def Creates (fs after : Files) (place : Place) (content : List UInt8) : Prop :=
  (∃ t, after.get? place = some (.file content t)) ∧ ∀ old t, fs.get? place ≠ some (.file old t)

/-- A name that is joined to the path of a directory leads into it. -/
theorem place_join (proper : name ≠ "" ∧ name ≠ "." ∧ name ≠ "..") (slashless : '/' ∉ name.toList) :
    fs.place (Path.join base name) = name :: fs.place base := by
  have relative : ¬name.startsWith "/" = true := by
    rw [Path.startsWith_slash]
    exact fun slash => slashless (List.mem_of_mem_head? slash)
  by_cases empty : base = ""
  · subst empty
    have joined : Path.join "" name = name := by simp [Path.join]
    have nowhere : fs.place "" = fs.current := rfl
    rw [joined, nowhere, place, start, if_neg relative, Path.parts, Path.splitOn_name slashless,
      List.map_singleton, String.ofList_toList]
    exact Path.onward_name proper
  · obtain ⟨first, rest, whole⟩ := List.exists_cons_of_ne_nil (mt String.toList_eq_nil_iff.mp empty)
    have starts (behind : String) : fs.start (base ++ behind) = fs.start base := by
      rw [start, start]
      refine if_congr ?_ rfl rfl
      rw [Path.startsWith_slash, Path.startsWith_slash, String.toList_append, whole]
      rfl
    have filled : base.isEmpty = false := by simpa using empty
    by_cases slashed : base.endsWith "/" = true
    · have front : base.toList = [] ∨ base.toList.getLast? = some '/' :=
        .inr (Path.endsWith_slash slashed)
      have own : Path.parts base = Path.dirs base ++ [""] := by
        rw [← Path.parts_beside front (by decide), String.append_empty]
      have joined : Path.join base name = base ++ name := by
        simp [Path.join, relative, filled, slashed]
      rw [joined, place, place, starts, Path.parts_beside front slashless, own,
        Path.follow_name proper, Path.follow_append]
      rfl
    · have joined : Path.join base name = base ++ ("/" ++ name) := by
        simp [Path.join, relative, filled, slashed, String.append_assoc]
      have cut : Path.parts (base ++ ("/" ++ name)) = Path.parts base ++ [name] := by
        rw [Path.parts, Path.parts, String.toList_append, String.toList_append]
        change ((base.toList ++ '/' :: name.toList).splitOn '/').map String.ofList = _
        rw [Path.splitOn_slash, Path.splitOn_name slashless, List.map_append, List.map_singleton,
          String.ofList_toList]
      rw [joined, place, place, starts, cut, Path.follow_name proper]

end Files

namespace Generator

variable {g : Generator} {entropy : UInt64} {results : List (String × List Example)}

theorem generateAll_single {name : String} {examples : List Example}
    (named : g.store.intentNames = [name])
    (gives : ∀ w, (g.generate name none w).1 = .ok examples) :
    g.generateAll entropy = .ok [(name, examples)] := by
  rw [generateAll, named]
  simp only [seeds, List.map_cons, List.map_nil, gives]
  rfl

/-- Where one intent has no examples, there is no answer. -/
theorem generateAll_ne_ok {job : Job} (asked : job ∈ g.jobs entropy)
    (fails : ∀ examples, g.perform job ≠ .ok examples) : g.generateAll entropy ≠ .ok results := by
  intro ok
  have told : g.performed job ∈ (g.jobs entropy).map g.performed := List.mem_map_of_mem asked
  rw [generateAll_eq_ok ok] at told
  obtain ⟨r, -, same⟩ := List.mem_map.mp told
  exact fails r.2 (Prod.mk.inj same).2.symm

end Generator

namespace Program

variable {fs made after : Files} {directory name : String} {names : List String}
  {results : List (String × List Example)} {place : Place} {content : List UInt8} {t : Nat}

/-- The place of the report of an intent. -/
def reportPlace (fs : Files) (directory name : String) : Place :=
  fs.place (reportPath directory name)

/-- What the report with some examples holds. -/
def reportBytes (examples : List Example) : List UInt8 := Text.utf8 (Report.document examples)

theorem reportPlace_eq (slashless : '/' ∉ name.toList) :
    reportPlace fs directory name = (name ++ ".json") :: fs.place directory := by
  have long (short : String) (few : short.length < 5) : name ++ ".json" ≠ short := by
    rintro rfl
    rw [String.length_append] at few
    exact absurd few (Nat.not_lt.mpr (Nat.le_add_left _ _))
  refine Files.place_join ⟨long _ (by decide), long _ (by decide), long _ (by decide)⟩ ?_
  rw [String.toList_append, List.mem_append, not_or]
  exact ⟨slashless, by decide⟩

/-- The reports of the intents are different files, all in the directory. -/
structure Fits (fs : Files) (directory : String) (names : List String) : Prop where
  inside : ∀ name ∈ names, ∃ file, reportPlace fs directory name = file :: fs.place directory
  apart : (names.map (reportPlace fs directory)).Nodup

theorem fits_of_slashless (distinct : names.Nodup) (slashless : ∀ name ∈ names, '/' ∉ name.toList) :
    Fits fs directory names := by
  refine ⟨fun name there => ⟨_, reportPlace_eq (slashless name there)⟩, ?_⟩
  refine distinct.map_on fun a first b second same => ?_
  rw [reportPlace_eq (slashless a first), reportPlace_eq (slashless b second)] at same
  exact (String.append_left_inj _).mp (List.cons.inj same).1

/-- The files that were created are the reports, one for each intent, and no other was changed. -/
structure OnlyReports (fs after : Files) (directory : String)
    (results : List (String × List Example)) : Prop
    extends Fits fs directory (results.map Prod.fst) where
  created : ∀ place content, fs.Creates after place content ↔
    ∃ name examples, (name, examples) ∈ results ∧ place = reportPlace fs directory name ∧
      content = reportBytes examples
  kept : ∀ place content t, fs.get? place = some (.file content t) →
    after.get? place = some (.file content t)

/-! ## Writing -/

theorem writeReports_cons {examples : List Example} (same : made.current = fs.current)
    (h : writeReports directory made ((name, examples) :: results) = (after, none)) : ∃ next,
      made.Rewrites (reportPlace fs directory name) (reportBytes examples) next ∧
        writeReports directory next results = (after, none) := by
  unfold writeReports at h
  split at h
  · next next written =>
    have place : made.place (reportPath directory name) = reportPlace fs directory name :=
      Files.place_congr same _
    exact ⟨next, place ▸ Files.rewrites_of_write written, h⟩
  · cases h

theorem writeReports_others (same : made.current = fs.current)
    (h : writeReports directory made results = (after, none))
    (other : place ∉ results.map fun r => reportPlace fs directory r.1) :
    after.get? place = some (.file content t) ↔ made.get? place = some (.file content t) := by
  induction results generalizing made with
  | nil =>
    cases h
    exact .rfl
  | cons r results ih =>
    obtain ⟨next, changes, rest⟩ := writeReports_cons same h
    obtain ⟨first, later⟩ := not_or.mp (mt List.mem_cons.mpr other)
    exact (ih (changes.current.trans same) rest later).trans (changes.others place first).file

theorem writeReports_own (same : made.current = fs.current)
    (h : writeReports directory made results = (after, none))
    (apart : (results.map fun r => reportPlace fs directory r.1).Nodup) {examples : List Example}
    (there : (name, examples) ∈ results) :
    ∃ t, after.get? (reportPlace fs directory name) = some (.file (reportBytes examples) t) := by
  induction results generalizing made with
  | nil => cases there
  | cons r results ih =>
    obtain ⟨next, changes, rest⟩ := writeReports_cons same h
    obtain ⟨first, later⟩ := List.nodup_cons.mp apart
    have same := changes.current.trans same
    rcases List.mem_cons.mp there with rfl | there
    · exact ⟨_, (writeReports_others same rest first).mpr changes.file⟩
    · exact ih same rest later there

/-- Where the reports fit, they are what writing them creates. -/
theorem onlyReports_of_writeReports (same : fs.SameFiles made)
    (h : writeReports directory made results = (after, none))
    (fits : Fits fs directory (results.map Prod.fst))
    (clean : ∀ name content t, fs.get? (name :: fs.place directory) ≠ some (.file content t)) :
    OnlyReports fs after directory results := by
  have apart : (results.map fun r => reportPlace fs directory r.1).Nodup := by
    have apart := fits.apart
    rwa [List.map_map] at apart
  have others {place : Place} {content : List UInt8} {t : Nat}
      (other : place ∉ results.map fun r => reportPlace fs directory r.1) :
      after.get? place = some (.file content t) ↔ fs.get? place = some (.file content t) := by
    rw [← same.files]
    exact writeReports_others same.current h other
  have own {name : String} {examples : List Example} (there : (name, examples) ∈ results) :
      ∃ t, after.get? (reportPlace fs directory name) = some (.file (reportBytes examples) t) :=
    writeReports_own same.current h apart there
  have fresh {name : String} {examples : List Example} (there : (name, examples) ∈ results)
      (old : List UInt8) (t : Nat) :
      fs.get? (reportPlace fs directory name) ≠ some (.file old t) := by
    obtain ⟨file, inside⟩ := fits.inside name (List.mem_map_of_mem there)
    rw [inside]
    exact clean file old t
  refine ⟨fits, fun place content => ⟨?_, ?_⟩, fun place content t there => ?_⟩
  · rintro ⟨⟨t, there⟩, absent⟩
    by_cases report : place ∈ results.map fun r => reportPlace fs directory r.1
    · obtain ⟨⟨name, examples⟩, asked, rfl⟩ := List.mem_map.mp report
      obtain ⟨t', written⟩ := own asked
      obtain ⟨rfl, -⟩ := Entry.file.inj (Option.some.inj (there.symm.trans written))
      exact ⟨name, examples, asked, rfl, rfl⟩
    · exact absurd ((others report).mp there) (absent content t)
  · rintro ⟨name, examples, asked, rfl, rfl⟩
    exact ⟨own asked, fresh asked⟩
  · refine (others fun report => ?_).mpr there
    obtain ⟨⟨name, examples⟩, asked, rfl⟩ := List.mem_map.mp report
    exact fresh asked content t there

/-! ## Running -/

variable {g : Generator} {entropy : UInt64} {arguments : List String} {input : String}
  {a : Arguments} {settings : Settings} {store : Store}

/-- A run ends before any report, with the files as they were, or behind the reports, and then well
only if all of them could be written. -/
theorem batch_cases (g : Generator) (directory : String) (entropy : UInt64) (fs : Files) :
    (fs.SameFiles (batch g directory entropy fs).files ∧
      ((batch g directory entropy fs).code = 1 ∨
        (batch g directory entropy fs).code = 134 ∧ g.generateAll entropy = .overflow)) ∨
    ∃ made results fault, fs.SameFiles made ∧ g.generateAll entropy = .ok results ∧
      writeReports directory made results = ((batch g directory entropy fs).files, fault) ∧
      ((batch g directory entropy fs).code = 0 → fault = none) := by
  have same : fs.SameFiles (fs.createDirectories directory).1 :=
    Files.sameFiles_createDirectories directory
  unfold batch
  cases makes : fs.createDirectories directory with
  | mk made fault =>
    rw [makes] at same
    cases fault with
    | some fault => exact .inl ⟨same, .inl rfl⟩
    | none =>
      cases generates : g.generateAll entropy with
      | error e => exact .inl ⟨same, .inl rfl⟩
      | overflow => exact .inl ⟨same, .inr ⟨rfl, rfl⟩⟩
      | ok results =>
        dsimp only
        cases writes : writeReports directory made results with
        | mk after fault =>
          cases fault with
          | some fault => exact .inr ⟨made, results, some fault, same, rfl, writes, nofun⟩
          | none => exact .inr ⟨made, results, none, same, rfl, writes, fun _ => rfl⟩

theorem batch_eq_zero (well : (batch g directory entropy fs).code = 0) : ∃ made results,
    fs.SameFiles made ∧ g.generateAll entropy = .ok results ∧
      writeReports directory made results = ((batch g directory entropy fs).files, none) := by
  obtain ⟨-, failed | ⟨stopped, -⟩⟩ | ⟨made, results, fault, same, generates, writes, whole⟩ :=
    batch_cases g directory entropy fs
  · exact absurd (well.symm.trans failed) (by decide)
  · exact absurd (well.symm.trans stopped) (by decide)
  · exact ⟨made, results, same, generates, whole well ▸ writes⟩

/-- Without examples no file is touched. -/
theorem batch_failed (directory : String) (fs : Files)
    (fails : ∀ results, g.generateAll entropy ≠ .ok results) :
    fs.SameFiles (batch g directory entropy fs).files ∧
      ((batch g directory entropy fs).code = 1 ∨
        (batch g directory entropy fs).code = 134 ∧ g.generateAll entropy = .overflow) := by
  obtain kept | ⟨_, results, _, _, generates, _⟩ := batch_cases g directory entropy fs
  · exact kept
  · exact absurd generates (fails results)

theorem run_batch (reads : Arguments.read arguments = .ok a) (batched : a.interactive = false)
    (uncached : a.cache = false) (settled : a.settings = .ok settings)
    (loads : Template.load fs a.template = .ok store) :
    run arguments input entropy fs = batch ⟨store, settings⟩ a.output entropy fs := by
  rw [run, reads]
  dsimp only
  rw [settled, load, uncached]
  dsimp only
  rw [if_neg Bool.false_ne_true, loads]
  dsimp only
  exact if_neg (by simp [batched])

/-- A run that ends well has loaded its template. -/
theorem run_eq_zero (reads : Arguments.read arguments = .ok a) (batched : a.interactive = false)
    (uncached : a.cache = false) (well : (run arguments input entropy fs).code = 0) :
    ∃ settings store, a.settings = .ok settings ∧ Template.load fs a.template = .ok store ∧
      run arguments input entropy fs = batch ⟨store, settings⟩ a.output entropy fs := by
  cases settled : a.settings with
  | error e => simp [run, reads, settled] at well
  | ok settings =>
    cases loads : Template.load fs a.template with
    | error e => simp [run, reads, settled, load, uncached, loads, Ending.failed] at well
    | ok store => exact ⟨settings, store, rfl, rfl, run_batch reads batched uncached settled loads⟩

/-- A run that loads, generates and writes ends well. -/
theorem run_written (reads : Arguments.read arguments = .ok a) (batched : a.interactive = false)
    (uncached : a.cache = false) (settled : a.settings = .ok settings)
    (loads : Template.load fs a.template = .ok store)
    (makes : fs.createDirectories a.output = (made, none))
    (generates : (⟨store, settings⟩ : Generator).generateAll entropy = .ok results)
    (writes : writeReports a.output made results = (after, none)) :
    run arguments input entropy fs = { code := 0, files := after } := by
  rw [run_batch reads batched uncached settled loads, batch, makes]
  dsimp only
  rw [generates]
  dsimp only
  rw [writes]

/-- **The files that a run creates are its reports, in the directory for them**, just when the names
of the intents fit there, as names without a slash do. If there are no examples for some intent, no
file is created or changed, and the run ends with an error, unless the program stops. No file is in
the directory at the start. -/
theorem run_reports (reads : Arguments.read arguments = .ok a) (batched : a.interactive = false)
    (uncached : a.cache = false)
    (clean : ∀ name content t, fs.get? (name :: fs.place a.output) ≠ some (.file content t)) :
    ((run arguments input entropy fs).code = 0 → ∃ settings store results,
      a.settings = .ok settings ∧ Template.load fs a.template = .ok store ∧
        (⟨store, settings⟩ : Generator).generateAll entropy = .ok results ∧
        results.map Prod.fst = store.intentNames ∧
        (OnlyReports fs (run arguments input entropy fs).files a.output results ↔
          Fits fs a.output store.intentNames) ∧
        ((∀ name ∈ store.intentNames, '/' ∉ name.toList) →
          OnlyReports fs (run arguments input entropy fs).files a.output results ∧
          ∀ name ∈ store.intentNames,
            reportPlace fs a.output name = (name ++ ".json") :: fs.place a.output)) ∧
      ∀ settings store job, a.settings = .ok settings → Template.load fs a.template = .ok store →
        job ∈ (⟨store, settings⟩ : Generator).jobs entropy →
        (∀ examples, (⟨store, settings⟩ : Generator).perform job ≠ .ok examples) →
        fs.SameFiles (run arguments input entropy fs).files ∧
          ((run arguments input entropy fs).code = 1 ∨
            (run arguments input entropy fs).code = 134 ∧
              ∃ stuck ∈ (⟨store, settings⟩ : Generator).jobs entropy,
                (⟨store, settings⟩ : Generator).perform stuck = .overflow) := by
  constructor
  · intro well
    obtain ⟨settings, store, settled, loads, done⟩ := run_eq_zero reads batched uncached well
    rw [done] at well ⊢
    obtain ⟨made, results, same, generates, written⟩ := batch_eq_zero well
    have names : results.map Prod.fst = store.intentNames :=
      Generator.names_of_generateAll generates
    have only (fits : Fits fs a.output store.intentNames) :
        OnlyReports fs (batch ⟨store, settings⟩ a.output entropy fs).files a.output results :=
      onlyReports_of_writeReports same written (names ▸ fits) clean
    refine ⟨settings, store, results, settled, loads, generates, names,
      ⟨fun reports => names ▸ reports.toFits, only⟩, fun slashless => ⟨only ?_, ?_⟩⟩
    · have distinct : store.intentNames.Nodup := List.nodup_iff_pairwise_ne.mpr
        (List.pairwise_map.mpr (store.intents.sorted.imp fun lt => String.ne_of_lt lt))
      exact fits_of_slashless distinct slashless
    · exact fun name there => reportPlace_eq (slashless name there)
  · intro settings store job settled loads asked fails
    rw [run_batch reads batched uncached settled loads]
    obtain ⟨same, failed | ⟨stopped, overflows⟩⟩ :=
      batch_failed a.output fs fun results => Generator.generateAll_ne_ok asked fails
    · exact ⟨same, .inl failed⟩
    · exact ⟨same, .inr ⟨stopped, Generator.generateAll_eq_overflow.mp overflows⟩⟩

/-- Nothing but a template. -/
def asking (text : String) : Files :=
  { entries := [(["t.tpl"], .file (Text.utf8 text) 1)], clock := 1 }

theorem load_asking (text : String) : Template.load (asking text) "t.tpl" =
    Template.addLines (asking text) [["t.tpl"]] "t.tpl" (Place.written []) 1
      (Text.lines text.toList) none ∅ := by
  have template : Files.Single "t.tpl" := ⟨rfl, by decide, by decide, by decide⟩
  exact Template.addFile_opened (template.locate rfl rfl) List.not_mem_nil
    (Files.textAt_utf8 rfl rfl)

theorem output_single : Files.Single "output" := ⟨rfl, by decide, by decide, by decide⟩

theorem asking_makes (text : String) : (asking text).createDirectories "output" =
    ((asking text).create [] "output" .directory, none) :=
  output_single.createDirectories rfl rfl rfl

theorem asking_clean (text name : String) (content : List UInt8) (t : Nat) :
    (asking text).get? (name :: (asking text).place "output") ≠ some (.file content t) := by
  rw [output_single.place]
  simp [Files.get?, asking, List.lookup]

theorem asking_slot {text path file : String} {front : List String} {p : Place} {now : Nat}
    (checked : Files.checkPath path = .ok ()) (cut : Path.parts path = front ++ [file])
    (proper : file ≠ "" ∧ file ≠ "." ∧ file ≠ "..")
    (walked : ((asking text).create [] "output" .directory).walk [] front = .ok p)
    (directory : ((asking text).create [] "output" .directory).get? p = some (.directory now)) :
    ((asking text).create [] "output" .directory).slot path = .ok (p, some file, false) := by
  have starts : ((asking text).create [] "output" .directory).start path = [] := by
    rw [Files.start]
    split <;> rfl
  exact Files.slot_name checked cut proper (by rw [starts, walked]) directory

/-- A run that writes a single report. -/
theorem run_asking {text file : String} {p : Place} {examples : List Example}
    (loads : Template.load (asking text) "t.tpl" = .ok store)
    (named : store.intentNames = [name])
    (gives : ∀ w, ((⟨store, {}⟩ : Generator).generate name none w).1 = .ok examples)
    (slot : ((asking text).create [] "output" .directory).slot (reportPath "output" name) =
      .ok (p, some file, false))
    (short : file.utf8ByteSize ≤ Files.maxName)
    (absent : ((asking text).create [] "output" .directory).get? (file :: p) = none) :
    run ["t.tpl"] "" 0 (asking text) = {
      code := 0
      files := ((asking text).create [] "output" .directory).create p file
        (.file (reportBytes examples)) } := by
  have writes : writeReports "output" ((asking text).create [] "output" .directory)
      [(name, examples)] = (((asking text).create [] "output" .directory).create p file
        (.file (reportBytes examples)), none) := by
    unfold writeReports
    rw [Files.write_new slot short absent rfl]
    rfl
  exact run_written rfl rfl rfl rfl loads (asking_makes text)
    (Generator.generateAll_single named gives) writes

/-- The intent `a` is reported, and an intent with a rule that cannot be expanded is not. -/
theorem run_reports_greeting : ∃ (fs fs' : Files) (results : List (String × List Example)),
    results.map Prod.fst = ["a"] ∧ (run ["t.tpl"] "" 0 fs).code = 0 ∧
      OnlyReports fs (run ["t.tpl"] "" 0 fs).files "output" results ∧
      (run ["t.tpl"] "" 0 fs').code = 1 ∧ fs'.SameFiles (run ["t.tpl"] "" 0 fs').files := by
  let fs := asking "%[a]\n  x\n"
  let s : Store :=
    ⟨∅, ∅, ⟨[("a", ⟨"a", .intent, false, [⟨none, none, [⟨[.word "x"], none⟩]⟩]⟩)], by decide⟩⟩
  let fs' := asking "%[a]\n  ~[b]\n"
  let s' : Store := ⟨∅, ∅, ⟨[("a", ⟨"a", .intent, false,
    [⟨none, none, [⟨[.reference .alias "b" {}], none⟩]⟩]⟩)], by decide⟩⟩
  have loads : Template.load fs "t.tpl" = .ok s := by
    rw [load_asking]
    cbv
  have loads' : Template.load fs' "t.tpl" = .ok s' := by
    rw [load_asking]
    cbv
  have slot : (fs.create [] "output" .directory).slot (reportPath "output" "a") =
      .ok (["output"], some "a.json", false) := by
    have named : reportPath "output" "a" = "output/a.json" := by cbv
    have cut : Path.parts "output/a.json" = ["output"] ++ ["a.json"] := by cbv
    rw [named]
    exact asking_slot rfl cut (by decide) rfl rfl
  have well : (run ["t.tpl"] "" 0 fs).code = 0 := by
    rw [run_asking loads rfl (fun w => by cbv) slot (by decide) rfl]
  obtain ⟨done, -⟩ := @run_reports fs 0 ["t.tpl"] "" { template := "t.tpl" } rfl rfl rfl
    (asking_clean _)
  obtain ⟨-, store, results, -, same, -, names, -, slashless⟩ := done well
  obtain rfl : s = store := Except.ok.inj (loads.symm.trans same)
  have names' : s.intentNames = ["a"] := rfl
  obtain ⟨only, -⟩ := slashless (by rw [names']; decide)
  obtain ⟨-, failed⟩ := @run_reports fs' 0 ["t.tpl"] "" { template := "t.tpl" } rfl rfl rfl
    (asking_clean _)
  have fails (seed : UInt64) :
      (⟨s', {}⟩ : Generator).perform ("a", seed) = .error (.undeclared .alias "b") := by cbv
  obtain ⟨same, code | ⟨-, stuck, asked, overflows⟩⟩ :=
    failed {} s' _ rfl loads' (List.mem_singleton.mpr rfl) fun _ made => by
      cases (fails _).symm.trans made
  · exact ⟨fs, fs', results, names, well, only, code, same⟩
  · obtain rfl := List.mem_singleton.mp asked
    cases (fails _).symm.trans overflows

/-- An intent's name can lead out of the directory. -/
theorem report_outside : ∃ (fs : Files) (content : List UInt8),
    fs.get? (fs.place "output") = none ∧ (run ["t.tpl"] "" 0 fs).code = 0 ∧
      fs.Creates (run ["t.tpl"] "" 0 fs).files ["a.json"] content ∧
      ∀ file, ["a.json"] ≠ file :: fs.place "output" := by
  let fs := asking "%[..\\/a]\n  x\n"
  let s : Store :=
    ⟨∅, ∅, ⟨[("../a", ⟨"../a", .intent, false, [⟨none, none, [⟨[.word "x"], none⟩]⟩]⟩)],
      by decide⟩⟩
  have loads : Template.load fs "t.tpl" = .ok s := by
    rw [load_asking]
    cbv
  have slot : (fs.create [] "output" .directory).slot (reportPath "output" "../a") =
      .ok ([], some "a.json", false) := by
    have named : reportPath "output" "../a" = "output/../a.json" := by cbv
    have cut : Path.parts "output/../a.json" = ["output", ".."] ++ ["a.json"] := by cbv
    rw [named]
    exact asking_slot rfl cut (by decide) rfl rfl
  have gives (w : Words) :
      ((⟨s, {}⟩ : Generator).generate "../a" none w).1 = .ok [⟨"../a", "x", []⟩] := by cbv
  have ends := run_asking loads rfl gives slot (by decide) rfl
  refine ⟨fs, reportBytes [⟨"../a", "x", []⟩], ?_, by rw [ends], ?_, ?_⟩
  · rw [output_single.place]
    rfl
  · rw [ends]
    refine ⟨⟨_, rfl⟩, fun old t there => ?_⟩
    cases there
  · rw [output_single.place]
    simp

end Program
end Phrasebook
