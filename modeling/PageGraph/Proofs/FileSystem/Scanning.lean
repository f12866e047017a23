import PageGraph.CommandLine.Run

/-!
# Scanning a file system

What a run reads from a file system that is a value. Nothing changes while it reads, so each step of a scan is a
function of the file system: it has a result, or it ends in a problem.

* `Attempt.result` : the result of an attempt, with the laws of its steps;
* `FileSystem.settings`, `FileSystem.records`, `FileSystem.corpus` : what a scan finds;
* `FileSystem.result_plan` : the plan of an invocation, made of these.
-/

namespace PageGraph

/-! ### Attempts -/

namespace Attempt

variable {α β : Type}

/-- The result of an attempt on a disk that is a value. -/
def result (attempt : Attempt Id α) : Except Problem α := Id.run attempt.run

@[simp] theorem result_pure (a : α) : result (pure a) = .ok a := rfl

@[simp] theorem result_throw (problem : Problem) : result (throw problem : Attempt Id α) = .error problem := rfl

theorem result_bind (attempt : Attempt Id α) (next : α → Attempt Id β) :
    result (attempt >>= next) = (result attempt).bind fun a => result (next a) := by
  rw [result, result, ExceptT.run_bind, Id.run_bind]
  cases Id.run attempt.run <;> rfl

/-- A step of the disk alone, as a step of an attempt. -/
abbrev ofDisk (step : Id α) : Attempt Id α :=
  @liftM Id (Attempt Id) (instMonadLiftTOfMonadLift Id Id (Attempt Id)) α step

/-- A step of the disk alone has a value, and an attempt goes on with it. -/
theorem result_ofDisk_bind (step : Id α) (next : α → Attempt Id β) :
    result (ofDisk step >>= next) = result (next (Id.run step)) := rfl

/-- A step succeeds after another one exactly if both do. -/
theorem result_bind_eq_ok {attempt : Attempt Id α} {next : α → Attempt Id β} {b : β} :
    result (attempt >>= next) = .ok b ↔ ∃ a, result attempt = .ok a ∧ result (next a) = .ok b := by
  rw [result_bind]
  cases result attempt <;> simp [Except.bind]

end Attempt

theorem ok_of_toOption_eq_some {ε α : Type} {result : Except ε α} {a : α} (h : result.toOption = some a) :
    result = .ok a := by
  cases result with
  | error failure => cases h
  | ok b => exact congrArg Except.ok (Option.some.inj h)

theorem exists_of_map_eq_ok {ε α β : Type} {result : Except ε α} {f : α → β} {b : β} (h : result.map f = .ok b) :
    ∃ a, result = .ok a ∧ f a = b := by
  cases result with
  | error failure => cases h
  | ok a => exact ⟨a, rfl, Except.ok.inj h⟩

namespace FileSystem

open Attempt

variable (files : FileSystem)

/-! ### Steps of a scan -/

/-- The text of a file. -/
def text (path : String) : Except IoFailure String := Id.run (files.disk.readText path)

/-- The settings of a run. -/
def settings (requested environment : Option String) : Except Problem Settings :=
  result (files.disk.settings requested environment)

/-- The records of a run. -/
def records (settings : Settings) (saved : Option String) : Except Problem (List Record) :=
  result (files.disk.records settings saved)

/-- The page path of the content root. -/
def contentRoot (settings : Settings) : String := Id.run (files.disk.contentRoot settings)

/-- The page of a record. -/
def page (resolver : Resolver) (record : Record) : Page := Id.run (files.disk.page resolver record)

/-- The corpus of some records. -/
def corpus (settings : Settings) (records : List Record) : Corpus :=
  Page.sort (records.map (files.page (Resolver.below (files.contentRoot settings) settings.layout)))

theorem run_corpus (settings : Settings) (records : List Record) :
    Id.run (files.disk.corpus settings records) = files.corpus settings records := by
  simp only [Disk.corpus, corpus, List.idRun_mapM, Id.run_bind, Id.run_pure]
  rfl

theorem text_eq_ok_iff {path text : String} :
    files.text path = .ok text ↔
      ∃ octets, files.read path = .ok octets ∧ (Text.Utf8.decode? octets).map String.ofList = some text := by
  have hread : Id.run (files.disk.read path) = files.read path := rfl
  rw [FileSystem.text, Disk.readText, Id.run_bind, hread]
  cases files.read path with
  | error failure => simp
  | ok octets => cases hdecode : Text.Utf8.decode? octets <;> simp [hdecode]

/-! ### Settings -/

/-- The path of the configuration file of a run. -/
def configurationPath (requested environment : Option String) : String :=
  requested.getD (environment.getD Disk.defaultConfiguration)

theorem settingsIn_eq_ok_iff {path : String} {settings : Settings} :
    result (files.disk.settingsIn path) = .ok settings ↔
      ∃ text, files.text path = .ok text ∧ Settings.parse? text = some settings := by
  have htext : Id.run (files.disk.readText path) = files.text path := rfl
  rw [Disk.settingsIn, result_ofDisk_bind, htext]
  cases files.text path with
  | error failure => simp
  | ok text => cases hparse : Settings.parse? text <;> simp [hparse]

theorem settings_eq (requested environment : Option String) :
    files.settings requested environment =
      if files.isPresent (configurationPath requested environment) then
        result (files.disk.settingsIn (configurationPath requested environment))
      else
        match requested with
        | some path => .error (.ofFailure (.configNotFound path))
        | none => .ok {} := by
  rw [settings, Disk.settings.eq_def]
  cases requested with
  | none =>
    have hpresent : Id.run (files.disk.isPresent (environment.getD Disk.defaultConfiguration)) =
        files.isPresent (configurationPath none environment) := rfl
    dsimp only
    rw [result_ofDisk_bind, hpresent]
    split <;> rfl
  | some path =>
    have hpresent : Id.run (files.disk.isPresent path) = files.isPresent (configurationPath (some path) environment) := rfl
    dsimp only
    rw [result_ofDisk_bind, hpresent]
    split <;> rfl

variable {files} in
/-- Without a configuration file a run has the default settings, unless one was asked for. -/
theorem settings_of_missing {environment : Option String}
    (h : files.isPresent (configurationPath none environment) = false) : files.settings none environment = .ok {} := by
  rw [settings_eq, h]
  rfl

variable {files} in
/-- A run finds the settings that it found before, if its configuration file has not changed. -/
theorem settings_of_unchanged {after : FileSystem} {requested environment : Option String} {settings : Settings}
    (hpresent : after.isPresent (configurationPath requested environment) =
      files.isPresent (configurationPath requested environment))
    (hread : (after.read (configurationPath requested environment)).toOption =
      (files.read (configurationPath requested environment)).toOption)
    (h : files.settings requested environment = .ok settings) :
    after.settings requested environment = .ok settings := by
  rw [settings_eq] at h ⊢
  rw [hpresent]
  split at h
  · next hthere =>
    rw [if_pos hthere]
    rw [settingsIn_eq_ok_iff] at h ⊢
    obtain ⟨text, htext, hparse⟩ := h
    obtain ⟨octets, hoctets, hdecode⟩ := files.text_eq_ok_iff.1 htext
    refine ⟨text, after.text_eq_ok_iff.2 ⟨octets, ?_, hdecode⟩, hparse⟩
    rw [hoctets] at hread
    exact ok_of_toOption_eq_some hread
  · next hthere =>
    rw [if_neg hthere]
    exact h

/-! ### Records -/

theorem records_saved_eq_ok_iff {settings : Settings} {path : String} {records : List Record} :
    files.records settings (some path) = .ok records ↔
      ∃ text, files.text path = .ok text ∧ Record.ofFileText? text = some records := by
  have htext : Id.run (files.disk.readText path) = files.text path := rfl
  rw [FileSystem.records, Disk.records, Disk.savedRecords, result_ofDisk_bind, htext]
  cases files.text path with
  | error failure => simp
  | ok text => cases hrecords : Record.ofFileText? text <;> simp [hrecords]

/-- The records of a walk are the inventory of the directory to which the stores directory leads. -/
theorem records_walked_eq_ok_iff {settings : Settings} {records : List Record} :
    files.records settings none = .ok records ↔
      ∃ base, files.isDirectory settings.storesDir = true ∧ files.canonicalize settings.storesDir = .ok base ∧
        records = inventory settings.layout base (files.tree base) := by
  have hdirectory : Id.run (files.disk.isDirectory settings.storesDir) = files.isDirectory settings.storesDir := rfl
  have hplace : Id.run (files.disk.canonicalize settings.storesDir) = files.canonicalize settings.storesDir := rfl
  rw [FileSystem.records, Disk.records, Disk.walk, result_ofDisk_bind, hdirectory]
  split
  · next hthere =>
    rw [result_ofDisk_bind, hplace]
    cases files.canonicalize settings.storesDir with
    | error failure => exact ⟨fun h => (nomatch h), fun ⟨_, _, h, _⟩ => (nomatch h)⟩
    | ok base =>
      constructor
      · exact fun h => ⟨base, hthere, rfl, (Except.ok.inj h).symm⟩
      · rintro ⟨_, -, hbase, rfl⟩
        obtain rfl := Except.ok.inj hbase
        rfl
  · next hmissing =>
    rw [result_bind_eq_ok]
    exact ⟨fun ⟨_, h, _⟩ => (nomatch h), fun ⟨_, h, _⟩ => absurd h hmissing⟩

/-! ### Pages -/

variable {files} in
theorem contentRoot_of_canonicalize {settings : Settings} {place : Place}
    (h : files.canonicalize settings.contentRootPath = .ok place) :
    files.contentRoot settings = pageKey place.octets := by
  have hplace : Id.run (files.disk.canonicalize settings.contentRootPath) = .ok place := h
  rw [contentRoot, Disk.contentRoot, Id.run_bind, hplace]
  rfl

/-- What a page references is written in its file; a file that cannot be read references nothing. -/
theorem page_eq (resolver : Resolver) (record : Record) :
    files.page resolver record = Page.ofRecord record ((files.read record.path).toOption.elim []
      fun octets => resolver.extract record.pageRoot (String.ofList (Text.Utf8.decodeLossy octets))) := by
  have hread : Id.run (files.disk.read record.path) = files.read record.path := rfl
  rw [page, Disk.page, Id.run_bind, hread]
  cases files.read record.path <;> rfl

theorem path_page (resolver : Resolver) (record : Record) : (files.page resolver record).path = normalize record.path := by
  rw [page_eq, Page.ofRecord]

/-- Each page of a corpus belongs to a record. -/
theorem mem_corpus_iff {settings : Settings} {records : List Record} {page : Page} :
    page ∈ files.corpus settings records ↔
      ∃ record ∈ records,
        files.page (Resolver.below (files.contentRoot settings) settings.layout) record = page := by
  rw [corpus, Page.sort, List.mem_mergeSort, List.mem_map]

/-! ### Plans -/

/-- The plan of a command under some settings. -/
def planOf (coloured quiet : Bool) (settings : Settings) (command : Command) : Except Problem Plan :=
  result (files.disk.planOf coloured quiet settings command)

theorem result_scan (settings : Settings) (saved : Option String) :
    result (files.disk.scan settings saved) = (files.records settings saved).map (files.corpus settings) := by
  rw [Disk.scan, result_bind, records]
  cases result (files.disk.records settings saved) with
  | error problem => rfl
  | ok records => exact congrArg Except.ok (files.run_corpus settings records)

theorem planOf_raw (coloured quiet : Bool) (settings : Settings) :
    files.planOf coloured quiet settings .raw =
      (files.records settings none).map (Plan.ofRecords coloured quiet settings.outputDir) := by
  rw [planOf, Disk.planOf, result_bind, records]
  cases result (files.disk.records settings none) <;> rfl

theorem planOf_shallow (coloured quiet : Bool) (settings : Settings) (saved : Option String) :
    files.planOf coloured quiet settings (.shallow saved) =
      (files.records settings saved).map fun records =>
        Plan.ofPages coloured quiet settings.outputDir (files.corpus settings records) := by
  rw [planOf, Disk.planOf, result_bind, result_scan]
  cases files.records settings saved <;> rfl

theorem planOf_deep (coloured quiet : Bool) (settings : Settings) (saved : Option String) (summary : Bool) :
    files.planOf coloured quiet settings (.deep saved summary) =
      (files.records settings saved).map fun records =>
        Plan.ofTrees coloured quiet summary settings.outputDir (files.corpus settings records) := by
  rw [planOf, Disk.planOf, result_bind, result_scan]
  cases files.records settings saved <;> rfl

/-- The page paths that a name may stand for. -/
def pagePaths (settings : Settings) (name : String) : List String := Id.run (files.disk.pagePaths settings name)

/-- The first of the page paths that a name may stand for is that of the place to which it leads. -/
theorem exists_pagePaths_of_canonicalize (settings : Settings) {name : String} {place : Place}
    (h : files.canonicalize name = .ok place) : ∃ rest, files.pagePaths settings name = pageKey place.octets :: rest := by
  have hplace : Id.run (files.disk.canonicalize name) = .ok place := h
  rw [pagePaths, Disk.pagePaths, Id.run_bind, hplace]
  exact ⟨_, rfl⟩

theorem planOf_tree (coloured quiet : Bool) {settings : Settings} {records : List Record} {page name : String}
    {depth : Option Nat} {saved : Option String} {format : TreeFormat} {tree : Tree}
    (hformat : treeFormat name depth = .ok format) (hrecords : files.records settings saved = .ok records)
    (htree : (files.corpus settings records).firstTree? (files.pagePaths settings page) = some tree) :
    files.planOf coloured quiet settings (.tree page depth name saved) =
      .ok { directory := settings.outputDir, printed := format.render coloured depth tree } := by
  have hpaths : Id.run (files.disk.pagePaths settings page) = files.pagePaths settings page := rfl
  have hform : result (ExceptT.mk (pure (treeFormat name depth)) : Attempt Id TreeFormat) = .ok format := hformat
  rw [planOf, Disk.planOf, result_bind, hform, Except.bind, result_bind, result_scan, hrecords, Except.map, Except.bind,
    result_ofDisk_bind, hpaths, htree]
  rfl

theorem result_plan (coloured : Bool) (environment : Option String) (invocation : Invocation) :
    result (files.disk.plan coloured environment invocation) =
      (files.settings invocation.configuration environment).bind fun settings =>
        files.planOf coloured invocation.quiet (settings.under invocation) invocation.command := by
  rw [Disk.plan, result_bind, settings]
  rfl

end FileSystem

end PageGraph
