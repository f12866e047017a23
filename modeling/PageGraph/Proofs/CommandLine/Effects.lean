import PageGraph.Proofs.CommandLine.Runs
import PageGraph.Proofs.CommandLine.Writing
import PageGraph.Proofs.FileSystem.Templates

/-!
# What a run changes

A run writes its own data files and nothing else. It reads before it writes, so a problem that comes up on the way to a
plan has changed nothing; and carrying out a plan makes directories on the way to the output directory, and writes files
there, each step at one place.

Each of these steps keeps what has been said so far (`Kept`), so what a whole plan keeps is known from its steps.

* `Confined` : a file system differs from another by the directories that were made and the files that were written;
* `kept_confined`, `kept_isWritten` : the steps of a plan, and what they keep;
* `Effects` : what a run does to a file system, case by case;
* `run_effects` : every run does this.
-/

namespace PageGraph

/-- The data files that a command writes. -/
def Command.outputs : Command → List String
  | .raw => [Plan.recordsFile]
  | .shallow _ => [Plan.pagesFile]
  | .deep _ _ => [Plan.pagesFile, Plan.treesFile]
  | .tree .. => []

namespace FileSystem

open Attempt

variable {files before now after : FileSystem} {directory name text : String} {items rest : List (String × String)}
  {item : String × String} {place : Place}

/-! ### What may change -/

/-- A directory has been made at a place that held nothing: the output directory, or one above it. -/
structure IsMade (before after : FileSystem) (directory : String) (place : Place) : Prop where
  missing : before.at? place = none
  made : after.at? place = some .directory
  leads : ∃ path ∈ DiskPath.ancestors directory, after.LeadsTo .look path (.found place)

/-- A place holds the text of one of some files, the one to which the path of that file leads. -/
def HoldsOne (after : FileSystem) (directory : String) (items : List (String × String)) (place : Place) : Prop :=
  ∃ item ∈ items, after.LeadsTo .look (DiskPath.join directory item.1) (.found place) ∧
    after.at? place = some (.file { octets := Text.Utf8.encode item.2.toList })

/-- A file has been written at a place that held nothing, or over another file. -/
structure IsFilled (before after : FileSystem) (directory : String) (items : List (String × String)) (place : Place) :
    Prop where
  held : before.at? place = none ∨ ∃ old, before.at? place = some (.file old)
  holds : HoldsOne after directory items place

/-- A file system differs from another by directories on the way to the output directory, and by files there. -/
structure Confined (before after : FileSystem) (directory : String) (items : List (String × String)) : Prop where
  current : after.current = before.current
  changed : ∀ place, after.at? place ≠ before.at? place →
    IsMade before after directory place ∨ IsFilled before after directory items place

/-- A file has been written: its path leads to a place that holds a text written there, its own unless the path of
another file leads there too. -/
def IsWritten (after : FileSystem) (directory : String) (items : List (String × String)) (name : String) : Prop :=
  ∃ place, after.LeadsTo .look (DiskPath.join directory name) (.found place) ∧ HoldsOne after directory items place

theorem Confined.refl (files : FileSystem) (directory : String) (items : List (String × String)) :
    Confined files files directory items :=
  ⟨rfl, fun _ hne => absurd rfl hne⟩

/-! ### Single changes -/

/-- What is at a place where something has changed. -/
theorem Confined.cases (h : Confined before now directory items) (place : Place) :
    now.at? place = before.at? place ∨ IsMade before now directory place ∨ IsFilled before now directory items place := by
  by_cases hchanged : now.at? place = before.at? place
  · exact .inl hchanged
  · exact .inr (h.changed place hchanged)

/-- A place that holds a written file still does after a change somewhere else. -/
theorem HoldsOne.gains {node : Node} {other : Place} (h : HoldsOne now directory items place)
    (hgains : Gains now after other node) (hother : place ≠ other) : HoldsOne after directory items place := by
  obtain ⟨item, hitem, hleads, hfile⟩ := h
  exact ⟨item, hitem, hleads.gains hgains, (hgains.at?_of_ne hother).trans hfile⟩

theorem IsMade.gains {node : Node} {other : Place} (h : IsMade before now directory place)
    (hgains : Gains now after other node) (hother : place ≠ other) : IsMade before after directory place := by
  obtain ⟨path, hpath, hleads⟩ := h.leads
  exact ⟨h.missing, (hgains.at?_of_ne hother).trans h.made, path, hpath, hleads.gains hgains⟩

/-- One more change leaves a file system confined, if it is one of those that may be. -/
theorem Confined.gains {node : Node} {other : Place} (h : Confined before now directory items)
    (hgains : Gains now after other node)
    (hother : IsMade before after directory other ∨ IsFilled before after directory items other) :
    Confined before after directory items where
  current := hgains.current.trans h.current
  changed place hne := by
    by_cases hplace : place = other
    · rw [hplace]
      exact hother
    · rw [hgains.at?_of_ne hplace] at hne
      rcases h.changed place hne with hmade | hfilled
      · exact .inl (hmade.gains hgains hplace)
      · exact .inr ⟨hfilled.held, hfilled.holds.gains hgains hplace⟩

/-- Where nothing is now there was nothing before. -/
theorem Confined.at?_eq_none (h : Confined before now directory items) (hnone : now.at? place = none) :
    before.at? place = none := by
  rcases h.cases place with heq | hmade | hfilled
  · rw [← heq, hnone]
  · rw [hmade.made] at hnone
    cases hnone
  · obtain ⟨item, -, -, hfile⟩ := hfilled.holds
    rw [hfile] at hnone
    cases hnone

/-- Where a file is now there was nothing before, or a file. -/
theorem Confined.none_or_exists_file (h : Confined before now directory items) {file : File}
    (hfile : now.at? place = some (.file file)) : before.at? place = none ∨ ∃ old, before.at? place = some (.file old) := by
  rcases h.cases place with heq | hmade | hfilled
  · exact .inr ⟨file, by rw [← heq, hfile]⟩
  · rw [hmade.made] at hfile
    cases hfile
  · exact hfilled.held

/-! ### What the steps of a plan keep -/

/-- Making a directory on the way to the output directory, and writing one of some files there, keeps a property. -/
structure Kept (P : FileSystem → Prop) (directory : String) (items : List (String × String)) : Prop where
  make : ∀ path ∈ DiskPath.ancestors directory, ∀ {before after : FileSystem}, P before →
    before.makeDirectory path = .ok after → P after
  write : ∀ item ∈ items, ∀ {before after : FileSystem}, P before →
    before.write (DiskPath.join directory item.1) (Text.Utf8.encode item.2.toList) = .ok after → P after

variable {P : FileSystem → Prop}

theorem run_unlessPresent (files : FileSystem) (path : String) (result : Except IoFailure Unit) :
    ((writer.unlessPresent path result).run files).2 = files := by
  cases result with
  | ok value => rfl
  | error failure => rw [run_unlessPresent_error]

/-- A chain of directories is made one by one. -/
theorem keeps_makeChain {paths : List String}
    (hmake : ∀ path ∈ paths, ∀ {before after : FileSystem}, P before → before.makeDirectory path = .ok after → P after)
    (h : P files) : P ((writer.makeChain paths).run files).2 := by
  have hstep : ∀ path ∈ paths, ∀ {now : FileSystem}, P now → P ((writer.makeDirectory path).run now).2 := by
    intro path hpath now hnow
    rw [run_makeDirectory]
    cases hresult : now.makeDirectory path with
    | ok changed => exact hmake path hpath hnow hresult
    | error failure => exact hnow
  clear hmake
  induction paths with
  | nil => exact h
  | cons path above ih =>
    have habove := ih fun other hother => hstep other (List.mem_cons_of_mem path hother)
    cases hpath : path.isEmpty with
    | true =>
      rw [Disk.Writer.makeChain, if_pos hpath]
      exact h
    | false =>
      by_cases hmissing : files.makeDirectory path = .error (.os .notFound)
      · rw [run_makeChain_of_missing hpath hmissing]
        rcases hrun : (writer.makeChain above).run files with ⟨result, now⟩
        rw [hrun] at habove
        cases result with
        | error failure => exact habove
        | ok value =>
          dsimp only
          rw [run_unlessPresent]
          exact hstep path List.mem_cons_self habove
      · rw [run_makeChain_of_not_missing hpath hmissing, run_unlessPresent]
        exact hstep path List.mem_cons_self h

theorem Kept.makeDirectories (hkept : Kept P directory items) (h : P files) :
    P ((writer.makeDirectories directory).run files).2 :=
  keeps_makeChain hkept.make h

theorem Kept.writeInto (hkept : Kept P directory items) (hitem : item ∈ items) (h : P files) :
    P (runOn (writer.writeInto directory item.1 item.2) files).2 := by
  have hmade := hkept.makeDirectories h
  rcases hmake : (writer.makeDirectories directory).run files with ⟨result, prepared⟩
  rw [hmake] at hmade
  cases result with
  | error failure =>
    rw [runOn_writeInto_of_not_made hmake]
    exact hmade
  | ok value =>
    rw [runOn_writeInto hmake]
    cases hwrite : prepared.write (DiskPath.join directory item.1) (Text.Utf8.encode item.2.toList) with
    | error failure => exact hmade
    | ok changed => exact hkept.write item hitem hmade hwrite

/-- **Carrying out a plan** keeps what its steps keep, as far as it gets. -/
theorem Kept.writeAll (hkept : Kept P directory items) (hrest : ∀ item ∈ rest, item ∈ items) (h : P files) :
    P (runOn (writer.writeAll directory rest) files).2 := by
  induction rest generalizing files with
  | nil => exact h
  | cons item rest ih =>
    have hwritten := hkept.writeInto (hrest item List.mem_cons_self) h
    rw [runOn_writeAll_cons]
    rcases hrun : runOn (writer.writeInto directory item.1 item.2) files with ⟨result, now⟩
    rw [hrun] at hwritten
    cases result with
    | error problem => exact hwritten
    | ok value => exact ih (fun other hother => hrest other (List.mem_cons_of_mem item hother)) hwritten

/-- The steps of a plan leave a file system confined. -/
theorem kept_confined (before : FileSystem) (directory : String) (items : List (String × String)) :
    Kept (fun now => now.Grounded ∧ Confined before now directory items) directory items where
  make path hpath now after := by
    rintro ⟨hground, hconfined⟩ hmake
    obtain ⟨place, hgains, hleads⟩ := gains_of_makeDirectory hground hmake
    refine ⟨hground.gains hgains, hconfined.gains hgains (.inl ⟨?_, hgains.at?_place, path, hpath, hleads⟩)⟩
    rcases hgains.held with hnone | ⟨old, new, -, hnew⟩
    · exact hconfined.at?_eq_none hnone
    · cases hnew
  write item hitem now after := by
    rintro ⟨hground, hconfined⟩ hwrite
    obtain ⟨place, hgains, hleads⟩ := exists_gains_of_write hground hwrite
    refine ⟨hground.gains hgains, hconfined.gains hgains (.inr ⟨?_, item, hitem, hleads, hgains.at?_place⟩)⟩
    rcases hgains.held with hnone | ⟨old, new, hold, -⟩
    · exact .inl (hconfined.at?_eq_none hnone)
    · exact hconfined.none_or_exists_file hold

/-- A file that has been written stays written. -/
theorem kept_isWritten (directory : String) (items : List (String × String)) (name : String) :
    Kept (fun now => now.Grounded ∧ IsWritten now directory items name) directory items where
  make path hpath now after := by
    rintro ⟨hground, place, hleads, hholds⟩ hmake
    obtain ⟨made, hgains, -⟩ := gains_of_makeDirectory hground hmake
    refine ⟨hground.gains hgains, place, hleads.gains hgains, hholds.gains hgains ?_⟩
    rintro rfl
    obtain ⟨item, -, -, hfile⟩ := hholds
    rcases hgains.held with hnone | ⟨old, new, -, hnew⟩
    · rw [hfile] at hnone
      cases hnone
    · cases hnew
  write item hitem now after := by
    rintro ⟨hground, place, hleads, hholds⟩ hwrite
    obtain ⟨filled, hgains, hfilled⟩ := exists_gains_of_write hground hwrite
    refine ⟨hground.gains hgains, place, hleads.gains hgains, ?_⟩
    by_cases hplace : place = filled
    · rw [hplace]
      exact ⟨item, hitem, hfilled, hgains.at?_place⟩
    · exact hholds.gains hgains hplace

/-! ### How carrying out a plan ends -/

/-- The output directory could not be made, or one of some files could not be written there. -/
def IsWriteProblem (directory : String) (names : List String) (problem : Problem) : Prop :=
  (∃ failure, problem = notMade directory failure) ∨ ∃ name ∈ names, ∃ failure, problem = notWritten directory name failure

theorem isWriteProblem_of_runOn_writeInto {problem : Problem} (hitem : item ∈ items)
    (h : runOn (writer.writeInto directory item.1 item.2) files = (.error problem, after)) :
    IsWriteProblem directory (items.map Prod.fst) problem := by
  rcases hmake : (writer.makeDirectories directory).run files with ⟨result, prepared⟩
  cases result with
  | error failure =>
    rw [runOn_writeInto_of_not_made hmake] at h
    exact .inl ⟨failure, (Except.error.inj (Prod.mk.inj h).1).symm⟩
  | ok value =>
    rw [runOn_writeInto hmake] at h
    cases hwrite : prepared.write (DiskPath.join directory item.1) (Text.Utf8.encode item.2.toList) with
    | error failure =>
      rw [hwrite] at h
      exact .inr ⟨item.1, List.mem_map_of_mem hitem, failure, (Except.error.inj (Prod.mk.inj h).1).symm⟩
    | ok changed =>
      rw [hwrite] at h
      cases (Prod.mk.inj h).1

/-- A plan that is not carried out ends where a directory cannot be made or a file cannot be written. -/
theorem isWriteProblem_of_runOn_writeAll {problem : Problem} (hrest : ∀ item ∈ rest, item ∈ items)
    (h : runOn (writer.writeAll directory rest) files = (.error problem, after)) :
    IsWriteProblem directory (items.map Prod.fst) problem := by
  induction rest generalizing files with
  | nil => cases (Prod.mk.inj h).1
  | cons item rest ih =>
    rw [runOn_writeAll_cons] at h
    rcases hwrite : runOn (writer.writeInto directory item.1 item.2) files with ⟨result, now⟩
    rw [hwrite] at h
    cases result with
    | error other =>
      obtain rfl := Except.error.inj (Prod.mk.inj h).1
      exact isWriteProblem_of_runOn_writeInto (hrest item List.mem_cons_self) hwrite
    | ok value => exact ih (fun other hother => hrest other (List.mem_cons_of_mem item hother)) h

/-- When a plan has been carried out all of its files have been written. -/
theorem isWritten_of_runOn_writeAll (hground : files.Grounded) (hrest : ∀ item ∈ rest, item ∈ items)
    (h : runOn (writer.writeAll directory rest) files = (.ok (), after)) :
    ∀ item ∈ rest, IsWritten after directory items item.1 := by
  induction rest generalizing files with
  | nil => exact fun item hitem => nomatch hitem
  | cons first rest ih =>
    rw [runOn_writeAll_cons] at h
    rcases hwrite : runOn (writer.writeInto directory first.1 first.2) files with ⟨result, now⟩
    rw [hwrite] at h
    cases result with
    | error problem => cases (Prod.mk.inj h).1
    | ok value =>
      have hdone : runOn (writer.writeAll directory rest) now = (.ok (), after) := h
      obtain ⟨prepared, hmade, hwritten⟩ := exists_of_runOn_writeInto_eq_ok hwrite
      have hprepared := grounded_of_makeDirectories hground hmade
      obtain ⟨place, hgains, hleads⟩ := exists_gains_of_write hprepared hwritten
      have hnow := hprepared.gains hgains
      have hlater : ∀ item ∈ rest, item ∈ items := fun item hitem => hrest item (List.mem_cons_of_mem first hitem)
      have hfirst : IsWritten now directory items first.1 :=
        ⟨place, hleads, first, hrest first List.mem_cons_self, hleads, hgains.at?_place⟩
      have hkept := (kept_isWritten directory items first.1).writeAll hlater ⟨hnow, hfirst⟩
      rw [hdone] at hkept
      intro item hitem
      rcases List.mem_cons.1 hitem with rfl | hitem
      · exact hkept.2
      · exact ih hnow hlater hdone item hitem

/-- Whatever comes of a plan, the file system is confined to it. -/
theorem confined_of_carryOut {plan : Plan} {outcome : Outcome} (hground : files.Grounded)
    (h : (writer.carryOut plan).run files = (outcome, after)) : Confined files after plan.directory plan.files := by
  obtain ⟨-, hconfined⟩ := (kept_confined files plan.directory plan.files).writeAll (fun _ hitem => hitem)
    ⟨hground, .refl files plan.directory plan.files⟩
  rw [run_carryOut] at h
  rcases hwrite : runOn (writer.writeAll plan.directory plan.files) files with ⟨result, now⟩
  rw [hwrite] at h hconfined
  obtain rfl : now = after := by
    cases result with
    | error problem => exact (Prod.mk.inj h).2
    | ok value => exact (Prod.mk.inj h).2
  exact hconfined

/-- A plan that is not carried out is reported by the step that failed. -/
theorem exists_problem_of_carryOut {plan : Plan} {report : Report}
    (h : (writer.carryOut plan).run files = (.failed report, after)) :
    ∃ problem, report = problem.report ∧ IsWriteProblem plan.directory (plan.files.map Prod.fst) problem := by
  rw [run_carryOut] at h
  rcases hwrite : runOn (writer.writeAll plan.directory plan.files) files with ⟨result, now⟩
  rw [hwrite] at h
  cases result with
  | error problem =>
    refine ⟨problem, (Outcome.failed.inj (Prod.mk.inj h).1).symm, ?_⟩
    exact isWriteProblem_of_runOn_writeAll (fun _ hitem => hitem) hwrite
  | ok value => cases (Prod.mk.inj h).1

/-- When a run has ended well all files of its plan have been written. -/
theorem isWritten_of_carryOut {plan : Plan} {printed : String} (hground : files.Grounded)
    (h : (writer.carryOut plan).run files = (.finished printed, after)) :
    ∀ item ∈ plan.files, IsWritten after plan.directory plan.files item.1 := by
  rw [run_carryOut] at h
  rcases hwrite : runOn (writer.writeAll plan.directory plan.files) files with ⟨result, now⟩
  rw [hwrite] at h
  cases result with
  | error problem => cases (Prod.mk.inj h).1
  | ok value =>
    obtain rfl : now = after := (Prod.mk.inj h).2
    exact isWritten_of_runOn_writeAll hground (fun _ hitem => hitem) hwrite

/-! ### Runs -/

theorem exists_of_planOf_eq_ok {coloured quiet : Bool} {settings : Settings} {command : Command} {plan : Plan}
    (h : files.planOf coloured quiet settings command = .ok plan) :
    plan.directory = settings.outputDir ∧ plan.files.map Prod.fst = command.outputs := by
  cases command with
  | raw =>
    rw [planOf_raw] at h
    obtain ⟨records, -, rfl⟩ := exists_of_map_eq_ok h
    exact ⟨rfl, rfl⟩
  | shallow saved =>
    rw [planOf_shallow] at h
    obtain ⟨records, -, rfl⟩ := exists_of_map_eq_ok h
    exact ⟨rfl, rfl⟩
  | deep saved summary =>
    rw [planOf_deep] at h
    obtain ⟨records, -, rfl⟩ := exists_of_map_eq_ok h
    exact ⟨rfl, rfl⟩
  | tree page depth name saved =>
    obtain ⟨format, -, h⟩ := result_bind_eq_ok.1 h
    obtain ⟨corpus, -, h⟩ := result_bind_eq_ok.1 h
    rw [result_ofDisk_bind] at h
    split at h
    · obtain rfl := Except.ok.inj h
      exact ⟨rfl, rfl⟩
    · cases h

/-- **What a run does to a file system.** -/
structure Effects (files : FileSystem) (coloured : Bool) (environment : Option String) (words : List String)
    (outcome : Outcome) (after : FileSystem) : Prop where
  /-- A command line that is refused changes nothing. -/
  refused : ∀ usage, CommandLine.parse words = .error usage → outcome = .refused usage ∧ after = files
  /-- A problem that comes up while the run is planned changes nothing. -/
  unplanned : ∀ invocation problem, CommandLine.parse words = .ok invocation →
    result (files.disk.plan coloured environment invocation) = .error problem →
    outcome = .failed problem.report ∧ after = files
  /-- Showing a tree changes nothing. -/
  shown : ∀ invocation page depth format saved, CommandLine.parse words = .ok invocation →
    invocation.command = .tree page depth format saved → after = files
  /-- The other commands make their output directory and write their data files there. -/
  confined : ∀ invocation settings, CommandLine.parse words = .ok invocation →
    files.settings invocation.configuration environment = .ok settings →
    ∃ items, items.map Prod.fst = invocation.command.outputs ∧
      Confined files after (settings.under invocation).outputDir items ∧
      ∀ printed, outcome = .finished printed →
        ∀ item ∈ items, IsWritten after (settings.under invocation).outputDir items item.1
  /-- A run that fails has changed nothing, unless it could not make the directory or write a file. -/
  failed : ∀ report, outcome = .failed report → after = files ∨
    ∃ invocation settings problem, CommandLine.parse words = .ok invocation ∧
      files.settings invocation.configuration environment = .ok settings ∧ report = problem.report ∧
      IsWriteProblem (settings.under invocation).outputDir invocation.command.outputs problem

variable {coloured : Bool} {environment : Option String} {words : List String}

theorem effects_of_refused {usage : Usage} (hparse : CommandLine.parse words = .error usage) :
    Effects files coloured environment words (files.run coloured environment words).1
      (files.run coloured environment words).2 := by
  have hrun : files.run coloured environment words = (.refused usage, files) := by
    rw [run, hparse]
  have hnone : ∀ invocation, CommandLine.parse words ≠ .ok invocation := fun invocation hok => by
    rw [hparse] at hok
    cases hok
  rw [hrun]
  exact {
    refused := fun other hother => ⟨congrArg Outcome.refused (Except.error.inj (hparse.symm.trans hother)), rfl⟩
    unplanned := fun invocation _ hok => absurd hok (hnone invocation)
    shown := fun _ _ _ _ _ _ _ => rfl
    confined := fun invocation _ hok => absurd hok (hnone invocation)
    failed := fun _ _ => .inl rfl }

theorem effects_of_unplanned {invocation : Invocation} {problem : Problem}
    (hparse : CommandLine.parse words = .ok invocation)
    (hplan : result (files.disk.plan coloured environment invocation) = .error problem) :
    Effects files coloured environment words (files.run coloured environment words).1
      (files.run coloured environment words).2 := by
  have hrun : files.run coloured environment words = (.failed problem.report, files) := by
    have hproblem : (files.disk.plan coloured environment invocation).run = .error problem := hplan
    rw [run, hparse]
    dsimp only
    rw [hproblem]
  rw [hrun]
  refine ⟨fun usage husage => ?_, fun other problem' hother hproblem => ⟨?_, rfl⟩, fun _ _ _ _ _ _ _ => rfl,
    fun other settings _ _ => ?_, fun _ _ => .inl rfl⟩
  · rw [hparse] at husage
    cases husage
  · obtain rfl := Except.ok.inj (hparse.symm.trans hother)
    rw [hplan] at hproblem
    rw [Except.error.inj hproblem]
  · refine ⟨other.command.outputs.map (·, ""), ?_, .refl _ _ _, fun printed hprinted => ?_⟩
    · rw [List.map_map]
      exact List.map_id _
    · cases hprinted

theorem effects_of_plan {invocation : Invocation} {plan : Plan} (hground : files.Grounded)
    (hparse : CommandLine.parse words = .ok invocation)
    (hplan : result (files.disk.plan coloured environment invocation) = .ok plan) :
    Effects files coloured environment words (files.run coloured environment words).1
      (files.run coloured environment words).2 := by
  have hinvocation : ∀ {other : Invocation}, CommandLine.parse words = .ok other → other = invocation :=
    fun hother => Except.ok.inj (hother.symm.trans hparse)
  obtain ⟨settings, hsettings, hplanned⟩ := exists_settings_of_plan hplan
  obtain ⟨hdirectory, hnames⟩ := exists_of_planOf_eq_ok hplanned
  rcases hcarried : (writer.carryOut plan).run files with ⟨outcome, after⟩
  rw [run_eq_of_plan hparse hplan, hcarried]
  refine ⟨fun usage husage => ?_, fun other problem hother hproblem => ?_,
    fun other page depth format saved hother hcommand => ?_, fun other settings' hother hsettings' => ?_,
    fun report hreport => .inr ?_⟩
  · rw [hparse] at husage
    cases husage
  · rw [hinvocation hother, hplan] at hproblem
    cases hproblem
  · obtain rfl := hinvocation hother
    have hfiles : plan.files = [] := by
      rw [← List.map_eq_nil_iff, hnames, hcommand, Command.outputs]
    rw [run_carryOut_of_files_eq_nil hfiles] at hcarried
    exact (Prod.mk.inj hcarried).2.symm
  · obtain rfl := hinvocation hother
    obtain rfl := Except.ok.inj (hsettings.symm.trans hsettings')
    rw [← hdirectory]
    refine ⟨plan.files, hnames, confined_of_carryOut hground hcarried, fun printed hprinted => ?_⟩
    obtain rfl : outcome = .finished printed := hprinted
    exact isWritten_of_carryOut hground hcarried
  · obtain rfl : outcome = .failed report := hreport
    obtain ⟨problem, rfl, hproblem⟩ := exists_problem_of_carryOut hcarried
    rw [hdirectory, hnames] at hproblem
    exact ⟨invocation, settings, problem, hparse, hsettings, rfl, hproblem⟩

/-- **Every run keeps to its outputs**, and one that fails before it writes changes nothing. -/
theorem run_effects (hground : files.Grounded) (coloured : Bool) (environment : Option String) (words : List String) :
    Effects files coloured environment words (files.run coloured environment words).1
      (files.run coloured environment words).2 := by
  cases hparse : CommandLine.parse words with
  | error usage => exact effects_of_refused hparse
  | ok invocation =>
    cases hplan : result (files.disk.plan coloured environment invocation) with
    | error problem => exact effects_of_unplanned hparse hplan
    | ok plan => exact effects_of_plan hground hparse hplan

/-- Two data files are written into a directory that was missing. -/
theorem run_effects_shop :
    shop.Grounded ∧ Effects shop true none ["deep", "--stores-dir", "stores", "-o", "out/data"]
      (shop.run true none ["deep", "--stores-dir", "stores", "-o", "out/data"]).1
      (shop.run true none ["deep", "--stores-dir", "stores", "-o", "out/data"]).2 :=
  ⟨survey_shop.current, run_effects survey_shop.current true none ["deep", "--stores-dir", "stores", "-o", "out/data"]⟩

end FileSystem

end PageGraph
