import PageGraph.Proofs.FileSystem.Scanning

/-!
# Runs and their plans

A run that gets as far as a plan carries the plan out, so what a run does is said by the plan of its command: a function
of the settings and the records that are found.

* `run_of_planOf`, `exists_settings_of_plan`, `exists_plan_of_finished` : from a run to its plan;
* `run_raw`, `run_shallow`, `run_deep` : the runs of the commands that write data files;
* `run_tree` : a run that shows a tree.
-/

namespace PageGraph.FileSystem

variable {files after : FileSystem} {coloured : Bool} {environment : Option String} {invocation : Invocation}
  {settings : Settings} {records : List Record} {plan : Plan} {words : List String}

/-! ### From a run to its plan -/

theorem run_eq_of_plan (hparse : CommandLine.parse words = .ok invocation)
    (hplan : Attempt.result (files.disk.plan coloured environment invocation) = .ok plan) :
    files.run coloured environment words = (writer.carryOut plan).run files := by
  have hrun : (files.disk.plan coloured environment invocation).run = .ok plan := hplan
  rw [run, hparse]
  dsimp only
  rw [hrun]

/-- A plan is the plan of the command, under the settings that have been read. -/
theorem exists_settings_of_plan (hplan : Attempt.result (files.disk.plan coloured environment invocation) = .ok plan) :
    ∃ settings, files.settings invocation.configuration environment = .ok settings ∧
      files.planOf coloured invocation.quiet (settings.under invocation) invocation.command = .ok plan := by
  rw [result_plan] at hplan
  cases hsettings : files.settings invocation.configuration environment with
  | error problem =>
    rw [hsettings] at hplan
    cases hplan
  | ok settings =>
    rw [hsettings] at hplan
    exact ⟨settings, rfl, hplan⟩

/-- A run whose settings are known carries out the plan of its command. -/
theorem run_of_planOf {command : Command} (hparse : CommandLine.parse words = .ok { invocation with command })
    (hsettings : files.settings invocation.configuration environment = .ok settings)
    (hplan : files.planOf coloured invocation.quiet (settings.under invocation) command = .ok plan) :
    files.run coloured environment words = (writer.carryOut plan).run files := by
  refine run_eq_of_plan hparse ?_
  rw [result_plan]
  dsimp only
  rw [hsettings]
  exact hplan

/-- A run that ends well has carried out a plan. -/
theorem exists_plan_of_finished {printed : String} (hparse : CommandLine.parse words = .ok invocation)
    (h : files.run coloured environment words = (.finished printed, after)) :
    ∃ plan, Attempt.result (files.disk.plan coloured environment invocation) = .ok plan ∧
      (writer.carryOut plan).run files = (.finished printed, after) := by
  cases hplan : Attempt.result (files.disk.plan coloured environment invocation) with
  | error problem =>
    have hrun : (files.disk.plan coloured environment invocation).run = .error problem := hplan
    rw [run, hparse] at h
    dsimp only at h
    rw [hrun] at h
    cases (Prod.mk.inj h).1
  | ok plan => exact ⟨plan, rfl, (run_eq_of_plan hparse hplan).symm.trans h⟩

/-! ### Commands that write data files -/

theorem run_raw (coloured : Bool) (invocation : Invocation) (hparse : CommandLine.parse words = .ok { invocation with command := .raw })
    (hsettings : files.settings invocation.configuration environment = .ok settings)
    (hrecords : files.records (settings.under invocation) none = .ok records) :
    files.run coloured environment words =
      (writer.carryOut (.ofRecords coloured invocation.quiet (settings.under invocation).outputDir records)).run files := by
  refine run_of_planOf hparse hsettings ?_
  rw [planOf_raw, hrecords, Except.map]

theorem run_shallow (coloured : Bool) (invocation : Invocation) {saved : Option String}
    (hparse : CommandLine.parse words = .ok { invocation with command := .shallow saved })
    (hsettings : files.settings invocation.configuration environment = .ok settings)
    (hrecords : files.records (settings.under invocation) saved = .ok records) :
    files.run coloured environment words =
      (writer.carryOut (.ofPages coloured invocation.quiet (settings.under invocation).outputDir
        (files.corpus (settings.under invocation) records))).run files := by
  refine run_of_planOf hparse hsettings ?_
  rw [planOf_shallow, hrecords, Except.map]

theorem run_deep (coloured : Bool) (invocation : Invocation) {saved : Option String} {summary : Bool}
    (hparse : CommandLine.parse words = .ok { invocation with command := .deep saved summary })
    (hsettings : files.settings invocation.configuration environment = .ok settings)
    (hrecords : files.records (settings.under invocation) saved = .ok records) :
    files.run coloured environment words =
      (writer.carryOut (.ofTrees coloured invocation.quiet summary (settings.under invocation).outputDir
        (files.corpus (settings.under invocation) records))).run files := by
  refine run_of_planOf hparse hsettings ?_
  rw [planOf_deep, hrecords, Except.map]

/-! ### Showing a tree -/

/-- A plan without files changes nothing. -/
theorem run_carryOut_of_files_eq_nil (h : plan.files = []) :
    (writer.carryOut plan).run files = (.finished plan.printed, files) := by
  rw [Disk.Writer.carryOut, h]
  rfl

theorem run_tree (coloured : Bool) (invocation : Invocation) {page name : String} {depth : Option Nat} {saved : Option String}
    {format : TreeFormat} {tree : Tree}
    (hparse : CommandLine.parse words = .ok { invocation with command := .tree page depth name saved })
    (hsettings : files.settings invocation.configuration environment = .ok settings)
    (hrecords : files.records (settings.under invocation) saved = .ok records)
    (hformat : treeFormat name depth = .ok format)
    (htree : (files.corpus (settings.under invocation) records).firstTree?
      (files.pagePaths (settings.under invocation) page) = some tree) :
    files.run coloured environment words = (.finished (format.render coloured depth tree), files) := by
  rw [run_of_planOf hparse hsettings (files.planOf_tree coloured invocation.quiet hformat hrecords htree)]
  exact run_carryOut_of_files_eq_nil rfl

end PageGraph.FileSystem
