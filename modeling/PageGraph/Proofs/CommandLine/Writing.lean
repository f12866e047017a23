import PageGraph.CommandLine.Run
import PageGraph.Proofs.FileSystem.Directories

/-!
# Writing data files

A plan is carried out file by file: the directory is made if it is missing, and the file is written. So what two file
systems that differ in one file make of the same plan is alike: they write the same files or fail at the same one.

* `Attempt.runOn` : an attempt that may change a file system, with the laws of its steps;
* `runOn_writeInto`, `runOn_writeAll_cons`, `run_carryOut` : the steps of a plan;
* `read_of_carryOut` : what a plan wrote is read back;
* `Twins` : file systems that differ in one file and hold a directory to write into;
* `writeAll_twins` : the same plan on twins.
-/

namespace PageGraph

/-! ### Attempts that write -/

namespace Attempt

variable {α β : Type}

/-- The result of an attempt that may change a file system, and the file system afterwards. -/
def runOn (attempt : Attempt (StateM FileSystem) α) (files : FileSystem) : Except Problem α × FileSystem :=
  attempt.run.run files

theorem runOn_lift (step : StateM FileSystem α) (files : FileSystem) :
    runOn (liftM step) files = (.ok (step.run files).1, (step.run files).2) := rfl

theorem runOn_bind (attempt : Attempt (StateM FileSystem) α) (next : α → Attempt (StateM FileSystem) β)
    (files : FileSystem) :
    runOn (attempt >>= next) files =
      match runOn attempt files with
      | (.ok a, after) => runOn (next a) after
      | (.error problem, after) => (.error problem, after) := by
  rw [runOn, runOn, ExceptT.run_bind, StateT.run_bind]
  rcases attempt.run.run files with ⟨result, after⟩
  cases result <;> rfl

end Attempt

namespace FileSystem

open Attempt

variable {files before after prepared : FileSystem} {directory name text : String} {place : Place} {file : File}

/-! ### The steps of a plan -/

theorem run_write (files : FileSystem) (path text : String) :
    (writer.write path text).run files =
      match files.write path (Text.Utf8.encode text.toList) with
      | .ok changed => (.ok (), changed)
      | .error failure => (.error failure, files) := rfl

/-- The problem of a directory that cannot be made. -/
def notMade (directory : String) (failure : IoFailure) : Problem :=
  .ofFailure (.fileSystem "create directory" directory failure)

/-- The problem of a file that cannot be written. -/
def notWritten (directory name : String) (failure : IoFailure) : Problem :=
  .ofFailure (.fileSystem "write" (DiskPath.join directory name) failure)

/-- If the directory cannot be made nothing is written. -/
theorem runOn_writeInto_of_not_made {failure : IoFailure}
    (h : (writer.makeDirectories directory).run files = (.error failure, prepared)) :
    runOn (writer.writeInto directory name text) files = (.error (notMade directory failure), prepared) := by
  rw [Disk.Writer.writeInto, runOn_bind, runOn_lift, h]
  rfl

/-- Once the directory has been made the file is written. -/
theorem runOn_writeInto (h : (writer.makeDirectories directory).run files = (.ok (), prepared)) :
    runOn (writer.writeInto directory name text) files =
      match prepared.write (DiskPath.join directory name) (Text.Utf8.encode text.toList) with
      | .ok after => (.ok (), after)
      | .error failure => (.error (notWritten directory name failure), prepared) := by
  rw [Disk.Writer.writeInto, runOn_bind, runOn_lift, h]
  simp only [runOn_bind, runOn_lift, run_write]
  cases prepared.write (DiskPath.join directory name) (Text.Utf8.encode text.toList) <;> rfl

/-- When a file has been written its directory had been made. -/
theorem exists_of_runOn_writeInto_eq_ok
    (h : runOn (writer.writeInto directory name text) files = (.ok (), after)) :
    ∃ prepared, (writer.makeDirectories directory).run files = (.ok (), prepared) ∧
      prepared.write (DiskPath.join directory name) (Text.Utf8.encode text.toList) = .ok after := by
  rcases hmake : (writer.makeDirectories directory).run files with ⟨result, prepared⟩
  cases result with
  | error failure =>
    rw [runOn_writeInto_of_not_made hmake] at h
    cases (Prod.mk.inj h).1
  | ok value =>
    rw [runOn_writeInto hmake] at h
    refine ⟨prepared, rfl, ?_⟩
    cases hwrite : prepared.write (DiskPath.join directory name) (Text.Utf8.encode text.toList) with
    | error failure =>
      rw [hwrite] at h
      cases (Prod.mk.inj h).1
    | ok changed =>
      rw [hwrite] at h
      exact congrArg Except.ok (Prod.mk.inj h).2

theorem runOn_writeAll_cons (files : FileSystem) (directory : String) (item : String × String)
    (rest : List (String × String)) :
    runOn (writer.writeAll directory (item :: rest)) files =
      match runOn (writer.writeInto directory item.1 item.2) files with
      | (.ok (), after) => runOn (writer.writeAll directory rest) after
      | (.error problem, after) => (.error problem, after) := by
  rw [Disk.Writer.writeAll, runOn_bind]
  rcases runOn (writer.writeInto directory item.1 item.2) files with ⟨result, after⟩
  cases result <;> rfl

/-- Whether a directory is there already makes no difference to what is written into it. -/
theorem runOn_writeAll_of_made (h : (writer.makeDirectories directory).run files = (.ok (), prepared))
    (hprepared : prepared.Prepared directory) (item : String × String) (rest : List (String × String)) :
    runOn (writer.writeAll directory (item :: rest)) files = runOn (writer.writeAll directory (item :: rest)) prepared := by
  rw [runOn_writeAll_cons, runOn_writeAll_cons, runOn_writeInto h,
    runOn_writeInto (makeDirectories_of_prepared hprepared)]

theorem run_carryOut (files : FileSystem) (plan : Plan) :
    (writer.carryOut plan).run files =
      match runOn (writer.writeAll plan.directory plan.files) files with
      | (.ok (), after) => (.finished plan.printed, after)
      | (.error problem, after) => (.failed problem.report, after) := by
  rw [Disk.Writer.carryOut, StateT.run_bind, runOn]
  rcases (writer.writeAll plan.directory plan.files).run.run files with ⟨result, after⟩
  cases result <;> rfl

theorem grounded_of_makeDirectories {result : Except IoFailure Unit} (hground : files.Grounded)
    (h : (writer.makeDirectories directory).run files = (result, prepared)) : prepared.Grounded := by
  have hmade := made_makeDirectories hground directory
  rw [h] at hmade
  exact hmade.1.grounded hground

/-- What is written last is read back. -/
theorem read_of_writeAll {list : List (String × String)} (hground : files.Grounded)
    (h : runOn (writer.writeAll directory (list ++ [(name, text)])) files = (.ok (), after)) :
    after.read (DiskPath.join directory name) = .ok (Text.Utf8.encode text.toList) := by
  induction list generalizing files with
  | nil =>
    rw [List.nil_append, runOn_writeAll_cons] at h
    rcases hwrite : runOn (writer.writeInto directory name text) files with ⟨result, changed⟩
    rw [hwrite] at h
    cases result with
    | error problem => cases (Prod.mk.inj h).1
    | ok value =>
      obtain rfl : changed = after := (Prod.mk.inj h).2
      obtain ⟨prepared, hmade, hwritten⟩ := exists_of_runOn_writeInto_eq_ok hwrite
      exact read_of_write (grounded_of_makeDirectories hground hmade) hwritten
  | cons item list ih =>
    rw [List.cons_append, runOn_writeAll_cons] at h
    rcases hwrite : runOn (writer.writeInto directory item.1 item.2) files with ⟨result, changed⟩
    rw [hwrite] at h
    cases result with
    | error problem => cases (Prod.mk.inj h).1
    | ok value =>
      obtain ⟨prepared, hmade, hwritten⟩ := exists_of_runOn_writeInto_eq_ok hwrite
      have hprepared := grounded_of_makeDirectories hground hmade
      obtain ⟨target, -, hgains⟩ := gains_of_write hprepared hwritten
      exact ih (hprepared.gains hgains) h

/-- The last file of a plan that was carried out is read back. -/
theorem read_of_carryOut {plan : Plan} {list : List (String × String)} {printed : String} (hground : files.Grounded)
    (hfiles : plan.files = list ++ [(name, text)]) (h : ((writer.carryOut plan).run files).1 = .finished printed) :
    ((writer.carryOut plan).run files).2.read (DiskPath.join plan.directory name) =
      .ok (Text.Utf8.encode text.toList) := by
  rw [run_carryOut, hfiles] at h ⊢
  rcases hwrite : runOn (writer.writeAll plan.directory (list ++ [(name, text)])) files with ⟨result, changed⟩
  rw [hwrite] at h
  cases result with
  | error problem => cases h
  | ok value => exact read_of_writeAll hground hwrite

/-! ### The same plan on two file systems -/

/-- Two file systems that differ in one file at most, with a directory to write into. -/
structure Twins (before after : FileSystem) (directory : String) : Prop where
  grounded : before.Grounded
  prepared : before.Prepared directory
  differ : ∃ place file, Gains before after place (.file file)

namespace Twins

theorem prepared_after (h : Twins before after directory) : after.Prepared directory := by
  obtain ⟨place, file, hgains⟩ := h.differ
  exact h.prepared.imp_right fun hdirectory => isDirectory_of_gains hdirectory hgains

/-- Writing a file to both of them leaves twins. -/
theorem put {changed changed' : FileSystem} {target : Place} {written : File} (h : Twins before after directory)
    (hchanged : Gains before changed target (.file written)) (hchanged' : Gains after changed' target (.file written)) :
    Twins changed changed' directory := by
  obtain ⟨place, file, hgains⟩ := h.differ
  obtain ⟨now, hnow⟩ := hgains.put_both hchanged hchanged'
  exact ⟨h.grounded.gains hchanged, h.prepared.imp_right fun hdirectory => isDirectory_of_gains hdirectory hchanged,
    place, now, hnow⟩

/-- The result of writing a file to both: it is written to both and read alike, or to neither and read from neither. -/
theorem runOn_writeInto (h : Twins before after directory) (name text : String) :
    (∃ changed changed', runOn (writer.writeInto directory name text) before = (.ok (), changed) ∧
      runOn (writer.writeInto directory name text) after = (.ok (), changed') ∧ Twins changed changed' directory ∧
      Alike changed changed' (DiskPath.join directory name) ∧
      ∀ path, Alike before after path → Alike changed changed' path) ∨
    ∃ problem problem', runOn (writer.writeInto directory name text) before = (.error problem, before) ∧
      runOn (writer.writeInto directory name text) after = (.error problem', after) ∧
      (before.read (DiskPath.join directory name)).toOption = none ∧
      (after.read (DiskPath.join directory name)).toOption = none := by
  obtain ⟨place, file, hgains⟩ := h.differ
  have hground := h.grounded.gains hgains
  rw [FileSystem.runOn_writeInto (makeDirectories_of_prepared h.prepared),
    FileSystem.runOn_writeInto (makeDirectories_of_prepared h.prepared_after)]
  have hunread : ∀ {files : FileSystem} {failure}, files.Grounded →
      files.write (DiskPath.join directory name) (Text.Utf8.encode text.toList) = .error failure →
      (files.read (DiskPath.join directory name)).toOption = none := by
    intro files failure hground hfailure
    cases hread : files.read (DiskPath.join directory name) with
    | error _ => rfl
    | ok old =>
      obtain ⟨changed, hchanged⟩ := exists_write_of_read hground hread (Text.Utf8.encode text.toList)
      rw [hfailure] at hchanged
      cases hchanged
  cases hbefore : before.write (DiskPath.join directory name) (Text.Utf8.encode text.toList) with
  | ok changed =>
    obtain ⟨target, changed', hafter, hchanged, hchanged'⟩ := write_of_gains h.grounded hgains hbefore
    rw [hafter]
    exact .inl ⟨changed, changed', rfl, rfl, h.put hchanged hchanged',
      ⟨_, read_of_write h.grounded hbefore, read_of_write hground hafter⟩,
      fun path hpath => hpath.write hgains hchanged hchanged'⟩
  | error failure =>
    cases hafter : after.write (DiskPath.join directory name) (Text.Utf8.encode text.toList) with
    | ok changed' =>
      obtain ⟨changed, hchanged⟩ := exists_write_of_gains h.grounded hgains hafter
      rw [hbefore] at hchanged
      cases hchanged
    | error failure' => exact .inr ⟨_, _, rfl, rfl, hunread h.grounded hbefore, hunread hground hafter⟩

end Twins

/-- Some files of a directory are the same in two file systems, up to the first that neither of them has. -/
def SameFiles (files other : FileSystem) (directory : String) : List String → Prop
  | [] => True
  | name :: rest =>
    (files.read (DiskPath.join directory name)).toOption = (other.read (DiskPath.join directory name)).toOption ∧
      ((files.read (DiskPath.join directory name)).toOption.isSome → SameFiles files other directory rest)

theorem Alike.toOption_eq {path : String} (h : Alike before after path) :
    (before.read path).toOption = (after.read path).toOption := by
  obtain ⟨octets, hbefore, hafter⟩ := h
  rw [hbefore, hafter]

/-- **The same files are written to twins**, all of them or up to the same one. -/
theorem writeAll_twins (h : Twins before after directory) (list : List (String × String)) :
    let done := runOn (writer.writeAll directory list) before
    let done' := runOn (writer.writeAll directory list) after
    done.1.isOk = done'.1.isOk ∧ SameFiles done.2 done'.2 directory (list.map Prod.fst) ∧
      ∀ path, Alike before after path → Alike done.2 done'.2 path := by
  induction list generalizing before after with
  | nil => exact ⟨rfl, trivial, fun path hpath => hpath⟩
  | cons item rest ih =>
    simp only [runOn_writeAll_cons]
    rcases h.runOn_writeInto item.1 item.2 with
      ⟨changed, changed', hbefore, hafter, htwins, halike, hkept⟩ | ⟨_, _, hbefore, hafter, hunread, hunread'⟩
    · rw [hbefore, hafter]
      obtain ⟨hok, hsame, hpaths⟩ := ih htwins
      exact ⟨hok, ⟨(hpaths _ halike).toOption_eq, fun _ => hsame⟩, fun path hpath => hpaths path (hkept path hpath)⟩
    · rw [hbefore, hafter]
      refine ⟨rfl, ⟨hunread.trans hunread'.symm, fun hsome => ?_⟩, fun path hpath => hpath⟩
      rw [hunread] at hsome
      cases hsome

end FileSystem

end PageGraph
