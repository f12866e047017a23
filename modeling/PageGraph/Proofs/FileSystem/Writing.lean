import PageGraph.FileSystem.Writing
import PageGraph.Proofs.FileSystem.Reading

/-!
# Writing through paths

A file that is written is one change of one place, so what was written is read back, and a file system that differs
from another in one file only can be written to wherever the other can.

* `gains_of_write`, `read_of_write` : what writing changes;
* `write_of_gains`, `write_of_gains_ok` : writing to file systems that differ in one file;
* `Alike` : a file that is read alike in two file systems, which writing the same to both keeps.
-/

namespace PageGraph

theorem Target.filled_place (target : Target) : target.filled target.place = .found target.place := by
  cases target with
  | found place => rfl
  | absent directory name => exact if_pos rfl

namespace FileSystem

variable {files before after changed other : FileSystem} {path : String} {octets : List UInt8} {place : Place}
  {file : File} {target : Target}

/-! ### What writing changes -/

theorem write_eq_ok_iff (hground : files.Grounded) :
    files.write path octets = .ok after ↔
      ∃ target, files.LeadsTo .write path target ∧ files.at? target.place ≠ some .directory ∧
        after = files.put target.place (.file { octets }) := by
  simp only [← locate_eq_ok_iff, write]
  cases hlocate : files.locate .write path with
  | error failure => simp [bind, Except.bind]
  | ok target =>
    have hend := (locate_eq_ok_iff.1 hlocate).ends hground
    cases target with
    | absent directory name => simp [bind, Except.bind, Target.place, hend.2, eq_comm]
    | found place =>
      obtain ⟨node, hnode, -⟩ := hend
      cases node <;> simp [bind, Except.bind, Target.place, hnode, eq_comm]

/-- Where a path that one can write to ends there is nothing, or a file, in a directory. -/
theorem LeadsTo.exists_place (h : files.LeadsTo .write path target) (hground : files.Grounded)
    (hplace : files.at? target.place ≠ some .directory) :
    ∃ directory name, target.place = directory ++ [name] ∧ files.at? directory = some .directory ∧
      (files.at? (directory ++ [name]) = none ∨ ∃ old, files.at? (directory ++ [name]) = some (.file old)) := by
  have hend := h.ends hground
  cases target with
  | absent directory name => exact ⟨directory, name, rfl, hend.1, .inl hend.2⟩
  | found place =>
    obtain ⟨node, hnode, hlink⟩ := hend
    rcases List.eq_nil_or_concat place with rfl | ⟨directory, name, rfl⟩
    · exact absurd hground.root hplace
    · rw [List.concat_eq_append] at hnode
      rw [Target.place, List.concat_eq_append] at hplace
      refine ⟨directory, name, List.concat_eq_append, at?_eq_directory_of_append hnode (by simp), .inr ?_⟩
      cases node with
      | file old => exact ⟨old, hnode⟩
      | directory => exact absurd hnode hplace
      | link path => exact absurd rfl (hlink (by simp) path)

/-- **Writing changes one place**, the one to which the path leads. -/
theorem gains_of_write (hground : files.Grounded) (h : files.write path octets = .ok after) :
    ∃ target, files.LeadsTo .write path target ∧ Gains files after target.place (.file { octets }) := by
  obtain ⟨target, hleads, hplace, rfl⟩ := (write_eq_ok_iff hground).1 h
  obtain ⟨directory, name, heq, hdirectory, hheld⟩ := hleads.exists_place hground hplace
  refine ⟨target, hleads, ?_⟩
  rw [heq]
  exact gains_put_file hdirectory hheld _

theorem LeadsTo.look_of_write (h : files.LeadsTo .write path target) : files.LeadsTo .look path target := by
  obtain ⟨route, hroute, hleads⟩ := h
  exact ⟨route, hroute, hleads.look (by simp)⟩

/-- Where a file has been written, its path leads there afterwards. -/
theorem exists_gains_of_write (hground : files.Grounded) (h : files.write path octets = .ok after) :
    ∃ place, Gains files after place (.file { octets }) ∧ after.LeadsTo .look path (.found place) := by
  obtain ⟨target, hleads, hgains⟩ := gains_of_write hground h
  have hfound := hleads.look_of_write.gains hgains
  rw [Target.filled_place] at hfound
  exact ⟨_, hgains, hfound⟩

/-- What was written is read through each path that leads to the same file. -/
theorem LeadsTo.read_of_write {read : String} (hread : files.LeadsTo .look read target)
    (hleads : files.LeadsTo .write path target) (hground : files.Grounded) (h : files.write path octets = .ok after) :
    after.read read = .ok octets := by
  obtain ⟨target', hleads', hgains⟩ := gains_of_write hground h
  obtain rfl := hleads'.unique hleads
  have hfound := hread.gains hgains
  rw [Target.filled_place] at hfound
  exact read_eq_ok_iff.2 ⟨_, _, hfound, hgains.at?_place, rfl⟩

/-- **What was written is read back.** -/
theorem read_of_write (hground : files.Grounded) (h : files.write path octets = .ok after) :
    after.read path = .ok octets := by
  obtain ⟨target, hleads, -⟩ := gains_of_write hground h
  exact hleads.look_of_write.read_of_write hleads hground h

/-- A file that can be read can be written over. -/
theorem exists_write_of_read {old : List UInt8} (hground : files.Grounded) (h : files.read path = .ok old)
    (octets : List UInt8) : ∃ after, files.write path octets = .ok after := by
  obtain ⟨place, file, ⟨route, hroute, hleads⟩, hfile, -⟩ := read_eq_ok_iff.1 h
  have hwrite := hleads.write_of_look hfile (hground.start _)
  refine ⟨_, (write_eq_ok_iff hground).2 ⟨.found place, ⟨route, hroute, hwrite⟩, ?_, rfl⟩⟩
  rw [Target.place, hfile]
  simp

/-! ### File systems that differ in one file -/

/-- The same file put into both keeps the difference of two file systems in its place. -/
theorem Gains.put_both {changedBefore changedAfter : FileSystem} {written : File} {target : Place}
    (h : Gains before after place (.file file)) (hbefore : Gains before changedBefore target (.file written))
    (hafter : Gains after changedAfter target (.file written)) :
    ∃ now, Gains changedBefore changedAfter place (.file now) := by
  refine ⟨if place = target then written else file, ?_, fun other => ?_, fun _ => Node.noConfusion, ?_⟩
  · rw [hafter.current, h.current, hbefore.current]
  · rw [hafter.at?_eq, hbefore.at?_eq, h.at?_eq]
    by_cases hplace : other = place
    · subst hplace
      by_cases htarget : other = target <;> simp [htarget]
    · simp [hplace]
  · rw [hbefore.at?_eq]
    by_cases htarget : place = target
    · exact .inr ⟨written, written, by rw [if_pos htarget], by rw [if_pos htarget]⟩
    · rw [if_neg htarget, if_neg htarget]
      exact h.held.imp_right fun ⟨old, _, hold, _⟩ => ⟨old, file, hold, rfl⟩

/-- Where one can write, one can write after a file has been put somewhere, and to the same place. -/
theorem write_of_gains (hground : before.Grounded) (hgains : Gains before after place (.file file))
    (h : before.write path octets = .ok changed) :
    ∃ target changed', after.write path octets = .ok changed' ∧ Gains before changed target (.file { octets }) ∧
      Gains after changed' target (.file { octets }) := by
  obtain ⟨target, hleads, hplace, rfl⟩ := (write_eq_ok_iff hground).1 h
  have hleads' := hleads.gains hgains
  have hplace' : after.at? (target.filled place).place ≠ some .directory := fun hdirectory => by
    rw [Target.place_filled] at hdirectory
    exact hplace (hgains.at?_eq_of_now_not_file hdirectory fun _ => Node.noConfusion)
  have hwrite : after.write path octets = .ok (after.put target.place (.file { octets })) :=
    (write_eq_ok_iff (hground.gains hgains)).2 ⟨_, hleads', hplace', by rw [Target.place_filled]⟩
  obtain ⟨earlier, hearlier, hchanged⟩ := gains_of_write hground h
  obtain ⟨later, hlater, hchanged'⟩ := gains_of_write (hground.gains hgains) hwrite
  obtain rfl := hearlier.unique hleads
  obtain rfl := hlater.unique hleads'
  rw [Target.place_filled] at hchanged'
  exact ⟨_, _, hwrite, hchanged, hchanged'⟩

/-- Where one can write after a file has been put somewhere, one could write before. -/
theorem exists_write_of_gains (hground : before.Grounded) (hgains : Gains before after place (.file file))
    (h : after.write path octets = .ok changed) : ∃ earlier, before.write path octets = .ok earlier := by
  obtain ⟨target, hleads, hplace, -⟩ := (write_eq_ok_iff (hground.gains hgains)).1 h
  obtain ⟨earlier, hearlier⟩ := hleads.of_gains_file hgains
  obtain rfl := (hearlier.gains hgains).unique hleads
  refine ⟨_, (write_eq_ok_iff hground).2 ⟨earlier, hearlier, fun hdirectory => hplace ?_, rfl⟩⟩
  rw [Target.place_filled]
  exact hgains.at?_eq_of_not_file hdirectory fun _ => Node.noConfusion

/-! ### Files that are read alike -/

/-- Through a path a file is read in two file systems, and its octets are the same in both. -/
def Alike (files other : FileSystem) (path : String) : Prop :=
  ∃ octets, files.read path = .ok octets ∧ other.read path = .ok octets

/-- What is read alike after a file has been put somewhere is read alike when the same is written to both. -/
theorem Alike.write {changed' : FileSystem} {read : String} {target : Place} {written : File}
    (h : Alike before after read) (hgains : Gains before after place (.file file))
    (hchanged : Gains before changed target (.file written)) (hchanged' : Gains after changed' target (.file written)) :
    Alike changed changed' read := by
  obtain ⟨octets, hbefore, hafter⟩ := h
  obtain ⟨found, old, hleads, hold, rfl⟩ := read_eq_ok_iff.1 hbefore
  obtain ⟨found', now, hleads', hnow, heq⟩ := read_eq_ok_iff.1 hafter
  -- a path that leads to something leads to the same place afterwards
  obtain rfl := Target.found.inj (hleads'.unique (hleads.gains hgains))
  by_cases htarget : found' = target
  · subst htarget
    exact ⟨written.octets, read_eq_ok_iff.2 ⟨_, _, hleads.gains hchanged, hchanged.at?_place, rfl⟩,
      read_eq_ok_iff.2 ⟨_, _, hleads'.gains hchanged', hchanged'.at?_place, rfl⟩⟩
  · refine ⟨old.octets, read_of_gains hleads hold hchanged htarget, ?_⟩
    rw [← heq]
    exact read_of_gains hleads' hnow hchanged' htarget

end FileSystem

end PageGraph
