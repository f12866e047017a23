import Mathlib.Logic.Relation
import PageGraph.Disk.Writing
import PageGraph.Proofs.FileSystem.Writing

/-!
# Making directories

A directory that is needed is made with those above it that are missing. Each step makes one directory, whatever
comes of the next ones, so the file system only grows, and no path that led somewhere leads elsewhere.

* `gains_of_makeDirectory`, `makeDirectory_of_isDirectory` : one step;
* `Grows` : the relation of a file system to one with more directories;
* `made_makeDirectories` : when the directory has been made it is there;
* `makeDirectories_of_prepared` : nothing happens when it is there already.
-/

namespace PageGraph.FileSystem

variable {files before after : FileSystem} {path : String}

/-! ### One directory -/

theorem ofOctets_steps (octets : List UInt8) :
    ∃ ending, (∀ name ∈ ending, name = []) ∧ (Route.ofOctets octets).steps = (Route.ofOctets octets).names ++ ending := by
  refine ⟨if (Route.ofOctets octets).trailingSlash then [[]] else [], fun name hname => ?_, rfl⟩
  split at hname
  · exact List.mem_singleton.1 hname
  · cases hname

/-- The slash behind the last name of a path counts for some purposes only. -/
theorem exists_ending {longest : Option Nat} {route : Route} (h : Route.ofPath longest path = .ok route) :
    ∃ ending, (∀ name ∈ ending, name = []) ∧ route.steps = route.names ++ ending := by
  unfold Route.ofPath at h
  dsimp only at h
  split at h
  · cases h
  split at h
  · cases h
  split at h
  · cases h
  · obtain rfl := Except.ok.inj h
    exact ofOctets_steps _

/-- A directory that has been made is there, at a place that held nothing. -/
theorem gains_of_makeDirectory (hground : files.Grounded) (h : files.makeDirectory path = .ok after) :
    ∃ place, Gains files after place .directory ∧ after.LeadsTo .look path (.found place) := by
  unfold makeDirectory at h
  cases hroute : Route.ofPath (some Route.maxLength) path with
  | error failure =>
    rw [hroute] at h
    cases h
  | ok route =>
    rw [hroute] at h
    cases hfollow : files.follow .name maxLinks (if route.absolute then [] else files.current) route.names with
    | error failure =>
      simp only [bind, Except.bind, hfollow] at h
      cases h
    | ok target =>
      cases target with
      | found place =>
        simp only [bind, Except.bind, hfollow] at h
        cases h
      | absent directory name =>
        simp only [bind, Except.bind, hfollow] at h
        obtain rfl := Except.ok.inj h
        have hleads := follow_eq_ok_iff.1 hfollow
        obtain ⟨hdirectory, hnone⟩ := hleads.ends (hground.start _)
        have hgains := gains_put_directory hdirectory hnone
        obtain ⟨ending, hending, hsteps⟩ := exists_ending hroute
        refine ⟨_, hgains, route, hroute, ?_⟩
        rw [hsteps]
        exact hleads.look_of_name hending hgains

theorem makeDirectory_of_isDirectory (h : files.isDirectory path = true) :
    files.makeDirectory path = .error (.os .exists) := by
  obtain ⟨place, ⟨route, hroute, hleads⟩, -⟩ := isDirectory_iff.1 h
  obtain ⟨ending, -, hsteps⟩ := exists_ending hroute
  rw [hsteps] at hleads
  obtain ⟨other, hother⟩ := hleads.name_of_look
  have hroute' : Route.ofPath (some Route.maxLength) path = .ok route := hroute
  simp only [makeDirectory, hroute', bind, Except.bind, follow_eq_ok_iff.2 hother]

/-! ### Growth -/

/-- A file system is another with directories added, one after the other. -/
def Grows : FileSystem → FileSystem → Prop :=
  Relation.ReflTransGen fun before after => ∃ place, Gains before after place .directory

namespace Grows

theorem grounded (h : Grows before after) (hground : before.Grounded) : after.Grounded := by
  induction h with
  | refl => exact hground
  | tail _ hlast ih =>
    obtain ⟨place, hgains⟩ := hlast
    exact ih.gains hgains

/-- A path that leads somewhere leads there still. -/
theorem leadsTo {purpose : Purpose} {place : Place} (h : Grows before after)
    (hleads : before.LeadsTo purpose path (.found place)) : after.LeadsTo purpose path (.found place) := by
  induction h with
  | refl => exact hleads
  | tail _ hlast ih =>
    obtain ⟨other, hgains⟩ := hlast
    exact ih.gains hgains

end Grows

/-! ### A directory and those above it -/

/-- A directory is there to write into; the empty path stands for the current one. -/
def Prepared (files : FileSystem) (path : String) : Prop := path.isEmpty = true ∨ files.isDirectory path = true

theorem run_makeDirectory (files : FileSystem) (path : String) :
    (writer.makeDirectory path).run files =
      match files.makeDirectory path with
      | .ok changed => (.ok (), changed)
      | .error failure => (.error failure, files) := rfl

theorem run_unlessPresent_error (files : FileSystem) (path : String) (failure : IoFailure) :
    (writer.unlessPresent path (.error failure)).run files =
      (if files.isDirectory path then .ok () else .error failure, files) := by
  have hrun : (writer.unlessPresent path (.error failure)).run files =
      (if files.isDirectory path then pure (.ok ()) else pure (.error failure) : StateM FileSystem _).run files := rfl
  rw [hrun]
  split <;> rfl

/-- Nothing else is made unless the directory above is missing. -/
theorem run_makeChain_of_not_missing {above : List String} (hpath : path.isEmpty = false)
    (h : files.makeDirectory path ≠ .error (.os .notFound)) :
    (writer.makeChain (path :: above)).run files =
      (writer.unlessPresent path ((writer.makeDirectory path).run files).1).run
        ((writer.makeDirectory path).run files).2 := by
  rw [Disk.Writer.makeChain, if_neg (by simp [hpath]), StateT.run_bind, run_makeDirectory]
  cases hmake : files.makeDirectory path with
  | ok changed => rfl
  | error failure =>
    rw [hmake] at h
    cases failure with
    | other message denied => rfl
    | os error =>
      cases error with
      | notFound => exact absurd rfl h
      | _ => rfl

/-- If the directory above is missing it is made first, with those above it. -/
theorem run_makeChain_of_missing {above : List String} (hpath : path.isEmpty = false)
    (h : files.makeDirectory path = .error (.os .notFound)) :
    (writer.makeChain (path :: above)).run files =
      match (writer.makeChain above).run files with
      | (.error failure, after) => (.error failure, after)
      | (.ok (), after) =>
        (writer.unlessPresent path ((writer.makeDirectory path).run after).1).run
          ((writer.makeDirectory path).run after).2 := by
  rw [Disk.Writer.makeChain, if_neg (by simp [hpath]), StateT.run_bind, run_makeDirectory, h]
  change (writer.makeChain above >>= _).run files = _
  rw [StateT.run_bind]
  rcases (writer.makeChain above).run files with ⟨result, after⟩
  cases result <;> rfl

/-- What making a directory ends in: the file system has grown, and if all went well the directory is there. -/
def Made (files : FileSystem) (path : String) (done : Except IoFailure Unit × FileSystem) : Prop :=
  Grows files done.2 ∧ (done.1 = .ok () → Prepared done.2 path)

/-- The last step makes one directory, or finds that it is there. -/
theorem made_of_grows (hgrows : Grows files before) (hground : before.Grounded) :
    Made files path ((writer.unlessPresent path ((writer.makeDirectory path).run before).1).run
      ((writer.makeDirectory path).run before).2) := by
  rw [run_makeDirectory]
  cases hmake : before.makeDirectory path with
  | ok changed =>
    obtain ⟨place, hgains, hleads⟩ := gains_of_makeDirectory hground hmake
    exact ⟨hgrows.tail ⟨place, hgains⟩, fun _ => .inr (isDirectory_iff.2 ⟨place, hleads, hgains.at?_place⟩)⟩
  | error failure =>
    refine ⟨?_, fun hok => ?_⟩
    · rw [run_unlessPresent_error]
      exact hgrows
    · rw [run_unlessPresent_error] at hok ⊢
      by_cases hpresent : before.isDirectory path = true
      · exact .inr hpresent
      · rw [if_neg hpresent] at hok
        cases hok

theorem made_of_above (hground : files.Grounded) {above : List String}
    (habove : Grows files ((writer.makeChain above).run files).2) :
    Made files path ((writer.makeChain (path :: above)).run files) := by
  cases hpath : path.isEmpty with
  | true =>
    rw [Disk.Writer.makeChain, if_pos hpath]
    exact ⟨.refl, fun _ => .inl hpath⟩
  | false =>
    by_cases hmissing : files.makeDirectory path = .error (.os .notFound)
    · rw [run_makeChain_of_missing hpath hmissing]
      rcases hrun : (writer.makeChain above).run files with ⟨result, after⟩
      rw [hrun] at habove
      cases result with
      | error failure => exact ⟨habove, fun hok => nomatch hok⟩
      | ok value => exact made_of_grows habove (habove.grounded hground)
    · rw [run_makeChain_of_not_missing hpath hmissing]
      exact made_of_grows .refl hground

theorem made_makeChain (hground : files.Grounded) (path : String) (above : List String) :
    Made files path ((writer.makeChain (path :: above)).run files) := by
  induction above generalizing path with
  | nil => exact made_of_above hground .refl
  | cons upper above ih => exact made_of_above hground (ih upper).1

/-- **A directory that has been made is there**, with no change but that directories were added. -/
theorem made_makeDirectories (hground : files.Grounded) (path : String) :
    Made files path ((writer.makeDirectories path).run files) :=
  made_makeChain hground path _

/-- Nothing happens to a directory that is there. -/
theorem makeDirectories_of_prepared (h : files.Prepared path) :
    (writer.makeDirectories path).run files = (.ok (), files) := by
  rw [Disk.Writer.makeDirectories, DiskPath.ancestors]
  cases hpath : path.isEmpty with
  | true =>
    rw [Disk.Writer.makeChain, if_pos hpath]
    rfl
  | false =>
    have hpresent := h.resolve_left (by simp [hpath])
    have hmake := makeDirectory_of_isDirectory hpresent
    rw [run_makeChain_of_not_missing hpath (by simp [hmake]), run_makeDirectory, hmake]
    simp only [run_unlessPresent_error, if_pos hpresent]

end PageGraph.FileSystem
