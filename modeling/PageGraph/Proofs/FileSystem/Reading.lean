import PageGraph.Proofs.FileSystem.Resolution

/-!
# Reading through paths

`LeadsTo` is the relation of a path to the place at its end. What is read through a path is what is at that place, and a
change of one place changes only what is read there: a path that leads somewhere leads to the same place
afterwards.

* `locate_eq_ok_iff`, `canonicalize_eq_ok_iff`, `isDirectory_iff`, `read_eq_ok_iff` : operations told by `LeadsTo`;
* `LeadsTo.gains`, `isDirectory_of_gains`, `read_of_gains` : what a change of one place keeps.
-/

namespace PageGraph.FileSystem

/-- A path leads to a target. -/
def LeadsTo (files : FileSystem) (purpose : Purpose) (path : String) (target : Target) : Prop :=
  ∃ route, Route.ofPath purpose.longestPath path = .ok route ∧
    Leads files purpose maxLinks (if route.absolute then [] else files.current) route.steps target

/-- Relative paths start in a directory, and absolute ones do too, since the root is above it. -/
def Grounded (files : FileSystem) : Prop := files.at? files.current = some .directory

variable {files before after : FileSystem} {purpose : Purpose} {path : String} {target : Target} {place : Place}
  {node : Node}

/-! ### Operations -/

theorem locate_eq_ok_iff : files.locate purpose path = .ok target ↔ files.LeadsTo purpose path target := by
  rw [locate, LeadsTo]
  cases Route.ofPath purpose.longestPath path with
  | error failure => exact ⟨fun h => (nomatch h), fun ⟨_, h, _⟩ => (nomatch h)⟩
  | ok route =>
    have hfollow : ∀ result : Except OsError Target, result.mapError IoFailure.os = .ok target ↔ result = .ok target := by
      intro result
      cases result with
      | error failure => exact ⟨nofun, nofun⟩
      | ok other =>
        exact ⟨fun h => congrArg Except.ok (Except.ok.inj h), fun h => congrArg Except.ok (Except.ok.inj h)⟩
    refine (hfollow _).trans (follow_eq_ok_iff.trans ⟨fun h => ⟨route, rfl, h⟩, ?_⟩)
    rintro ⟨_, heq, h⟩
    obtain rfl := Except.ok.inj heq
    exact h

theorem place?_eq_ok_iff : files.place? purpose path = .ok place ↔ files.LeadsTo purpose path (.found place) := by
  rw [← locate_eq_ok_iff, place?]
  cases files.locate purpose path with
  | error failure => exact ⟨fun h => (nomatch h), fun h => (nomatch h)⟩
  | ok target =>
    cases target with
    | found other => simp [bind, Except.bind]
    | absent directory name => simp [bind, Except.bind]

theorem canonicalize_eq_ok_iff : files.canonicalize path = .ok place ↔ files.LeadsTo .spellOut path (.found place) :=
  place?_eq_ok_iff

theorem entry?_eq_ok_iff {entry : Entry File} :
    files.entry? path = .ok entry ↔
      ∃ place, files.LeadsTo .look path (.found place) ∧ files.get? place = some entry := by
  simp only [← place?_eq_ok_iff, entry?]
  cases files.place? .look path with
  | error failure => simp [bind, Except.bind]
  | ok place => cases hget : files.get? place <;> simp [bind, Except.bind, hget]

theorem isDirectory_iff :
    files.isDirectory path = true ↔
      ∃ place, files.LeadsTo .look path (.found place) ∧ files.at? place = some .directory := by
  simp only [at?_eq_directory_iff, isDirectory]
  constructor
  · intro h
    cases hentry : files.entry? path with
    | error failure =>
      rw [hentry] at h
      cases h
    | ok entry =>
      rw [hentry] at h
      obtain ⟨place, hplace, hget⟩ := entry?_eq_ok_iff.1 hentry
      cases entry with
      | directory entries => exact ⟨place, hplace, entries, hget⟩
      | file content => cases h
      | link path => cases h
  · rintro ⟨place, hplace, entries, hget⟩
    rw [entry?_eq_ok_iff.2 ⟨place, hplace, hget⟩]
    rfl

theorem read_eq_ok_iff {octets : List UInt8} :
    files.read path = .ok octets ↔
      ∃ place file, files.LeadsTo .look path (.found place) ∧ files.at? place = some (.file file) ∧
        file.octets = octets := by
  simp only [at?_eq_file_iff, read]
  constructor
  · intro h
    cases hentry : files.entry? path with
    | error failure =>
      rw [hentry] at h
      cases h
    | ok entry =>
      rw [hentry] at h
      obtain ⟨place, hplace, hget⟩ := entry?_eq_ok_iff.1 hentry
      cases entry with
      | file content => exact ⟨place, content, hplace, hget, Except.ok.inj h⟩
      | directory entries => cases h
      | link path => cases h
  · rintro ⟨place, file, hplace, hget, rfl⟩
    rw [entry?_eq_ok_iff.2 ⟨place, hplace, hget⟩]
    rfl

/-! ### Where paths start and end -/

namespace Grounded

theorem root (h : files.Grounded) : files.at? [] = some .directory := by
  by_cases hcurrent : files.current = []
  · rw [Grounded, hcurrent] at h
    exact h
  · have hroot : files.at? ([] ++ files.current) = some .directory := h
    exact at?_eq_directory_of_append hroot hcurrent

theorem start (h : files.Grounded) (absolute : Bool) :
    files.at? (if absolute then [] else files.current) = some .directory := by
  split
  · exact h.root
  · exact h

theorem gains (h : before.Grounded) (hgains : Gains before after place node) : after.Grounded := by
  rw [Grounded, hgains.current]
  exact hgains.at?_eq_of_not_file h fun _ => Node.noConfusion

end Grounded

theorem LeadsTo.ends (h : files.LeadsTo purpose path target) (hground : files.Grounded) : target.IsEnd files purpose := by
  obtain ⟨route, -, hleads⟩ := h
  exact hleads.ends (hground.start _)

/-- The longest path is limited for some purposes only. -/
theorem ofPath_unlimited {longest : Option Nat} {route : Route} (h : Route.ofPath longest path = .ok route) :
    Route.ofPath none path = .ok route := by
  unfold Route.ofPath at h ⊢
  dsimp only at h ⊢
  split at h
  · cases h
  · split at h
    · cases h
    · split at h
      · cases h
      · next hnul hempty _ =>
        rw [if_neg hnul, if_neg hempty, if_neg (by simp)]
        exact h

/-- A place that is spelled out is the one that is seen. -/
theorem LeadsTo.spellOut_unique {other : Target} (h : files.LeadsTo .spellOut path target)
    (hother : files.LeadsTo .look path other) : target = other := by
  obtain ⟨route, hroute, hleads⟩ := h
  obtain ⟨route', hroute', hleads'⟩ := hother
  obtain rfl := Except.ok.inj (hroute.symm.trans (ofPath_unlimited hroute'))
  have hlook := hleads.look (by simp)
  exact Except.ok.inj ((follow_of_leads hlook).symm.trans (follow_of_leads hleads'))

/-- A path leads to one place at most. -/
theorem LeadsTo.unique {other : Target} (h : files.LeadsTo purpose path target) (hother : files.LeadsTo purpose path other) :
    target = other :=
  Except.ok.inj ((locate_eq_ok_iff.2 h).symm.trans (locate_eq_ok_iff.2 hother))

/-! ### After a change of one place -/

theorem LeadsTo.gains (h : before.LeadsTo purpose path target) (hgains : Gains before after place node) :
    after.LeadsTo purpose path (target.filled place) := by
  obtain ⟨route, hroute, hleads⟩ := h
  rw [← hgains.current] at hleads
  exact ⟨route, hroute, hleads.gains hgains⟩

theorem LeadsTo.of_gains_file {file : File} (h : after.LeadsTo purpose path target)
    (hgains : Gains before after place (.file file)) : ∃ earlier, before.LeadsTo purpose path earlier := by
  obtain ⟨route, hroute, hleads⟩ := h
  rw [hgains.current] at hleads
  obtain ⟨earlier, hearlier⟩ := hleads.of_gains_file hgains
  exact ⟨earlier, route, hroute, hearlier⟩

theorem isDirectory_of_gains (h : before.isDirectory path = true) (hgains : Gains before after place node) :
    after.isDirectory path = true := by
  rw [isDirectory_iff] at h ⊢
  obtain ⟨other, hleads, hother⟩ := h
  exact ⟨other, hleads.gains hgains, hgains.at?_eq_of_not_file hother fun _ => Node.noConfusion⟩

/-- A file that is read from another place is not changed. -/
theorem read_of_gains {other : Place} {file : File} (h : before.LeadsTo .look path (.found other))
    (hfile : before.at? other = some (.file file)) (hgains : Gains before after place node) (hother : other ≠ place) :
    after.read path = .ok file.octets :=
  read_eq_ok_iff.2 ⟨other, file, h.gains hgains, by rw [hgains.at?_of_ne hother, hfile], rfl⟩

end PageGraph.FileSystem
