import Mathlib.Data.List.Basic
import PageGraph.Disk.Entry

/-!
# Directory trees and their files

What a walk of a directory tree lists, in terms of what lies where in the tree.

* `mem_files_nil_iff`, `mem_files_cons_iff` : the files of a tree, level by level;
* `get?_of_mem_files` : what a walk lists is there;
* `every` : a check of all entries of a tree;
* `files_eq_listed` : a walk of a tree whose directories are in order.
-/

namespace PageGraph

namespace Entry

variable {α β : Type}

/-! ### The files of a tree -/

theorem filesByName_eq (entries : List (Name × Entry α)) :
    filesByName entries =
      entries.map fun (name, entry) => (name, entry.files.map fun (place, value) => (name :: place, value)) := by
  induction entries with
  | nil => rfl
  | cons entry entries ih => rw [filesByName, ih, List.map_cons]

theorem mem_files_nil_iff {entry : Entry α} {value : α} : ([], value) ∈ entry.files ↔ entry = .file value := by
  cases entry with
  | file other => simp [files, eq_comm]
  | link target => simp [files]
  | directory entries =>
    simp only [files, List.mem_flatMap, List.mem_mergeSort, filesByName_eq, List.mem_map]
    constructor
    · rintro ⟨_, ⟨⟨name, entry⟩, -, rfl⟩, hmem⟩
      obtain ⟨⟨place, other⟩, -, heq⟩ := List.mem_map.1 hmem
      cases heq
    · intro h
      cases h

/-- The files further down lie in the entries of a directory. -/
theorem mem_files_cons_iff {entry : Entry α} {name : Name} {rest : Place} {value : α} :
    (name :: rest, value) ∈ entry.files ↔
      ∃ entries lower, entry = .directory entries ∧ (name, lower) ∈ entries ∧ (rest, value) ∈ lower.files := by
  cases entry with
  | file other => simp [files]
  | link target => simp [files]
  | directory entries =>
    simp only [files, List.mem_flatMap, List.mem_mergeSort, filesByName_eq, List.mem_map]
    constructor
    · rintro ⟨_, ⟨⟨first, lower⟩, hlower, rfl⟩, hmem⟩
      obtain ⟨⟨place, other⟩, hother, heq⟩ := List.mem_map.1 hmem
      obtain ⟨hplace, rfl⟩ := Prod.mk.inj heq
      obtain ⟨rfl, rfl⟩ := List.cons.inj hplace
      exact ⟨entries, lower, rfl, hlower, hother⟩
    · rintro ⟨_, lower, heq, hlower, hmem⟩
      obtain rfl := directory.inj heq
      exact ⟨_, ⟨⟨name, lower⟩, hlower, rfl⟩, List.mem_map.2 ⟨⟨rest, value⟩, hmem, rfl⟩⟩

/-- The files further down in a directory. -/
theorem mem_files_directory_iff {entries : List (Name × Entry α)} {name : Name} {rest : Place} {value : α} :
    (name :: rest, value) ∈ (Entry.directory entries).files ↔
      ∃ lower, (name, lower) ∈ entries ∧ (rest, value) ∈ lower.files := by
  rw [mem_files_cons_iff]
  constructor
  · rintro ⟨_, lower, heq, hlower, hmem⟩
    obtain rfl := directory.inj heq
    exact ⟨lower, hlower, hmem⟩
  · rintro ⟨lower, hlower, hmem⟩
    exact ⟨entries, lower, rfl, hlower, hmem⟩

/-! ### Other values, and less of a tree -/

theorem mapEntries_eq (f : α → β) (entries : List (Name × Entry α)) :
    mapEntries f entries = entries.map fun (name, entry) => (name, entry.map f) := by
  induction entries with
  | nil => rfl
  | cons entry entries ih => rw [mapEntries, ih, List.map_cons]

theorem mem_mapEntries_iff {f : α → β} {entries : List (Name × Entry α)} {name : Name} {entry : Entry β} :
    (name, entry) ∈ mapEntries f entries ↔ ∃ lower, (name, lower) ∈ entries ∧ lower.map f = entry := by
  simp [mapEntries_eq]

theorem entriesWithin_eq (room : ℕ) (entries : List (Name × Entry α)) :
    entriesWithin room entries =
      (entries.filter fun (name, _) => step name ≤ room).map fun (name, entry) =>
        (name, entry.within (room - step name)) := by
  induction entries with
  | nil => rfl
  | cons entry entries ih =>
    rw [entriesWithin, ih]
    by_cases hstep : step entry.1 ≤ room
    · rw [if_pos hstep, List.filter_cons_of_pos (by simp [hstep]), List.map_cons]
    · rw [if_neg hstep, List.filter_cons_of_neg (by simp [hstep])]

theorem mem_entriesWithin_iff {room : ℕ} {entries : List (Name × Entry α)} {name : Name} {entry : Entry α} :
    (name, entry) ∈ entriesWithin room entries ↔
      step name ≤ room ∧ ∃ lower, (name, lower) ∈ entries ∧ lower.within (room - step name) = entry := by
  simp only [entriesWithin_eq, List.mem_map, List.mem_filter, decide_eq_true_eq]
  constructor
  · rintro ⟨⟨first, lower⟩, ⟨hlower, hroom⟩, heq⟩
    obtain ⟨rfl, rfl⟩ := Prod.mk.inj heq
    exact ⟨hroom, lower, hlower, rfl⟩
  · rintro ⟨hroom, lower, hlower, rfl⟩
    exact ⟨(name, lower), ⟨hlower, hroom⟩, rfl⟩

/-- A tree with other values has its files at the same places. -/
theorem mem_files_map_iff {f : α → β} {entry : Entry α} {place : Place} {value : β} :
    (place, value) ∈ (entry.map f).files ↔ ∃ original, f original = value ∧ (place, original) ∈ entry.files := by
  induction place generalizing entry with
  | nil =>
    simp only [mem_files_nil_iff]
    cases entry with
    | file original => simp [map]
    | directory entries => simp [map]
    | link target => simp [map]
  | cons name rest ih =>
    cases entry with
    | file original => simp [map, files]
    | link target => simp [map, files]
    | directory entries =>
      rw [map]
      constructor
      · intro h
        obtain ⟨upper, hupper, hmem⟩ := mem_files_directory_iff.1 h
        obtain ⟨lower, hlower, rfl⟩ := mem_mapEntries_iff.1 hupper
        obtain ⟨original, hvalue, hfile⟩ := ih.1 hmem
        exact ⟨original, hvalue, mem_files_directory_iff.2 ⟨lower, hlower, hfile⟩⟩
      · rintro ⟨original, hvalue, h⟩
        obtain ⟨lower, hlower, hfile⟩ := mem_files_directory_iff.1 h
        exact mem_files_directory_iff.2
          ⟨lower.map f, mem_mapEntries_iff.2 ⟨lower, hlower, rfl⟩, ih.2 ⟨original, hvalue, hfile⟩⟩

/-- What is left of a tree is what is no further down than there is room. -/
theorem mem_files_within_iff {room : ℕ} {entry : Entry α} {place : Place} {value : α} :
    (place, value) ∈ (entry.within room).files ↔
      (place, value) ∈ entry.files ∧ (place.flatMap (Place.slash :: ·)).length ≤ room := by
  induction place generalizing entry room with
  | nil =>
    simp only [mem_files_nil_iff, List.flatMap_nil, List.length_nil, Nat.zero_le, and_true]
    cases entry with
    | file original => rfl
    | directory entries => simp [within]
    | link target => rfl
  | cons name rest ih =>
    cases entry with
    | file original => simp [within, files]
    | link target => simp [within, files]
    | directory entries =>
      have hlength : ((name :: rest).flatMap (Place.slash :: ·)).length ≤ room ↔
          step name ≤ room ∧ (rest.flatMap (Place.slash :: ·)).length ≤ room - step name := by
        rw [List.flatMap_cons, List.length_append, List.length_cons, step]
        omega
      rw [within, hlength, mem_files_directory_iff, mem_files_directory_iff]
      constructor
      · rintro ⟨upper, hupper, hmem⟩
        obtain ⟨hroom, lower, hlower, rfl⟩ := mem_entriesWithin_iff.1 hupper
        obtain ⟨hfile, hrest⟩ := ih.1 hmem
        exact ⟨⟨lower, hlower, hfile⟩, hroom, hrest⟩
      · rintro ⟨⟨lower, hlower, hfile⟩, hroom, hrest⟩
        exact ⟨_, mem_entriesWithin_iff.2 ⟨hroom, lower, hlower, rfl⟩, ih.2 ⟨hfile, hrest⟩⟩

/-! ### What is listed and what is there -/

theorem lookup_of_mem {entries : List (Name × Entry α)} (hnodup : (entries.map Prod.fst).Nodup) {name : Name}
    {entry : Entry α} (h : (name, entry) ∈ entries) : entries.lookup name = some entry := by
  induction entries with
  | nil => cases h
  | cons first entries ih =>
    obtain ⟨hfirst, hnodup⟩ := List.nodup_cons.1 hnodup
    rcases List.mem_cons.1 h with rfl | h
    · exact List.lookup_cons_self
    · have hne : (name == first.1) = false := by
        refine beq_eq_false_iff_ne.2 fun heq => hfirst ?_
        exact heq ▸ List.mem_map_of_mem h
      rw [List.lookup_cons, hne]
      exact ih hnodup h

/-- **What a walk lists is there**, where no directory holds two entries of one name. -/
theorem get?_of_mem_files {entry : Entry α} {place : Place} {value : α}
    (hnodup : ∀ place entries, entry.get? place = some (.directory entries) → (entries.map Prod.fst).Nodup)
    (h : (place, value) ∈ entry.files) : entry.get? place = some (.file value) := by
  induction place generalizing entry with
  | nil =>
    rw [mem_files_nil_iff] at h
    rw [get?_nil, h]
  | cons name rest ih =>
    obtain ⟨entries, lower, rfl, hlower, hmem⟩ := mem_files_cons_iff.1 h
    have hlookup := lookup_of_mem (hnodup [] entries rfl) hlower
    rw [get?_directory_cons, hlookup, Option.bind_some]
    refine ih (fun place others hothers => hnodup (name :: place) others ?_) hmem
    rw [get?_directory_cons, hlookup, Option.bind_some, hothers]

/-! ### Checks -/

mutual

/-- Whether all entries of a tree pass a check. -/
def every (check : Entry α → Bool) : Entry α → Bool
  | .directory entries => check (.directory entries) && everyBelow check entries
  | entry => check entry

/-- Whether all entries in a directory and further down pass a check. -/
def everyBelow (check : Entry α → Bool) : List (Name × Entry α) → Bool
  | [] => true
  | (_, entry) :: rest => entry.every check && everyBelow check rest

end

variable {check : Entry α → Bool} {entry : Entry α} {entries : List (Name × Entry α)}

theorem check_of_every (h : entry.every check = true) : check entry = true := by
  cases entry with
  | file value => exact h
  | link target => exact h
  | directory entries => exact (Bool.and_eq_true_iff.1 h).1

theorem every_of_mem {name : Name} {lower : Entry α} (h : (Entry.directory entries).every check = true)
    (hmem : (name, lower) ∈ entries) : lower.every check = true := by
  have hbelow : everyBelow check entries = true := (Bool.and_eq_true_iff.1 h).2
  clear h
  induction entries with
  | nil => cases hmem
  | cons first entries ih =>
    obtain ⟨hfirst, hrest⟩ := Bool.and_eq_true_iff.1 hbelow
    rcases List.mem_cons.1 hmem with rfl | hmem
    · exact hfirst
    · exact ih hmem hrest

/-- **A check that all entries pass is passed at each place.** -/
theorem check_of_get? {place : Place} {lower : Entry α} (h : entry.every check = true)
    (hget : entry.get? place = some lower) : check lower = true := by
  induction place generalizing entry with
  | nil =>
    rw [get?_nil] at hget
    exact Option.some.inj hget ▸ check_of_every h
  | cons name rest ih =>
    cases entry with
    | file value => cases hget
    | link target => cases hget
    | directory entries =>
      rw [get?_directory_cons, Option.bind_eq_some_iff] at hget
      obtain ⟨upper, hlookup, hget⟩ := hget
      obtain ⟨before, after, rfl, -⟩ := List.lookup_eq_some_iff.1 hlookup
      have hmem : (name, upper) ∈ before ++ (name, upper) :: after := by simp
      exact ih (every_of_mem h hmem) hget

/-! ### Trees in order -/

/-- Whether the entries of a directory come in the order of their names. -/
def isOrdered : Entry α → Bool
  | .directory entries => (entries.map Prod.fst).Pairwise fun a b => (compare a b).isLE
  | _ => true

mutual

/-- The files of a tree with their places, depth first, the entries of a directory as they come. -/
def listed : Entry α → List (Place × α)
  | .file value => [([], value)]
  | .directory entries => listedBelow entries
  | .link _ => []

/-- The files of the entries of a directory, as they come. -/
def listedBelow : List (Name × Entry α) → List (Place × α)
  | [] => []
  | (name, entry) :: rest => ((listed entry).map fun (place, value) => (name :: place, value)) ++ listedBelow rest

end

theorem listedBelow_eq (entries : List (Name × Entry α)) :
    listedBelow entries =
      entries.flatMap fun (name, entry) => entry.listed.map fun (place, value) => (name :: place, value) := by
  induction entries with
  | nil => rfl
  | cons entry entries ih => rw [listedBelow, ih, List.flatMap_cons]

/-- **A walk of a tree in order lists its files as they come.** -/
theorem files_eq_listed : ∀ entry : Entry α, entry.every isOrdered = true → entry.files = entry.listed
  | .file _, _ => rfl
  | .link _, _ => rfl
  | .directory entries, h => by
    have hordered : (entries.map Prod.fst).Pairwise fun a b => (compare a b).isLE := of_decide_eq_true (check_of_every h)
    have hsorted : (filesByName entries).Pairwise fun a b => (compare a.1 b.1).isLE := by
      rw [filesByName_eq, List.pairwise_map]
      exact List.pairwise_map.1 hordered
    rw [files, List.mergeSort_of_pairwise hsorted, filesByName_eq, listed, listedBelow_eq, List.flatMap_map]
    refine List.flatMap_congr fun (name, lower) hlower => ?_
    dsimp only
    rw [files_eq_listed lower (every_of_mem h hlower)]
termination_by entry => sizeOf entry
decreasing_by
  have hsize := List.sizeOf_lt_of_mem hlower
  simp only [Prod.mk.sizeOf_spec, Entry.directory.sizeOf_spec] at hsize ⊢
  omega

end Entry

end PageGraph
