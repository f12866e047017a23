import PageGraph.Inventory
import PageGraph.Proofs.Disk.PlainNames
import PageGraph.Proofs.Disk.WalkOrder
import PageGraph.Proofs.FileSystem.Reading

/-!
# Walking a file system

A walk lists the files below a directory with their places. Each of them is read through its page path if the names
on the way are plain, since no link and no `..` is met on the way down and the walk goes no further than a path
reaches.

* `WellFormed` : what holds of every file system: proper names, and no two of the same in a directory;
* `wellFormed_of_check` : a check that a file system is well-formed;
* `WellFormed.mem_files_tree_iff` : what a walk lists;
* `leadsTo_pageKey` : the page path of a place leads there.
-/

namespace PageGraph

namespace FileSystem

/-! ### Well-formed file systems -/

/-- What holds of every file system. -/
structure WellFormed (files : FileSystem) : Prop where
  grounded : files.Grounded
  /-- No directory holds two entries of one name. -/
  distinct : ∀ place entries, files.get? place = some (.directory entries) → (entries.map Prod.fst).Nodup
  proper : ∀ place entries, files.get? place = some (.directory entries) →
    ∀ name ∈ entries.map Prod.fst, Name.IsProper name
  /-- The size of a file has at most 64 bits. -/
  sizes : ∀ place file, files.at? place = some (.file file) → file.octets.length < UInt64.size

variable {files : FileSystem} {purpose : Purpose} {place start : Place} {node : Node}

/-- The names that lead to a node stand in directories. -/
theorem exists_entries_of_at? (hnode : files.at? place = some node) {name : Name} (hname : name ∈ place) :
    ∃ upper entries, files.get? upper = some (.directory entries) ∧ name ∈ entries.map Prod.fst := by
  obtain ⟨upper, lower, rfl⟩ := List.append_of_mem hname
  obtain ⟨entries, hentries⟩ := at?_eq_directory_iff.1 (at?_eq_directory_of_append hnode (List.cons_ne_nil name lower))
  refine ⟨upper, entries, hentries, ?_⟩
  obtain ⟨entry, hentry, -⟩ := Option.map_eq_some_iff.1 hnode
  rw [get?] at hentries
  rw [get?, Entry.get?_append, hentries, Option.bind_some, Entry.get?_directory_cons, Option.bind_eq_some_iff] at hentry
  obtain ⟨lower, hlookup, -⟩ := hentry
  obtain ⟨before, after, rfl, -⟩ := List.lookup_eq_some_iff.1 hlookup
  simp

theorem WellFormed.proper_of_at? (h : files.WellFormed) (hnode : files.at? place = some node) :
    ∀ name ∈ place, name.IsProper := by
  intro name hname
  obtain ⟨upper, entries, hentries, hmem⟩ := exists_entries_of_at? hnode hname
  exact h.proper upper entries hentries name hmem

/-- Whether an entry may be in a file system, as far as can be said without looking further down. -/
def isAdmitted : Entry File → Bool
  | .file file => file.octets.length < UInt64.size
  | .directory entries => (entries.map Prod.fst).Nodup ∧ ∀ name ∈ entries.map Prod.fst, name.IsProper
  | .link _ => true

/-- **A file system is well-formed** if each of its entries may be in it. -/
theorem wellFormed_of_check (hcurrent : files.at? files.current = some .directory)
    (hentries : files.root.every isAdmitted = true) : files.WellFormed where
  grounded := hcurrent
  distinct := fun _ _ h => (of_decide_eq_true (Entry.check_of_get? hentries h)).1
  proper := fun _ _ h => (of_decide_eq_true (Entry.check_of_get? hentries h)).2
  sizes := fun _ _ h => of_decide_eq_true (Entry.check_of_get? hentries (at?_eq_file_iff.1 h))

/-! ### Walks -/

/-- What a walk lists is a file, and no path is too long to reach it. -/
theorem WellFormed.at?_of_mem_tree (h : files.WellFormed) {base : Place} {info : FileInfo}
    (hmem : (place, info) ∈ (files.tree base).files) :
    (∃ file, files.at? (base ++ place) = some (.file file) ∧ file.info = info) ∧
      (place ≠ [] → ((base ++ place).flatMap (Place.slash :: ·)).length ≤ Route.maxLength) := by
  obtain ⟨file, hinfo, hwithin⟩ := Entry.mem_files_map_iff.1 hmem
  obtain ⟨hfile, hlength⟩ := Entry.mem_files_within_iff.1 hwithin
  constructor
  · refine ⟨file, at?_eq_file_iff.2 ?_, hinfo⟩
    rw [get?, Entry.get?_append]
    cases hbase : files.root.get? base with
    | none =>
      rw [get?, hbase] at hfile
      cases place with
      | nil => cases Entry.mem_files_nil_iff.1 hfile
      | cons name rest =>
        obtain ⟨entries, lower, heq, hlower, -⟩ := Entry.mem_files_cons_iff.1 hfile
        obtain rfl := Entry.directory.inj heq
        cases hlower
    | some entry =>
      rw [get?, hbase, Option.getD_some] at hfile
      refine Entry.get?_of_mem_files (fun lower entries hentries => ?_) hfile
      refine h.distinct (base ++ lower) entries ?_
      rw [get?, Entry.get?_append, hbase, Option.bind_some, hentries]
  · intro hplace
    have hpositive : 0 < (place.flatMap (Place.slash :: ·)).length := by
      obtain ⟨name, rest, rfl⟩ := List.exists_cons_of_ne_nil hplace
      simp
    rw [List.flatMap_append, List.length_append]
    omega

/-- No directory that a walk goes through holds two entries of one name. -/
theorem WellFormed.distinct_tree (h : files.WellFormed) (base : Place) : (files.tree base).Distinct := by
  refine Entry.Distinct.map (Entry.Distinct.within ?_ _) _
  cases hbase : files.get? base with
  | none => exact Entry.distinct_directory_iff.2 ⟨.nil, fun _ _ hlower => nomatch hlower⟩
  | some entry =>
    intro place entries hentries
    refine h.distinct (base ++ place) entries ?_
    rw [get?, Entry.get?_append]
    rw [get?] at hbase
    rw [hbase, Option.bind_some]
    exact hentries

/-- **A walk lists the files below a directory**, as far down as a path reaches. -/
theorem WellFormed.mem_files_tree_iff (h : files.WellFormed) {base : Place} (hbase : files.at? base = some .directory)
    {info : FileInfo} :
    (place, info) ∈ (files.tree base).files ↔
      (∃ file, files.at? (base ++ place) = some (.file file) ∧ file.info = info) ∧
        (base ++ place).octets.length ≤ Route.maxLength := by
  have hne : ∀ {file : File}, files.at? (base ++ place) = some (.file file) → place ≠ [] := by
    rintro file hfile rfl
    rw [List.append_nil, hbase] at hfile
    cases hfile
  constructor
  · intro hmem
    obtain ⟨⟨file, hfile, hinfo⟩, hlength⟩ := h.at?_of_mem_tree hmem
    rw [Place.octets_of_ne_nil (by simp [hne hfile])]
    exact ⟨⟨file, hfile, hinfo⟩, hlength (hne hfile)⟩
  · rintro ⟨⟨file, hfile, rfl⟩, hlength⟩
    obtain ⟨entries, hentries⟩ := at?_eq_directory_iff.1 hbase
    rw [Place.octets_of_ne_nil (by simp [hne hfile]), List.flatMap_append, List.length_append] at hlength
    refine Entry.mem_files_map_iff.2 ⟨file, rfl, Entry.mem_files_within_iff.2 ⟨?_, by omega⟩⟩
    rw [hentries, Option.getD_some]
    rw [at?_eq_file_iff, get?, Entry.get?_append] at hfile
    rw [get?] at hentries
    rw [hentries, Option.bind_some] at hfile
    exact Entry.mem_files_of_get? hfile

/-! ### Down to a place -/

theorem length_octets_append_le (upper lower : Place) (name : Name) :
    (upper ++ [name]).octets.length ≤ (upper ++ name :: lower).octets.length := by
  rw [Place.octets_of_ne_nil (by simp), Place.octets_of_ne_nil (by simp)]
  simp only [List.flatMap_append, List.flatMap_cons, List.length_append, List.flatMap_nil, List.length_nil]
  omega

/-- Proper names lead down to what lies below a directory. -/
theorem leads_of_at? {rest : Place} (hnode : files.at? (start ++ rest) = some node) (hlink : ∀ path, node ≠ .link path)
    (hproper : ∀ name ∈ rest, name.IsProper)
    (hlength : purpose = .spellOut → (start ++ rest).octets.length ≤ Route.maxLength) (links : ℕ) :
    Leads files purpose links start rest (.found (start ++ rest)) := by
  induction rest generalizing start with
  | nil =>
    rw [List.append_nil]
    exact .done links start
  | cons name rest ih =>
    have hname := hproper name List.mem_cons_self
    have hrest : ∀ other ∈ rest, other.IsProper := fun other hother => hproper other (List.mem_cons_of_mem name hother)
    have hlooks : LooksUp purpose start name rest := by
      refine ⟨by simp [hname.nonempty, hname.notHere], hname.notUp, ?_, ?_⟩
      · rintro ⟨-, rfl⟩
        exact (hrest [] List.mem_cons_self).nonempty rfl
      · have hreach : purpose = .spellOut → (start ++ [name]).octets.length ≤ Route.maxLength := fun hpurpose =>
          Nat.le_trans (length_octets_append_le start rest name) (hlength hpurpose)
        simpa [admits, hname.short, imp_iff_not_or] using hreach
    have hconcat : start ++ name :: rest = (start ++ [name]) ++ rest := by simp
    by_cases hlast : rest = []
    · subst hlast
      cases node with
      | file content => exact .file hlooks hnode
      | directory => exact .down hlooks hnode (.done _ _)
      | link path => exact absurd rfl (hlink path)
    · rw [hconcat] at hnode hlength ⊢
      exact .down hlooks (at?_eq_directory_of_append hnode hlast) (ih hnode hrest hlength)

/-- **The page path of a place leads there**, if its names are plain and it is not too long. -/
theorem WellFormed.leadsTo_pageKey (h : files.WellFormed) (hnode : files.at? place = some node)
    (hlink : ∀ path, node ≠ .link path) (hplain : place.IsPlain) (hplace : place ≠ [])
    (hlength : place.octets.length ≤ Route.maxLength) : files.LeadsTo purpose (pageKey place.octets) (.found place) := by
  have hproper := h.proper_of_at? hnode
  refine ⟨Route.ofOctets place.octets, ?_, ?_⟩
  · rw [Route.ofPath, Place.encode_pageKey hproper hplain hplace]
    rw [if_neg (Place.zero_not_mem_octets hproper), if_neg place.octets_ne_nil, if_neg ?_]
    cases purpose <;> simp [Purpose.longestPath, hlength]
  · rw [Place.ofOctets_octets hproper hplace]
    have hsteps : Route.steps { absolute := true, names := place, trailingSlash := false } = place := by simp [Route.steps]
    have hroot : files.at? ([] ++ place) = some node := hnode
    rw [hsteps]
    exact leads_of_at? hroot hlink hproper (fun _ => hlength) maxLinks

end FileSystem

end PageGraph
