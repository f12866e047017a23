import PageGraph.Proofs.Disk.Trees

/-!
# The order of a walk

A walk goes through each directory in the order of the names, so the files of a tree come in the lexicographic order of
their places. That none of them comes twice needs that no directory holds two entries of one name; this is a property of the
whole tree (`Distinct`), which a tree with other values keeps, and also one with less in it.

* `Entry.induct` : induction on the entries of a tree;
* `Distinct.mem_files_iff` : a walk lists the files that are there;
* `Distinct.pairwise_files` : their places increase strictly.
-/

namespace PageGraph

/-! ### Names in order -/

theorem Name.compare_eq_lt_iff {a b : Name} : compare a b = .lt ↔ a < b := by
  induction a generalizing b with
  | nil => cases b <;> simp
  | cons x a ih =>
    cases b with
    | nil => simp
    | cons y b =>
      rw [List.compare_cons_cons, Ordering.then_eq_lt, List.cons_lt_cons_iff, Std.compare_eq_lt,
        Std.LawfulEqOrd.compare_eq_iff_eq, ih]

theorem Name.lt_of_isLE {a b : Name} (h : (compare a b).isLE = true) (hne : a ≠ b) : a < b := by
  rw [← compare_eq_lt_iff]
  cases hcompare : compare a b with
  | lt => rfl
  | eq => exact absurd (Std.LawfulEqOrd.eq_of_compare hcompare) hne
  | gt =>
    rw [hcompare] at h
    cases h

namespace Entry

variable {α β : Type} {entries : List (Name × Entry α)} {entry : Entry α}

/-! ### Distinct names -/

/-- What holds of an entry if it holds of all that is in it holds of each entry. -/
theorem induct {motive : Entry α → Prop} (file : ∀ value, motive (.file value)) (link : ∀ target, motive (.link target))
    (directory : ∀ entries, (∀ name lower, (name, lower) ∈ entries → motive lower) → motive (.directory entries)) :
    ∀ entry, motive entry
  | .file value => file value
  | .link target => link target
  | .directory entries => directory entries fun name lower _hlower => induct file link directory lower
termination_by entry => sizeOf entry
decreasing_by
  have hsize := List.sizeOf_lt_of_mem _hlower
  simp only [Prod.mk.sizeOf_spec, Entry.directory.sizeOf_spec] at hsize ⊢
  omega

/-- No directory of a tree holds two entries of one name. -/
def Distinct (entry : Entry α) : Prop :=
  ∀ place entries, entry.get? place = some (.directory entries) → (entries.map Prod.fst).Nodup

theorem distinct_file (value : α) : (Entry.file value).Distinct := by
  intro place entries h
  cases place <;> cases h

theorem distinct_link (target : List UInt8) : (Entry.link target : Entry α).Distinct := by
  intro place entries h
  cases place <;> cases h

theorem distinct_directory_iff :
    (Entry.directory entries).Distinct ↔
      (entries.map Prod.fst).Nodup ∧ ∀ name lower, (name, lower) ∈ entries → lower.Distinct := by
  constructor
  · intro h
    have hnodup := h [] entries rfl
    refine ⟨hnodup, fun name lower hlower place others hothers => h (name :: place) others ?_⟩
    rw [get?_directory_cons, lookup_of_mem hnodup hlower, Option.bind_some, hothers]
  · rintro ⟨hnodup, hlower⟩ place others hothers
    cases place with
    | nil =>
      obtain rfl := directory.inj (Option.some.inj hothers)
      exact hnodup
    | cons name rest =>
      rw [get?_directory_cons, Option.bind_eq_some_iff] at hothers
      obtain ⟨lower, hlookup, hothers⟩ := hothers
      obtain ⟨before, after, rfl, -⟩ := List.lookup_eq_some_iff.1 hlookup
      exact hlower name lower (by simp) rest others hothers

theorem Distinct.map (h : entry.Distinct) (f : α → β) : (entry.map f).Distinct := by
  induction entry using induct with
  | file value => exact distinct_file (f value)
  | link target => exact distinct_link target
  | directory entries ih =>
    rw [distinct_directory_iff] at h
    rw [Entry.map, distinct_directory_iff, mapEntries_eq]
    refine ⟨?_, fun name lower hlower => ?_⟩
    · rw [List.map_map]
      exact h.1
    · rw [← mapEntries_eq, mem_mapEntries_iff] at hlower
      obtain ⟨upper, hupper, rfl⟩ := hlower
      exact ih name upper hupper (h.2 name upper hupper)

theorem Distinct.within (h : entry.Distinct) (room : ℕ) : (entry.within room).Distinct := by
  induction entry using induct generalizing room with
  | file value => exact distinct_file value
  | link target => exact distinct_link target
  | directory entries ih =>
    rw [distinct_directory_iff] at h
    rw [Entry.within, distinct_directory_iff]
    refine ⟨?_, fun name lower hlower => ?_⟩
    · rw [entriesWithin_eq, List.map_map]
      exact h.1.sublist (List.filter_sublist.map Prod.fst)
    · obtain ⟨-, upper, hupper, rfl⟩ := mem_entriesWithin_iff.1 hlower
      exact ih name upper hupper (h.2 name upper hupper) _

/-! ### What a walk lists -/

/-- What is there is listed. -/
theorem mem_files_of_get? {place : Place} {value : α} (h : entry.get? place = some (.file value)) :
    (place, value) ∈ entry.files := by
  induction place generalizing entry with
  | nil =>
    rw [get?_nil] at h
    exact mem_files_nil_iff.2 (Option.some.inj h)
  | cons name rest ih =>
    cases entry with
    | file other => cases h
    | link target => cases h
    | directory entries =>
      rw [get?_directory_cons, Option.bind_eq_some_iff] at h
      obtain ⟨lower, hlookup, h⟩ := h
      obtain ⟨before, after, rfl, -⟩ := List.lookup_eq_some_iff.1 hlookup
      exact mem_files_directory_iff.2 ⟨lower, by simp, ih h⟩

/-- **A walk lists the files that are there**, with what they hold. -/
theorem Distinct.mem_files_iff (h : entry.Distinct) {place : Place} {value : α} :
    (place, value) ∈ entry.files ↔ entry.get? place = some (.file value) :=
  ⟨fun hmem => get?_of_mem_files h hmem, mem_files_of_get?⟩

/-- The files of a directory come name by name. -/
theorem pairwise_filesByName (hnodup : (entries.map Prod.fst).Nodup) :
    ((filesByName entries).mergeSort fun a b => (compare a.1 b.1).isLE).Pairwise fun a b => a.1 < b.1 := by
  have hsorted : ((filesByName entries).mergeSort fun a b => (compare a.1 b.1).isLE).Pairwise
      fun a b => (compare a.1 b.1).isLE = true :=
    List.pairwise_mergeSort (fun _ _ _ => Std.TransCmp.isLE_trans) (fun a b => by
      have hswap : compare b.1 a.1 = (compare a.1 b.1).swap := Std.OrientedCmp.eq_swap
      rw [hswap]
      cases compare a.1 b.1 <;> rfl) _
  have hnames : (((filesByName entries).mergeSort fun a b => (compare a.1 b.1).isLE).map Prod.fst).Nodup := by
    refine ((List.mergeSort_perm _ _).map Prod.fst).nodup_iff.2 ?_
    rw [filesByName_eq, List.map_map]
    exact hnodup
  exact hsorted.imp₂ (fun a b hle hne => Name.lt_of_isLE hle hne) (List.pairwise_map.1 hnames)

/-- **The files of a tree come in the order of their places**, none of them twice. -/
theorem Distinct.pairwise_files (h : entry.Distinct) : (entry.files.map Prod.fst).Pairwise (· < ·) := by
  induction entry using induct with
  | file value => exact List.pairwise_singleton _ _
  | link target => exact .nil
  | directory entries ih =>
    rw [distinct_directory_iff] at h
    -- the files under one name start with it
    have hfiles : ∀ item ∈ (filesByName entries).mergeSort fun a b => (compare a.1 b.1).isLE,
        ∃ lower, (item.1, lower) ∈ entries ∧ item.2.map Prod.fst = (lower.files.map Prod.fst).map (item.1 :: ·) := by
      intro item hitem
      rw [List.mem_mergeSort, filesByName_eq] at hitem
      obtain ⟨⟨name, lower⟩, hlower, rfl⟩ := List.mem_map.1 hitem
      refine ⟨lower, hlower, ?_⟩
      rw [List.map_map, List.map_map]
      rfl
    rw [files, List.map_flatMap, List.pairwise_flatMap]
    refine ⟨fun item hitem => ?_, (pairwise_filesByName h.1).imp_of_mem fun {a b} ha hb hlt => ?_⟩
    · obtain ⟨lower, hlower, heq⟩ := hfiles item hitem
      rw [heq, List.pairwise_map]
      exact (ih item.1 lower hlower (h.2 item.1 lower hlower)).imp fun hplaces =>
        List.cons_lt_cons_iff.2 (.inr ⟨rfl, hplaces⟩)
    · obtain ⟨lower, -, heq⟩ := hfiles a ha
      obtain ⟨lower', -, heq'⟩ := hfiles b hb
      intro place hplace other hother
      rw [heq] at hplace
      rw [heq'] at hother
      obtain ⟨rest, -, rfl⟩ := List.mem_map.1 hplace
      obtain ⟨rest', -, rfl⟩ := List.mem_map.1 hother
      exact List.cons_lt_cons_iff.2 (.inl hlt)

end Entry

end PageGraph
