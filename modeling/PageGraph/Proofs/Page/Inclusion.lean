import PageGraph.Page
import Mathlib.Data.List.Basic
import Mathlib.Data.List.Dedup
import Mathlib.Data.Nat.Notation
import Mathlib.Logic.Relation

/-!
# Inclusion between pages

A corpus is a graph on paths: a path stands for the first page that has it, and it includes the paths of the
corpus that this page references.

* `Corpus.targets` : the pages that the references of a page name;
* `Corpus.inclusions` : the same as paths, for the page that a path names;
* `Corpus.Includes` : one step of the graph; `Corpus.Reaches` : one step or more.
-/

namespace PageGraph

namespace Corpus

variable (corpus : Corpus)

/-- The paths of the pages, in the order of the corpus, repetitions kept. -/
def paths : List String := corpus.map Page.path

/-- The number of different paths. -/
def pathCount : ℕ := corpus.paths.dedup.length

/-- The pages that the references of a page name, in order, repetitions kept. -/
def targets (page : Page) : List Page := page.references.filterMap corpus.lookup

/-- The references of the page that a path names, as far as they are paths of the corpus, in order,
repetitions kept. -/
def inclusions (path : String) : List String :=
  match corpus.lookup path with
  | none => []
  | some page => page.references.filter (· ∈ corpus.paths)

/-- The page that the path `a` names references the path `b` of the corpus. -/
def Includes (a b : String) : Prop := b ∈ corpus.inclusions a

/-- `b` is reached from `a` by one or more inclusions. -/
def Reaches : String → String → Prop := Relation.TransGen corpus.Includes

variable {corpus}

/-! ### Looking up -/

theorem mem_paths_of_mem {page : Page} (h : page ∈ corpus) : page.path ∈ corpus.paths :=
  List.mem_map_of_mem h

theorem mem_paths_iff_exists_lookup {path : String} :
    path ∈ corpus.paths ↔ ∃ page, corpus.lookup path = some page := by
  rw [← Option.isSome_iff_exists, lookup, List.find?_isSome, paths, List.mem_map]
  simp

/-- A page is looked up among the pages with its path. -/
theorem lookup_eq_head?_filter (corpus : Corpus) (path : String) :
    corpus.lookup path = (corpus.filter (·.path = path)).head? := by
  rw [lookup, List.head?_filter]

theorem lookup_eq_none {path : String} (h : path ∉ corpus.paths) : corpus.lookup path = none := by
  refine Option.eq_none_iff_forall_ne_some.2 fun page hpage => h ?_
  exact mem_paths_iff_exists_lookup.2 ⟨page, hpage⟩

theorem lookup_path {path : String} {page : Page} (h : corpus.lookup path = some page) :
    corpus.lookup page.path = some page := by
  rwa [(lookup_eq_some h).2]

/-- A path of the corpus stands for the first page that has it. -/
theorem exists_lookup_path {path : String} (h : path ∈ corpus.paths) :
    ∃ page, corpus.lookup page.path = some page ∧ page.path = path := by
  obtain ⟨page, hpage⟩ := mem_paths_iff_exists_lookup.1 h
  exact ⟨page, lookup_path hpage, (lookup_eq_some hpage).2⟩

/-- Where no path comes twice every page is the one that its path names. -/
theorem lookup_path_of_nodup (hnodup : corpus.paths.Nodup) {page : Page} (hpage : page ∈ corpus) :
    corpus.lookup page.path = some page := by
  obtain ⟨first, hfirst⟩ := mem_paths_iff_exists_lookup.1 (mem_paths_of_mem hpage)
  obtain ⟨hmem, hpath⟩ := lookup_eq_some hfirst
  rw [hfirst, List.inj_on_of_nodup_map hnodup hmem hpage hpath]

/-! ### Targets -/

theorem lookup_of_mem_targets {page target : Page} (h : target ∈ corpus.targets page) :
    corpus.lookup target.path = some target := by
  obtain ⟨reference, -, hlookup⟩ := List.mem_filterMap.1 h
  exact lookup_path hlookup

theorem mem_of_mem_targets {page target : Page} (h : target ∈ corpus.targets page) : target ∈ corpus :=
  (lookup_eq_some (lookup_of_mem_targets h)).1

/-- The targets of a page, told by their paths, are its references within the corpus. -/
theorem map_path_targets (page : Page) :
    (corpus.targets page).map Page.path = page.references.filter (· ∈ corpus.paths) := by
  rw [targets]
  induction page.references with
  | nil => rfl
  | cons reference rest ih =>
    by_cases h : reference ∈ corpus.paths
    · obtain ⟨target, htarget⟩ := mem_paths_iff_exists_lookup.1 h
      rw [List.filterMap_cons_some htarget, List.filter_cons_of_pos (by simpa using h), List.map_cons,
        ih, (lookup_eq_some htarget).2]
    · rw [List.filterMap_cons_none (lookup_eq_none h), List.filter_cons_of_neg (by simpa using h), ih]

theorem inclusions_eq {path : String} {page : Page} (h : corpus.lookup path = some page) :
    corpus.inclusions path = (corpus.targets page).map Page.path := by
  rw [inclusions, h, map_path_targets]

theorem includes_iff {path other : String} {page : Page} (h : corpus.lookup path = some page) :
    corpus.Includes path other ↔ ∃ target ∈ corpus.targets page, target.path = other := by
  rw [Includes, inclusions_eq h, List.mem_map]

theorem Includes.exists_mem_references {path other : String} (h : corpus.Includes path other) :
    ∃ page ∈ corpus, page.path = path ∧ other ∈ page.references := by
  rw [Includes, inclusions] at h
  split at h
  · cases h
  · next page hlookup =>
    obtain ⟨hmem, hpath⟩ := lookup_eq_some hlookup
    exact ⟨page, hmem, hpath, (List.mem_filter.1 h).1⟩

theorem Includes.mem_paths {path other : String} (h : corpus.Includes path other) :
    other ∈ corpus.paths := by
  rw [Includes, inclusions] at h
  split at h
  · cases h
  · simpa using (List.mem_filter.1 h).2

theorem Reaches.mem_paths {path other : String} (h : corpus.Reaches path other) :
    other ∈ corpus.paths := by
  cases h with
  | single hstep => exact hstep.mem_paths
  | tail _ hstep => exact hstep.mem_paths

/-! ### A small corpus -/

/-- A page that includes `/b`. -/
def pageA : Page := { name := "a", path := "/a", references := ["/b", "/none"] }

/-- A page that includes itself and `/a`. -/
def pageB : Page := { name := "b", path := "/b", references := ["/b", "/a"] }

/-- A page that includes nothing. -/
def pageC : Page := { name := "c", path := "/c" }

/-- A page that includes `/c` twice, and `/a` where it is there. -/
def pageD : Page := { name := "d", path := "/d", references := ["/c", "/a", "/c"] }

/-- One more page with the path `/a`. -/
def otherPageA : Page := { name := "a again", path := "/a", references := ["/b"] }

/-- Two pages that include each other, and one more that includes nothing. -/
def entwined : Corpus := [pageA, pageB, pageC]

/-- Two pages that include each other, and a second page with the path of the first. -/
def tangled : Corpus := [pageA, pageB, otherPageA]

end Corpus

end PageGraph
