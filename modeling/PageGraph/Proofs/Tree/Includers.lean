import PageGraph.Proofs.Tree.Trails
import PageGraph.Tree.Summary
import Mathlib.Data.List.Basic

/-!
# Where a page is included from

The occurrences of a path below the roots are gathered from all trees, from all depths, and past the places where cycles
are cut. What they say of their includers is nevertheless a fact about references alone.

* `Corpus.IncludedBy` : an occurrence stands below a page of the corpus that references its path;
* `Corpus.exists_includer_of_occurs` : this holds of every occurrence below a root;
* `Corpus.exists_occurrence_of_mem_references` : whatever a page references stands right below the root in the tree of that
  page, where nothing is cut. A page with a path that names another page counts too, as it has a tree of its own.

Main statement: `Corpus.includers_of_includedFrom`.
-/

namespace PageGraph

namespace Corpus

/-- An occurrence stands below a page of the corpus that references its path. -/
structure IncludedBy (corpus : Corpus) (includer : Page) (occurrence : Occurrence) : Prop where
  mem : includer ∈ corpus
  parent : occurrence.parent = some includer.path
  reference : occurrence.path ∈ includer.references
  known : occurrence.path ∈ corpus.paths
  depth : occurrence.depth ≠ 0

variable {corpus : Corpus}

/-! ### References -/

theorem path_mem_references_of_mem_targets {page target : Page} (h : target ∈ corpus.targets page) :
    target.path ∈ page.references := by
  obtain ⟨reference, hreference, hlookup⟩ := List.mem_filterMap.1 h
  rwa [(lookup_eq_some hlookup).2]

theorem exists_mem_targets_of_mem_references {page : Page} {path : String} (hpath : path ∈ corpus.paths)
    (h : path ∈ page.references) : ∃ target ∈ corpus.targets page, target.path = path := by
  obtain ⟨target, hlookup⟩ := mem_paths_iff_exists_lookup.1 hpath
  exact ⟨target, List.mem_filterMap.2 ⟨path, h, hlookup⟩, (lookup_eq_some hlookup).2⟩

/-! ### Includers -/

theorem includedBy_opened {above : List String} {includer target : Page} (hincluder : includer ∈ corpus)
    (htarget : target ∈ corpus.targets includer) :
    corpus.IncludedBy includer (corpus.opened (above ++ [includer.path]) target).occurrence where
  mem := hincluder
  parent := List.getLast?_concat
  reference := path_mem_references_of_mem_targets htarget
  known := mem_paths_of_mem (mem_of_mem_targets htarget)
  depth := by simp [opened, Tree.occurrence, occurrence]

theorem includedBy_cut {above : List String} {includer target : Page} (hincluder : includer ∈ corpus)
    (htarget : target ∈ corpus.targets includer) :
    corpus.IncludedBy includer (cut above includer target).occurrence where
  mem := hincluder
  parent := rfl
  reference := path_mem_references_of_mem_targets htarget
  known := mem_paths_of_mem (mem_of_mem_targets htarget)
  depth := Nat.succ_ne_zero above.length

/-- Below a root every occurrence has an includer. -/
theorem exists_includer_of_occurs {root : Page} (hroot : root ∈ corpus) {above : List Tree} {sub : Tree}
    (h : (corpus.tree root).Occurs above sub) (habove : above ≠ []) :
    ∃ includer, corpus.IncludedBy includer sub.occurrence := by
  rcases occurs_tree_iff.1 h with ⟨pages, page, htrail, rfl, rfl⟩ | ⟨pages, page, target, htrail, htarget, -, rfl, rfl⟩
  · cases htrail with
    | root => exact absurd ladder_nil habove
    | @step before includer _ hbefore htarget _ =>
      rw [List.map_append]
      exact ⟨includer, includedBy_opened (hbefore.mem hroot) htarget⟩
  · exact ⟨page, includedBy_cut (htrail.mem hroot) htarget⟩

theorem mem_includedFrom_trees {path : String} {occurrence : Occurrence} :
    occurrence ∈ includedFrom corpus.trees path ↔
      ∃ page ∈ corpus, occurrence ∈ (corpus.tree page).flatten.drop 1 ∧ occurrence.path = path := by
  simp only [includedFrom, trees, List.mem_filter, List.mem_flatMap, List.mem_map, decide_eq_true_eq]
  constructor
  · rintro ⟨⟨_, ⟨page, hpage, rfl⟩, hmem⟩, hpath⟩
    exact ⟨page, hpage, hmem, hpath⟩
  · rintro ⟨page, hpage, hmem, hpath⟩
    exact ⟨⟨_, ⟨page, hpage, rfl⟩, hmem⟩, hpath⟩

theorem exists_includer_of_mem_includedFrom {path : String} {occurrence : Occurrence}
    (h : occurrence ∈ includedFrom corpus.trees path) :
    occurrence.path = path ∧ ∃ includer, corpus.IncludedBy includer occurrence := by
  obtain ⟨page, hpage, hmem, hpath⟩ := mem_includedFrom_trees.1 h
  obtain ⟨above, sub, hoccurs, habove, rfl⟩ := Tree.mem_flatten_drop_one_iff.1 hmem
  exact ⟨hpath, exists_includer_of_occurs hpage hoccurs habove⟩

/-- What a page references stands right below the root of its tree. -/
theorem exists_occurrence_of_mem_references {page : Page} (hpage : page ∈ corpus) {path : String}
    (hpath : path ∈ corpus.paths) (h : path ∈ page.references) :
    ∃ occurrence ∈ includedFrom corpus.trees path, occurrence.parent = some page.path := by
  obtain ⟨target, htarget, rfl⟩ := exists_mem_targets_of_mem_references hpath h
  have htrail : corpus.Trail page [page] target := .step .root htarget List.not_mem_nil
  have hoccurs := occurs_opened htrail
  refine ⟨(corpus.opened [page.path] target).occurrence, mem_includedFrom_trees.2 ⟨page, hpage, ?_, rfl⟩, rfl⟩
  exact Tree.mem_flatten_drop_one_iff.2 ⟨_, _, hoccurs, by simp [ladder_eq_nil_iff], rfl⟩

/-- The includers of a path are the pages that reference it, if it is one of the corpus. -/
theorem exists_parent_iff {path : String} {parent : Option String} :
    (∃ occurrence ∈ includedFrom corpus.trees path, occurrence.parent = parent) ↔
      path ∈ corpus.paths ∧ ∃ page ∈ corpus, path ∈ page.references ∧ parent = some page.path := by
  constructor
  · rintro ⟨occurrence, hmem, rfl⟩
    obtain ⟨rfl, includer, hincluder⟩ := exists_includer_of_mem_includedFrom hmem
    exact ⟨hincluder.known, includer, hincluder.mem, hincluder.reference, hincluder.parent⟩
  · rintro ⟨hpath, page, hpage, hreference, rfl⟩
    exact exists_occurrence_of_mem_references hpage hpath hreference

theorem includedFrom_trees_eq_nil_iff {path : String} :
    includedFrom corpus.trees path = [] ↔ path ∉ corpus.paths ∨ ∀ page ∈ corpus, path ∉ page.references := by
  constructor
  · intro hnil
    by_contra hsome
    push Not at hsome
    obtain ⟨hpath, page, hpage, hreference⟩ := hsome
    obtain ⟨occurrence, hmem, -⟩ := exists_parent_iff.2 ⟨hpath, page, hpage, hreference, rfl⟩
    simp [hnil] at hmem
  · intro hnone
    rw [List.eq_nil_iff_forall_not_mem]
    intro occurrence hmem
    obtain ⟨hpath, page, hpage, hreference, -⟩ := exists_parent_iff.1 ⟨occurrence, hmem, rfl⟩
    rcases hnone with hunknown | hunreferenced
    · exact hunknown hpath
    · exact hunreferenced page hpage hreference

/-- **A page is included from where it is referenced.** No occurrence of a path is reported iff the path is not one of the
corpus or no page references it; the includers of those that are reported are the pages that reference the path, all of
them and no others; and none of them is a root. -/
theorem includers_of_includedFrom (corpus : Corpus) (path : String) :
    (includedFrom corpus.trees path = [] ↔ path ∉ corpus.paths ∨ ∀ page ∈ corpus, path ∉ page.references) ∧
    (∀ parent, (∃ occurrence ∈ includedFrom corpus.trees path, occurrence.parent = parent) ↔
      path ∈ corpus.paths ∧ ∃ page ∈ corpus, path ∈ page.references ∧ parent = some page.path) ∧
    ∀ occurrence ∈ includedFrom corpus.trees path, occurrence.depth ≠ 0 := by
  refine ⟨includedFrom_trees_eq_nil_iff, fun parent => exists_parent_iff, ?_⟩
  intro occurrence hmem
  obtain ⟨-, includer, hincluder⟩ := exists_includer_of_mem_includedFrom hmem
  exact hincluder.depth

/-- One more page with the path `/c`, which no path names, and which references `/b`. -/
def otherPageC : Page := { name := "c again", path := "/c", references := ["/b"] }

/-- The page `/b` is included from a page that no path names. -/
theorem includers_of_includedFrom_unnamed :
    includedFrom (trees [pageC, otherPageC, pageB]) "/c" = [] ∧
    ∃ occurrence ∈ includedFrom (trees [pageC, otherPageC, pageB]) "/b",
      occurrence.parent = some "/c" ∧ occurrence.depth ≠ 0 := by
  obtain ⟨hempty, -, -⟩ := includers_of_includedFrom [pageC, otherPageC, pageB] "/c"
  obtain ⟨-, hparents, hdepth⟩ := includers_of_includedFrom [pageC, otherPageC, pageB] "/b"
  have hreference : ∃ page ∈ [pageC, otherPageC, pageB], "/b" ∈ page.references ∧ some "/c" = some page.path :=
    ⟨otherPageC, by decide, by decide, rfl⟩
  obtain ⟨occurrence, hmem, hparent⟩ := (hparents (some "/c")).2 ⟨by decide, hreference⟩
  exact ⟨hempty.2 (Or.inr (by decide)), occurrence, hmem, hparent, hdepth occurrence hmem⟩

end Corpus

end PageGraph
