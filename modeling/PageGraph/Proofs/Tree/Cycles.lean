import PageGraph.Proofs.Tree.Depth
import PageGraph.Proofs.Tree.Reachability
import PageGraph.Tree.Summary
import Mathlib.Data.Set.Card
import Mathlib.Logic.Relation

/-!
# Circular occurrences and cycles

A circular occurrence is a fact about one chain of pages in one tree, a cycle is a fact about the graph of
inclusions. They go together:

* `Corpus.Trail.leadsToCycle_of_cut` : a target that is cut lies on a cycle that is reached from the root;
* `Corpus.exists_trail_of_open` : a tree in which nothing is cut has trails of every length, if a cycle is
  reached from its root;
* `Corpus.hasCircular_iff_leadsToCycle` : so a tree holds a circular occurrence iff its root reaches a cycle, and
  the totals of a corpus count the pages that do.

A page that comes again below its includer is not a circular occurrence yet, so the second point does not look
for the first such page: it uses that trails are bounded (`Trail.length_lt`).
-/

namespace PageGraph

namespace Corpus

variable (corpus : Corpus)

/-- From a path, or from one that it reaches, a cycle of one or more inclusions goes out and comes back. -/
def LeadsToCycle (path : String) : Prop :=
  ∃ other, Relation.ReflTransGen corpus.Includes path other ∧ corpus.Reaches other other

/-- The paths of the corpus that lead to a cycle. -/
def cyclicPaths : Set String := {path | path ∈ corpus.paths ∧ corpus.LeadsToCycle path}

variable {corpus}

/-! ### From a circular occurrence to a cycle -/

/-- A target that is cut lies on a cycle: it stands above its includer. -/
theorem Trail.leadsToCycle_of_cut {root page target : Page} {pages : List Page}
    (h : corpus.Trail root pages page) (hroot : corpus.lookup root.path = some root)
    (htarget : target ∈ corpus.targets page) (habove : target.path ∈ pages.map Page.path) :
    corpus.LeadsToCycle root.path := by
  obtain ⟨upper, hupper, hpath⟩ := List.mem_map.1 habove
  obtain ⟨before, hbefore⟩ := h.exists_of_mem hupper
  have hback : corpus.Includes page.path upper.path := by
    rw [hpath]
    exact includes_of_mem_targets (h.lookup hroot) htarget
  exact ⟨upper.path, hbefore.reflTransGen hroot, (h.reaches_of_mem hroot hupper).tail hback⟩

theorem leadsToCycle_of_hasCircular {root : Page} (hroot : corpus.lookup root.path = some root)
    (h : (corpus.tree root).hasCircular = true) : corpus.LeadsToCycle root.path := by
  obtain ⟨above, sub, hoccurs, hcircular⟩ := Tree.hasCircular_iff_exists_occurs.1 h
  rcases occurs_tree_iff.1 hoccurs with ⟨pages, page, -, -, rfl⟩ |
    ⟨pages, page, target, htrail, htarget, habove, -, -⟩
  · exact absurd hcircular Bool.false_ne_true
  · exact htrail.leadsToCycle_of_cut hroot htarget habove

/-! ### From a cycle to a circular occurrence -/

/-- Where nothing is cut a trail can go on as long as the cycle is ahead of it. -/
theorem exists_trail_of_open {root : Page} (hroot : corpus.lookup root.path = some root)
    (hopen : ∀ pages page target, corpus.Trail root pages page → target ∈ corpus.targets page →
      target.path ∉ pages.map Page.path)
    {other : String} (hother : Relation.ReflTransGen corpus.Includes root.path other)
    (hcycle : corpus.Reaches other other) (n : ℕ) :
    ∃ pages page, corpus.Trail root pages page ∧ pages.length = n ∧
      Relation.ReflTransGen corpus.Includes page.path other := by
  induction n with
  | zero => exact ⟨[], root, .root, rfl, hother⟩
  | succ n ih =>
    obtain ⟨pages, page, htrail, hlength, hahead⟩ := ih
    have hreaches : corpus.Reaches page.path other := hcycle.trans_right hahead
    obtain ⟨next, hstep, hnext⟩ := Relation.TransGen.head'_iff.1 hreaches
    obtain ⟨target, htarget, rfl⟩ := (includes_iff (htrail.lookup hroot)).1 hstep
    have htrail' := htrail.step htarget (hopen pages page target htrail htarget)
    exact ⟨pages ++ [page], target, htrail', by rw [List.length_append, hlength]; rfl, hnext⟩

theorem hasCircular_of_leadsToCycle {root : Page} (hroot : corpus.lookup root.path = some root)
    (h : corpus.LeadsToCycle root.path) : (corpus.tree root).hasCircular = true := by
  obtain ⟨other, hother, hcycle⟩ := h
  by_contra hnone
  have hopen : ∀ pages page target, corpus.Trail root pages page → target ∈ corpus.targets page →
      target.path ∉ pages.map Page.path := by
    intro pages page target htrail htarget habove
    exact hnone (Tree.hasCircular_iff_exists_occurs.2 ⟨_, _, occurs_cut htrail htarget habove, rfl⟩)
  -- a trail as long as the bound that holds for all trails
  obtain ⟨pages, page, htrail, hlength, -⟩ :=
    exists_trail_of_open hroot hopen hother hcycle (2 * corpus.pathCount)
  have hlt := htrail.length_lt (lookup_eq_some hroot).1
  omega

theorem hasCircular_tree_iff {root : Page} (hroot : corpus.lookup root.path = some root) :
    (corpus.tree root).hasCircular = true ↔ corpus.LeadsToCycle root.path :=
  ⟨leadsToCycle_of_hasCircular hroot, hasCircular_of_leadsToCycle hroot⟩

/-! ### How many trees hold one -/

/-- The pages whose trees hold a circular occurrence. -/
def circularPages (corpus : Corpus) : List Page := corpus.filter fun page => (corpus.tree page).hasCircular

theorem circularTrees_eq_length (corpus : Corpus) :
    (Summary.of corpus corpus.trees).circularTrees = corpus.circularPages.length := by
  change corpus.trees.countP Tree.hasCircular = _
  rw [trees, List.countP_map, List.countP_eq_length_filter]
  rfl

/-- Where no path comes twice the trees that hold a circular occurrence are those of the cyclic paths. -/
theorem coe_circularPages (hnodup : corpus.paths.Nodup) :
    ((corpus.circularPages.map Page.path).toFinset : Set String) = corpus.cyclicPaths := by
  ext path
  rw [Finset.mem_coe, List.mem_toFinset, List.mem_map]
  constructor
  · rintro ⟨page, hpage, rfl⟩
    obtain ⟨hmem, hcircular⟩ := List.mem_filter.1 hpage
    have hlookup := lookup_path_of_nodup hnodup hmem
    exact ⟨mem_paths_of_mem hmem, (hasCircular_tree_iff hlookup).1 hcircular⟩
  · rintro ⟨hpath, hcycle⟩
    obtain ⟨page, hlookup, rfl⟩ := exists_lookup_path hpath
    have hcircular := (hasCircular_tree_iff hlookup).2 hcycle
    exact ⟨page, List.mem_filter.2 ⟨(lookup_eq_some hlookup).1, hcircular⟩, rfl⟩

theorem circularTrees_eq_ncard (hnodup : corpus.paths.Nodup) :
    (Summary.of corpus corpus.trees).circularTrees = corpus.cyclicPaths.ncard := by
  have hsublist : List.Sublist (corpus.circularPages.map Page.path) corpus.paths :=
    List.filter_sublist.map Page.path
  rw [← coe_circularPages hnodup, Set.ncard_coe_finset, circularTrees_eq_length,
    List.toFinset_card_of_nodup (hsublist.nodup hnodup), List.length_map]

/-- **Circular occurrences tell cycles:** the tree of a path holds one iff the path leads to a cycle, and where
no path comes twice the totals count the paths that do. -/
theorem hasCircular_iff_leadsToCycle (corpus : Corpus) :
    (∀ path ∈ corpus.paths, ∃ tree, corpus.tree? path = some tree ∧
      (tree.hasCircular = true ↔ corpus.LeadsToCycle path)) ∧
    (corpus.paths.Nodup →
      (Summary.of corpus corpus.trees).circularTrees = corpus.cyclicPaths.ncard) := by
  refine ⟨fun path hpath => ?_, circularTrees_eq_ncard⟩
  obtain ⟨root, hroot, rfl⟩ := exists_lookup_path hpath
  exact ⟨corpus.tree root, tree?_of_lookup corpus hroot, hasCircular_tree_iff hroot⟩

/-- Of the three pages two lead to a cycle. -/
theorem hasCircular_iff_leadsToCycle_entwined :
    ("/b" ∈ entwined.paths ∧ entwined.paths.Nodup) ∧
    (∃ tree, entwined.tree? "/b" = some tree ∧ (tree.hasCircular = true ↔ entwined.LeadsToCycle "/b")) ∧
    2 = entwined.cyclicPaths.ncard := by
  have hnodup : entwined.paths.Nodup := by decide
  have hcount : (Summary.of entwined entwined.trees).circularTrees = 2 := by cbv
  refine ⟨⟨by decide, hnodup⟩, (hasCircular_iff_leadsToCycle entwined).1 "/b" (by decide), ?_⟩
  rw [← hcount]
  exact (hasCircular_iff_leadsToCycle entwined).2 hnodup

end Corpus

end PageGraph
