import PageGraph.Proofs.Tree.Composition
import PageGraph.Proofs.Tree.Levels
import PageGraph.Tree.Summary
import Mathlib.Algebra.BigOperators.Group.List.Basic
import Mathlib.Algebra.Ring.Nat
import Mathlib.Data.List.Basic

/-!
# Totals and trees

The totals of a corpus are counted in several ways: over the references, of which those are left out that no page has
as its path, and over the trees, by recursions that list nothing. Here they are told from what the trees list.

* `Summary.Describes` : the totals are what can be counted in a list of trees;
* `Tree.count_eq_length_flatten`, `Tree.hasCircular_eq_any_flatten` : the recursions say of every tree what its
  occurrences say;
* `Corpus.length_references` : below the roots stand as many trees as there are references that name a page;
* `Corpus.maxDepthAll_trees` : the greatest depth that a leaf states is the greatest depth of all, as an expansion
  states levels.

Main statement: `Corpus.summary_describes_trees`.
-/

namespace PageGraph

/-- The totals are those of the occurrences that the trees list. -/
structure Summary.Describes (summary : Summary) (trees : List Tree) : Prop where
  /-- There is a tree for each page. -/
  pages : summary.pages = trees.length
  /-- Each reference names no page, or there is a tree for it below a root. -/
  references : summary.references = summary.unresolved + (trees.map (·.nested.length)).sum
  occurrences : summary.occurrences = (trees.map (·.flatten.length)).sum
  circularTrees : summary.circularTrees = trees.countP (·.flatten.any Occurrence.isCircular)
  /-- The greatest depth that an occurrence states, and 0 where there is none. -/
  maxDepth : summary.maxDepth = ((trees.flatMap Tree.flatten).map Occurrence.depth).max?.getD 0

namespace Tree

/-! ### Every tree -/

theorem count_eq_length_flatten (tree : Tree) : tree.count = tree.flatten.length := by
  induction tree using Tree.induct with
  | node root nested ih =>
    have hnested : nested.map count = nested.map (·.flatten.length) := List.map_congr_left ih
    rw [count, countAll_eq_sum, hnested, flatten_eq_cons, List.length_cons, List.length_flatMap, Nat.add_comm]
    rfl

theorem countAll_eq_sum_length_flatten (trees : List Tree) :
    countAll trees = (trees.map (·.flatten.length)).sum := by
  rw [countAll_eq_sum]
  exact congrArg List.sum (List.map_congr_left fun tree _ => tree.count_eq_length_flatten)

theorem hasCircular_eq_any_flatten (tree : Tree) : tree.hasCircular = tree.flatten.any Occurrence.isCircular := by
  rw [Bool.eq_iff_iff, hasCircular_iff_exists_mem_flatten, List.any_eq_true]

/-! ### Trees whose depths are levels -/

/-- The leaves of several trees state the greatest depth. -/
theorem maxDepthAll_eq_max? {n : ℕ} {trees : List Tree} (h : ∀ tree ∈ trees, tree.Graded n) :
    maxDepthAll trees = ((trees.flatMap flatten).map Occurrence.depth).max?.getD 0 := by
  by_cases hnil : trees = []
  · subst hnil
    rfl
  · have hmax : ((trees.flatMap flatten).map Occurrence.depth).max? = some (maxDepthAll trees) := by
      rw [List.max?_eq_some_iff]
      constructor
      · obtain ⟨tree, htree, hdepth⟩ := exists_maxDepth_eq_maxDepthAll hnil
        obtain ⟨occurrence, hmem, hoccurrence⟩ := exists_depth_eq_maxDepth tree
        rw [← hdepth, ← hoccurrence]
        exact List.mem_map_of_mem (List.mem_flatMap.2 ⟨tree, htree, hmem⟩)
      · intro depth hdepth
        obtain ⟨occurrence, hmem, rfl⟩ := List.mem_map.1 hdepth
        obtain ⟨tree, htree, hmem⟩ := List.mem_flatMap.1 hmem
        exact Nat.le_trans ((h tree htree).depth_le_maxDepth hmem) (maxDepth_le_maxDepthAll htree)
    rw [hmax, Option.getD_some]

end Tree

namespace Corpus

variable (corpus : Corpus)

/-- A reference has a tree below the root iff some page has it as its path. -/
theorem length_nested_tree (page : Page) :
    (corpus.tree page).nested.length = page.references.countP fun reference => corpus.any (·.path = reference) := by
  have hknown : ∀ reference, decide (reference ∈ corpus.paths) = corpus.any (·.path = reference) := by
    intro reference
    rw [Bool.eq_iff_iff]
    simp [paths]
  calc (corpus.tree page).nested.length
      = (corpus.targets page).length := by rw [tree_eq_opened, nested_opened, List.length_map]
    _ = (page.references.filter (· ∈ corpus.paths)).length := by rw [← map_path_targets, List.length_map]
    _ = page.references.countP fun reference => corpus.any (·.path = reference) := by
        simp only [← List.countP_eq_length_filter, hknown]

/-- Each reference names no page, or there is a tree for it below a root. -/
theorem length_references :
    (corpus.flatMap Page.references).length =
      (corpus.flatMap Page.references).countP (fun reference => !corpus.any (·.path = reference)) +
        (corpus.trees.map (·.nested.length)).sum := by
  have hnested : (corpus.trees.map (·.nested.length)).sum =
      (corpus.flatMap Page.references).countP fun reference => corpus.any (·.path = reference) := by
    rw [trees, List.map_map, List.countP_flatMap]
    congr 1
    exact List.map_congr_left fun page _ => corpus.length_nested_tree page
  rw [hnested, Nat.add_comm, List.length_eq_countP_add_countP fun reference => corpus.any (·.path = reference)]
  simp only [decide_not, Bool.decide_eq_true]

theorem maxDepthAll_trees :
    Tree.maxDepthAll corpus.trees = ((corpus.trees.flatMap Tree.flatten).map Occurrence.depth).max?.getD 0 := by
  refine Tree.maxDepthAll_eq_max? (n := 0) fun tree htree => ?_
  obtain ⟨page, -, rfl⟩ := List.mem_map.1 htree
  exact corpus.graded_tree page

/-- **The totals agree with the trees.** The totals of a corpus and its trees are those of the occurrences that the
trees list; and every tree, expanded or not, is said to have as many occurrences as it lists, and to hold a circular one
iff it lists one. -/
theorem summary_describes_trees :
    (Summary.of corpus corpus.trees).Describes corpus.trees ∧
      ∀ tree : Tree, tree.count = tree.flatten.length ∧
        (tree.hasCircular = true ↔ ∃ occurrence ∈ tree.flatten, occurrence.isCircular = true) := by
  refine ⟨?_, fun tree => ⟨tree.count_eq_length_flatten, Tree.hasCircular_iff_exists_mem_flatten⟩⟩
  exact {
    pages := by simp [Summary.of, trees]
    references := corpus.length_references
    occurrences := Tree.countAll_eq_sum_length_flatten corpus.trees
    circularTrees := by simp only [Summary.of, ← Tree.hasCircular_eq_any_flatten]
    maxDepth := corpus.maxDepthAll_trees }

/-- Two pages with one path, a page that includes itself, and a reference that names none. -/
example : Summary.of tangled tangled.trees = ⟨3, 5, 1, 3, 19, 3⟩ := by cbv

end Corpus

end PageGraph
