import PageGraph.Proofs.Tree.Occurrences
import Mathlib.Data.List.Basic
import Mathlib.Data.Nat.Notation

/-!
# Levels of a tree

Each occurrence states a depth. In a tree that a page is expanded into this is the level on which the occurrence
stands; a tree that is read from a file may state anything.

* `Tree.Graded n tree` : the depths are the levels, counted from `n` at the root;
* `Corpus.graded_tree` : the tree of a page is graded from 0;
* `Tree.exists_depth_eq_maxDepth`, `Tree.Graded.depth_le_maxDepth` : the greatest depth that a leaf states is stated
  in every tree, and in a graded tree no occurrence states a greater one.
-/

namespace PageGraph

namespace Tree

/-- Every occurrence states its level, and the root stands on level `n`. -/
def Graded (n : ℕ) (tree : Tree) : Prop :=
  ∀ above sub, tree.Occurs above sub → sub.occurrence.depth = n + above.length

namespace Graded

variable {n : ℕ} {tree : Tree}

theorem depth_eq (h : tree.Graded n) : tree.occurrence.depth = n := h [] tree .root

theorem of_mem_nested (h : tree.Graded n) {child : Tree} (hchild : child ∈ tree.nested) :
    child.Graded (n + 1) := by
  intro above sub hoccurs
  have hdepth := h _ _ (hoccurs.cons hchild)
  simp only [List.length_cons] at hdepth
  omega

/-- The root states the least depth. -/
theorem le_depth (h : tree.Graded n) {occurrence : Occurrence} (hmem : occurrence ∈ tree.flatten) :
    n ≤ occurrence.depth := by
  obtain ⟨above, sub, hoccurs, rfl⟩ := mem_flatten_iff.1 hmem
  rw [h above sub hoccurs]
  exact Nat.le_add_right n above.length

end Graded

/-! ### The greatest depth -/

theorem maxDepth_le_maxDepthAll {tree : Tree} {trees : List Tree} (h : tree ∈ trees) :
    tree.maxDepth ≤ maxDepthAll trees := by
  induction trees with
  | nil => cases h
  | cons first trees ih =>
    rw [maxDepthAll]
    rcases List.mem_cons.1 h with rfl | h
    · exact Nat.le_max_left _ _
    · exact Nat.le_trans (ih h) (Nat.le_max_right _ _)

theorem exists_maxDepth_eq_maxDepthAll {trees : List Tree} (h : trees ≠ []) :
    ∃ tree ∈ trees, tree.maxDepth = maxDepthAll trees := by
  induction trees with
  | nil => exact absurd rfl h
  | cons first trees ih =>
    by_cases hle : maxDepthAll trees ≤ first.maxDepth
    · exact ⟨first, List.mem_cons_self, by rw [maxDepthAll, Nat.max_eq_left hle]⟩
    · -- there is something behind the first tree, as it states a greater depth
      have hne : trees ≠ [] := by
        rintro rfl
        exact hle (Nat.zero_le _)
      obtain ⟨tree, htree, hdepth⟩ := ih hne
      refine ⟨tree, List.mem_cons_of_mem first htree, ?_⟩
      rw [maxDepthAll, hdepth, Nat.max_eq_right (by omega)]

theorem maxDepth_node_of_ne_nil (occurrence : Occurrence) {nested : List Tree} (h : nested ≠ []) :
    (node occurrence nested).maxDepth = maxDepthAll nested := by
  obtain ⟨tree, trees, rfl⟩ := List.exists_cons_of_ne_nil h
  rw [maxDepth, maxDepthAll]

/-- The greatest depth is that of an occurrence, the one at a leaf. -/
theorem exists_depth_eq_maxDepth (tree : Tree) :
    ∃ occurrence ∈ tree.flatten, occurrence.depth = tree.maxDepth := by
  induction tree using Tree.induct with
  | node root nested ih =>
    rw [flatten_eq_cons]
    by_cases hnil : nested = []
    · subst hnil
      exact ⟨root, List.mem_cons_self, by rw [maxDepth]⟩
    · obtain ⟨child, hchild, hmax⟩ := exists_maxDepth_eq_maxDepthAll hnil
      obtain ⟨occurrence, hmem, hdepth⟩ := ih child hchild
      refine ⟨occurrence, List.mem_cons_of_mem _ (List.mem_flatMap.2 ⟨child, hchild, hmem⟩), ?_⟩
      rw [maxDepth_node_of_ne_nil root hnil, hdepth, hmax]

/-- Where depths are levels the leaves state the greatest ones. -/
theorem Graded.depth_le_maxDepth {n : ℕ} {tree : Tree} (h : tree.Graded n) {occurrence : Occurrence}
    (hmem : occurrence ∈ tree.flatten) : occurrence.depth ≤ tree.maxDepth := by
  induction tree using Tree.induct generalizing n occurrence with
  | node root nested ih =>
    -- what stands below a child is as deep as that child says at most
    have hbelow : ∀ child ∈ nested, ∀ lower ∈ child.flatten, lower.depth ≤ (node root nested).maxDepth := by
      intro child hchild lower hlower
      rw [maxDepth_node_of_ne_nil root (List.ne_nil_of_mem hchild)]
      exact Nat.le_trans (ih child hchild (h.of_mem_nested hchild) hlower) (maxDepth_le_maxDepthAll hchild)
    rw [flatten_eq_cons] at hmem
    rcases List.mem_cons.1 hmem with rfl | hmem
    · cases nested with
      | nil => simp [maxDepth]
      | cons child nested =>
        have hroot := h.depth_eq
        have hchild := (h.of_mem_nested (List.mem_cons_self : child ∈ child :: nested)).depth_eq
        have hle := hbelow child List.mem_cons_self child.occurrence child.occurrence_mem_flatten
        change occurrence.depth = n at hroot
        omega
    · obtain ⟨child, hchild, hlower⟩ := List.mem_flatMap.1 hmem
      exact hbelow child hchild occurrence hlower

end Tree

/-- The tree of a page states how many trees stand above each occurrence. -/
theorem Corpus.graded_tree (corpus : Corpus) (page : Page) : (corpus.tree page).Graded 0 := by
  intro above sub h
  rw [Nat.zero_add]
  rcases occurs_tree_iff.1 h with ⟨pages, last, htrail, rfl, rfl⟩ |
    ⟨pages, last, target, -, htarget, habove, rfl, rfl⟩
  · exact htrail.wellPlaced_opened.depth
  · exact (wellPlaced_cut htarget habove).depth

end PageGraph
