import PageGraph.Proofs.Drawing.Lines
import PageGraph.Proofs.Tree.Levels
import Mathlib.Data.List.Basic
import Mathlib.Data.Nat.Notation

/-!
# What a limit leaves out

A limit is compared with the depth that an occurrence states, and what stands below is then not drawn. The branches of
the lines that are drawn do not change: whether a tree is the last of its level is told by the trees beside it, which are
drawn or left out together.

* `Tree.prune` : a tree without what stands below the occurrences of the given depth or more;
* `Tree.lines_prune` : every tree is drawn down to a limit as the pruned tree is drawn;
* `Tree.Graded.lines_eq_filter` : where depths are levels the lines down to a limit are those of the occurrences that are
  no deeper.

Main statement: `Corpus.draw_limited`.
-/

namespace PageGraph

namespace Tree

mutual

/-- A tree without what stands below its occurrences of depth `limit` or more. -/
def prune (limit : ℕ) : Tree → Tree
  | .node occurrence nested => .node occurrence (if limit ≤ occurrence.depth then [] else pruneAll limit nested)

/-- Several trees without what stands below their occurrences of depth `limit` or more. -/
def pruneAll (limit : ℕ) : List Tree → List Tree
  | [] => []
  | tree :: trees => tree.prune limit :: pruneAll limit trees

end

/-! ### Pruned trees -/

theorem isEmpty_pruneAll (limit : ℕ) (trees : List Tree) : (pruneAll limit trees).isEmpty = trees.isEmpty := by
  cases trees with
  | nil => rfl
  | cons tree trees => rfl

/-- Pruning keeps the branches of trees that follow each other. -/
theorem linesBelow_pruneAll {limit : ℕ} {trees : List Tree}
    (h : ∀ tree ∈ trees, ∀ branch, linesFrom none branch (tree.prune limit) = linesFrom (some limit) branch tree)
    (branch : List Bool) : linesBelow none branch (pruneAll limit trees) = linesBelow (some limit) branch trees := by
  induction trees with
  | nil => rfl
  | cons tree trees ih =>
    rw [pruneAll, linesBelow, linesBelow, isEmpty_pruneAll, h tree List.mem_cons_self,
      ih fun other hother => h other (List.mem_cons_of_mem tree hother)]

theorem linesFrom_prune (limit : ℕ) (branch : List Bool) (tree : Tree) :
    linesFrom none branch (tree.prune limit) = linesFrom (some limit) branch tree := by
  induction tree using Tree.induct generalizing branch with
  | node root nested ih =>
    by_cases hdeep : limit ≤ root.depth
    · simp [prune, linesFrom, linesBelow, hdeep]
    · simp [prune, linesFrom, hdeep, linesBelow_pruneAll fun tree htree branch => ih tree htree branch]

/-- **A limit draws the pruned tree.** -/
theorem lines_prune (limit : ℕ) (tree : Tree) : (tree.prune limit).lines none = tree.lines (some limit) :=
  linesFrom_prune limit [] tree

/-! ### Lines that are left -/

/-- Trees that stand below the limit have no line that is left. -/
theorem filter_linesBelow_eq_nil {n limit : ℕ} {trees : List Tree} (h : ∀ tree ∈ trees, tree.Graded n)
    (hdeep : limit < n) (branch : List Bool) :
    (linesBelow none branch trees).filter (·.occurrence.depth ≤ limit) = [] := by
  rw [List.filter_eq_nil_iff]
  intro line hline
  obtain ⟨tree, htree, own, hline⟩ := exists_of_mem_linesBelow hline
  have hdepth := (h tree htree).le_depth (occurrence_mem_flatten_of_mem_linesFrom hline)
  simp only [decide_eq_true_eq]
  omega

theorem linesBelow_eq_filter {limit : Option ℕ} {keep : Line → Bool} {trees : List Tree}
    (h : ∀ tree ∈ trees, ∀ branch, linesFrom limit branch tree = (linesFrom none branch tree).filter keep)
    (branch : List Bool) : linesBelow limit branch trees = (linesBelow none branch trees).filter keep := by
  induction trees with
  | nil => rfl
  | cons tree trees ih =>
    rw [linesBelow, linesBelow, List.filter_append, h tree List.mem_cons_self,
      ih fun other hother => h other (List.mem_cons_of_mem tree hother)]

/-- The lines of a tree whose root is drawn. -/
theorem Graded.linesFrom_eq_filter {n limit : ℕ} {tree : Tree} (h : tree.Graded n) (hroot : n ≤ limit)
    (branch : List Bool) :
    linesFrom (some limit) branch tree = (linesFrom none branch tree).filter (·.occurrence.depth ≤ limit) := by
  induction tree using Tree.induct generalizing n branch with
  | node root nested ih =>
    obtain rfl : root.depth = n := h.depth_eq
    have hnested : ∀ tree ∈ nested, tree.Graded (root.depth + 1) := fun tree htree => h.of_mem_nested htree
    by_cases hlast : limit ≤ root.depth
    · -- the root stands on the last level that is drawn
      have hbelow := filter_linesBelow_eq_nil hnested (Nat.lt_succ_of_le hlast) branch
      simp [linesFrom, hroot, hlast, hbelow]
    · have hbelow : linesBelow (some limit) branch nested =
          (linesBelow none branch nested).filter (·.occurrence.depth ≤ limit) :=
        linesBelow_eq_filter (fun tree htree => ih tree htree (hnested tree htree) (by omega)) branch
      simp [linesFrom, hroot, hlast, hbelow]

/-- **A limit leaves the lines of the occurrences that are no deeper,** where depths are levels. -/
theorem Graded.lines_eq_filter {tree : Tree} (h : tree.Graded 0) (limit : ℕ) :
    tree.lines (some limit) = (tree.lines none).filter (·.occurrence.depth ≤ limit) :=
  h.linesFrom_eq_filter (Nat.zero_le limit) []

end Tree

namespace Corpus

variable {corpus : Corpus}

/-- **A limit only removes lines.** The tree of a path is drawn down to a limit as the tree is drawn that has nothing below
the occurrences of that depth. The drawing is split at its line ends into the texts of the lines, one for each occurrence of
the tree, and with a limit into those of them that belong to occurrences of that depth at most, with the same texts and in
the same order. -/
theorem draw_limited {path : String} {tree : Tree} (htree : corpus.tree? path = some tree)
    (hpaths : ∀ occurrence ∈ tree.flatten, '\n' ∉ occurrence.path.toList) (limit : ℕ) (coloured : Bool) :
    tree.draw (some limit) coloured = (tree.prune limit).draw none coloured ∧
    (tree.lines none).map Line.occurrence = tree.flatten ∧
    (tree.draw none coloured).toList.splitOn '\n' = (tree.lines none).map (Line.toText coloured) ++ [[]] ∧
    (tree.draw (some limit) coloured).toList.splitOn '\n' =
      ((tree.lines none).filter (·.occurrence.depth ≤ limit)).map (Line.toText coloured) ++ [[]] ∧
    ((tree.lines none).filter (·.occurrence.depth ≤ limit)).map Line.occurrence =
      tree.flatten.filter (·.depth ≤ limit) := by
  obtain ⟨page, -, rfl⟩ := Option.map_eq_some_iff.1 htree
  have hlimited := (corpus.graded_tree page).lines_eq_filter limit
  have hnewline : ∀ line ∈ (corpus.tree page).lines none, '\n' ∉ line.occurrence.path.toList := by
    intro line hline
    exact hpaths _ (Tree.occurrence_mem_flatten_of_mem_linesFrom hline)
  refine ⟨?_, Tree.map_occurrence_lines _, Tree.splitOn_draw hnewline coloured, ?_, ?_⟩
  · rw [Tree.draw, Tree.draw, Tree.lines_prune]
  · rw [← hlimited]
    refine Tree.splitOn_draw (fun line hline => hnewline line ?_) coloured
    rw [hlimited] at hline
    exact List.mem_of_mem_filter hline
  · rw [← Tree.map_occurrence_lines, List.filter_map]
    rfl

/-- Of the six lines of a tree with cycles, in colour, four are left. -/
theorem draw_limited_tangled :
    (tangled.tree? "/a" = some (tangled.tree pageA) ∧
      ∀ occurrence ∈ (tangled.tree pageA).flatten, '\n' ∉ occurrence.path.toList) ∧
    (tangled.tree pageA).draw (some 2) true = ((tangled.tree pageA).prune 2).draw none true ∧
    ((tangled.tree pageA).draw none true).toList.splitOn '\n' =
      ((tangled.tree pageA).lines none).map (Line.toText true) ++ [[]] ∧
    ((tangled.tree pageA).draw (some 2) true).toList.splitOn '\n' =
      (((tangled.tree pageA).lines none).filter (·.occurrence.depth ≤ 2)).map (Line.toText true) ++ [[]] ∧
    (((tangled.tree pageA).lines none).map (·.occurrence.depth)) = [0, 1, 2, 3, 3, 2] := by
  have htree : tangled.tree? "/a" = some (tangled.tree pageA) := rfl
  have hplain : ∀ path ∈ tangled.paths, '\n' ∉ path.toList := by decide
  have hpaths : ∀ occurrence ∈ (tangled.tree pageA).flatten, '\n' ∉ occurrence.path.toList :=
    fun occurrence hmem => hplain _ (path_mem_paths_of_mem_flatten (by decide) hmem)
  obtain ⟨hpruned, -, hlines, hlimited, -⟩ := draw_limited htree hpaths 2 true
  exact ⟨⟨htree, hpaths⟩, hpruned, hlines, hlimited, by cbv⟩

/-- What is below the first level is left out, and the branches beside it are the same. -/
example : (Corpus.tree [pageD, pageA, pageC] pageD).draw (some 1) false = "/d\n├── /c\n├── /a\n└── /c\n" := by cbv

end Corpus

end PageGraph
