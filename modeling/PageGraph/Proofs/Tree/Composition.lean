import PageGraph.Proofs.Tree.Depth
import PageGraph.Proofs.Tree.Reachability
import Mathlib.Algebra.BigOperators.Group.List.Basic
import Mathlib.Algebra.Ring.Nat
import Mathlib.Data.List.Basic

/-!
# Trees are made of trees

What stands below an opened page is what stands below it in its own tree, only deeper, as long as the page
reaches nothing of what is above it. The paths above are then found by no target below, so they cut nothing,
and as they come first they move the place of every other path by their number.

* `Tree.deepen` : a tree with a number added to every depth that it states, and nothing else changed;
* `Corpus.nested_opened_append` : expanding below more paths, none of which is reached, deepens the result.

Main statement: `Corpus.subtrees_compose`. Where no path reaches itself it gives the number of occurrences of a
tree from those of the trees of its references.
-/

namespace PageGraph

/-- A mark with `levels` added to the depths that it states. -/
def CycleMark.deepen (levels : ℕ) (mark : CycleMark) : CycleMark where
  firstIncludedDepth := mark.firstIncludedDepth + levels
  lastIncludedBy := ⟨mark.lastIncludedBy.path, mark.lastIncludedBy.depth + levels⟩

/-- An occurrence with `levels` added to the depths that it states. -/
def Occurrence.deepen (levels : ℕ) (occurrence : Occurrence) : Occurrence :=
  { occurrence with
    depth := occurrence.depth + levels
    circular := occurrence.circular.map (CycleMark.deepen levels) }

namespace Tree

mutual

/-- A tree with `levels` added to all depths that it states. -/
def deepen (levels : ℕ) : Tree → Tree
  | .node occurrence nested => .node (occurrence.deepen levels) (deepenAll levels nested)

/-- Several trees with `levels` added to all depths that they state. -/
def deepenAll (levels : ℕ) : List Tree → List Tree
  | [] => []
  | tree :: trees => tree.deepen levels :: deepenAll levels trees

end

theorem deepenAll_eq_map (levels : ℕ) (trees : List Tree) :
    deepenAll levels trees = trees.map (deepen levels) := by
  induction trees with
  | nil => rfl
  | cons tree trees ih => rw [deepenAll, ih, List.map_cons]

theorem countAll_eq_sum (trees : List Tree) : countAll trees = (trees.map count).sum := by
  induction trees with
  | nil => rfl
  | cons tree trees ih => rw [countAll, ih, List.map_cons, List.sum_cons]

/-- A tree has one occurrence more than the trees below its root. -/
theorem count_eq (tree : Tree) : tree.count = 1 + (tree.nested.map count).sum := by
  obtain ⟨occurrence, nested⟩ := tree
  rw [count, countAll_eq_sum]
  rfl

@[simp] theorem count_deepen (levels : ℕ) (tree : Tree) : (tree.deepen levels).count = tree.count := by
  induction tree using Tree.induct with
  | node occurrence nested ih =>
    rw [deepen, count, count, deepenAll_eq_map, countAll_eq_sum, countAll_eq_sum, List.map_map]
    congr 2
    exact List.map_congr_left fun tree htree => ih tree htree

end Tree

namespace Corpus

variable {corpus : Corpus}

/-! ### Below more paths -/

/-- A target is cut in the same way below paths that it is none of. -/
theorem cut_append {outer above : List String} {page target : Page} (hfree : target.path ∉ outer) :
    cut (outer ++ above) page target = (cut above page target).deepen outer.length := by
  have hindex : (outer ++ above).idxOf target.path = above.idxOf target.path + outer.length := by
    rw [List.idxOf_append_of_notMem hfree, Nat.add_comm]
  have hlength : (outer ++ above).length = above.length + outer.length := by
    rw [List.length_append, Nat.add_comm]
  have hdepth : above.length + outer.length + 1 = above.length + 1 + outer.length := by omega
  simp only [cut, circularOccurrence, occurrence, Tree.deepen, Tree.deepenAll, Occurrence.deepen,
    CycleMark.deepen, Option.map_some, hindex, hlength, hdepth]

/-- A page that is opened below some paths is opened in the same way below more, if its targets are. -/
theorem opened_append {outer inner : List String} {page : Page} (hinner : inner ≠ [])
    (hnested : (corpus.opened (outer ++ inner) page).nested =
      (corpus.opened inner page).nested.map (Tree.deepen outer.length)) :
    corpus.opened (outer ++ inner) page = (corpus.opened inner page).deepen outer.length := by
  have hlast : (outer ++ inner).getLast? = inner.getLast? := List.getLast?_append_of_ne_nil outer hinner
  have hlength : (outer ++ inner).length = inner.length + outer.length := by
    rw [List.length_append, Nat.add_comm]
  calc corpus.opened (outer ++ inner) page
      = .node (occurrence page (outer ++ inner).getLast? (outer ++ inner).length)
          (corpus.opened (outer ++ inner) page).nested := rfl
    _ = .node (occurrence page inner.getLast? (inner.length + outer.length))
          (Tree.deepenAll outer.length (corpus.opened inner page).nested) := by
        rw [hlast, hlength, hnested, Tree.deepenAll_eq_map]
    _ = (corpus.opened inner page).deepen outer.length := rfl

/-- **Expanding below more paths** gives the same trees, deeper by the number of these paths, if the page
reaches none of them. -/
theorem nested_opened_append (outer above : List String) (page : Page)
    (hpage : corpus.lookup page.path = some page)
    (hfree : ∀ path ∈ outer, ¬ corpus.Reaches page.path path) :
    (corpus.opened (outer ++ above) page).nested =
      (corpus.opened above page).nested.map (Tree.deepen outer.length) := by
  induction above, page using opened_induct with
  | step above page ih =>
    rw [nested_opened, nested_opened, List.map_map]
    refine List.map_congr_left fun target htarget => ?_
    have hstep : corpus.Includes page.path target.path := includes_of_mem_targets hpage htarget
    have hnew : target.path ∉ outer := fun hmem => hfree _ hmem (.single hstep)
    rw [Function.comp_apply]
    by_cases habove : target.path ∈ above
    · rw [child_of_mem corpus habove, child_of_mem corpus (List.mem_append_right _ habove), cut_append hnew]
    · -- the target reaches no more than the page that includes it
      have hfree' : ∀ path ∈ outer, ¬ corpus.Reaches target.path path := by
        intro path hpath hreaches
        exact hfree path hpath (.head hstep hreaches)
      have hnested := ih target htarget habove (lookup_of_mem_targets htarget) hfree'
      rw [child_of_not_mem corpus habove, child_of_not_mem corpus (by simp [hnew, habove]),
        List.append_assoc]
      exact opened_append (by simp) hnested

/-- What stands below the end of a trail is the tree of the page there, as deep as the trail is long. -/
theorem Trail.nested_opened_eq {root page : Page} {pages : List Page} (h : corpus.Trail root pages page)
    (hroot : corpus.lookup root.path = some root)
    (hfree : ∀ upper ∈ pages, ¬ corpus.Reaches page.path upper.path) :
    (corpus.opened (pages.map Page.path) page).nested =
      (corpus.tree page).nested.map (Tree.deepen pages.length) := by
  have hnested := nested_opened_append (pages.map Page.path) [] page (h.lookup hroot) (by
    intro path hpath
    obtain ⟨upper, hupper, rfl⟩ := List.mem_map.1 hpath
    exact hfree upper hupper)
  rwa [List.append_nil, List.length_map] at hnested

/-! ### Occurrences and their own trees -/

theorem nested_eq_of_occurs {root : Page} (hroot : corpus.lookup root.path = some root) {above : List Tree}
    {sub : Tree} (h : (corpus.tree root).Occurs above sub) (hopen : sub.occurrence.isCircular = false)
    (hfree : ∀ upper ∈ above, ¬ corpus.Reaches sub.occurrence.path upper.occurrence.path) :
    ∃ own, corpus.tree? sub.occurrence.path = some own ∧
      sub.nested = own.nested.map (Tree.deepen sub.occurrence.depth) := by
  rcases occurs_tree_iff.1 h with ⟨pages, page, htrail, rfl, rfl⟩ | ⟨pages, page, target, -, -, -, -, rfl⟩
  · refine ⟨corpus.tree page, tree?_of_lookup corpus (htrail.lookup hroot), ?_⟩
    have hdepth : (corpus.opened (pages.map Page.path) page).occurrence.depth = pages.length :=
      List.length_map _
    rw [hdepth]
    refine htrail.nested_opened_eq hroot fun upper hupper => ?_
    -- the page `upper` stands among the opened trees of the trail
    have hmem : upper.path ∈ (corpus.ladder pages).map (·.occurrence.path) := by
      rw [map_path_ladder]
      exact List.mem_map_of_mem hupper
    obtain ⟨tree, htree, hpath⟩ := List.mem_map.1 hmem
    rw [← hpath]
    exact hfree tree htree
  · exact absurd hopen.symm Bool.false_ne_true

/-! ### Counting without cycles -/

/-- Where no path reaches itself a target of a root has as many occurrences below it as its own tree. -/
theorem count_child_of_acyclic (hacyclic : ∀ path, ¬ corpus.Reaches path path) {root target : Page}
    (hroot : corpus.lookup root.path = some root) (htarget : target ∈ corpus.targets root) :
    (corpus.child [] root target).count = (corpus.tree target).count := by
  have hstep : corpus.Includes root.path target.path := includes_of_mem_targets hroot htarget
  have htrail : corpus.Trail root [root] target := .step .root htarget List.not_mem_nil
  have hfree : ∀ upper ∈ [root], ¬ corpus.Reaches target.path upper.path := by
    intro upper hupper hreaches
    obtain rfl := List.mem_singleton.1 hupper
    exact hacyclic upper.path (.head hstep hreaches)
  have hnested := htrail.nested_opened_eq hroot hfree
  rw [child_of_not_mem corpus List.not_mem_nil, Tree.count_eq, Tree.count_eq (corpus.tree target)]
  change 1 + ((corpus.opened ([root].map Page.path) target).nested.map Tree.count).sum = _
  rw [hnested, List.map_map]
  congr 2
  exact List.map_congr_left fun tree _ => Tree.count_deepen _ tree

theorem count_tree_of_acyclic (hacyclic : ∀ path, ¬ corpus.Reaches path path) {root : Page}
    (hroot : corpus.lookup root.path = some root) :
    (corpus.tree root).count =
      1 + (((corpus.targets root).map corpus.tree).map Tree.count).sum := by
  rw [Tree.count_eq, tree_eq_opened, nested_opened, List.map_map, List.map_map]
  congr 2
  exact List.map_congr_left fun target htarget => count_child_of_acyclic hacyclic hroot htarget

/-- The references of a page within the corpus have trees: those of its targets. -/
theorem mapM_tree?_inclusions {root : Page} (hroot : corpus.lookup root.path = some root) :
    (corpus.inclusions root.path).mapM corpus.tree? = some ((corpus.targets root).map corpus.tree) := by
  rw [inclusions_eq hroot, List.mapM_map]
  refine mapM_of_forall_eq_some fun target htarget => ?_
  exact tree?_of_lookup corpus (lookup_of_mem_targets htarget)

/-- **Trees are made of trees.** What stands below an occurrence that is not circular is what stands below the
root in the tree of its own path, deeper by the depth of the occurrence, if its path reaches none of those
above it. And where no path reaches itself, a tree has one occurrence more than the trees of the references of
its page have together. -/
theorem subtrees_compose (corpus : Corpus) :
    (∀ path ∈ corpus.paths, ∃ tree, corpus.tree? path = some tree ∧
      ∀ above sub, tree.Occurs above sub → sub.occurrence.isCircular = false →
        (∀ upper ∈ above, ¬ corpus.Reaches sub.occurrence.path upper.occurrence.path) →
        ∃ own, corpus.tree? sub.occurrence.path = some own ∧
          sub.nested = own.nested.map (Tree.deepen sub.occurrence.depth)) ∧
    ((∀ path, ¬ corpus.Reaches path path) → ∀ path ∈ corpus.paths, ∃ tree trees,
      corpus.tree? path = some tree ∧ (corpus.inclusions path).mapM corpus.tree? = some trees ∧
      tree.count = 1 + (trees.map Tree.count).sum) := by
  constructor
  · intro path hpath
    obtain ⟨root, hroot, rfl⟩ := exists_lookup_path hpath
    exact ⟨corpus.tree root, tree?_of_lookup corpus hroot, fun _ _ hoccurs => nested_eq_of_occurs hroot hoccurs⟩
  · intro hacyclic path hpath
    obtain ⟨root, hroot, rfl⟩ := exists_lookup_path hpath
    exact ⟨corpus.tree root, _, tree?_of_lookup corpus hroot, mapM_tree?_inclusions hroot,
      count_tree_of_acyclic hacyclic hroot⟩

/-- The cycle of `/a` and `/b` below a page that it does not reach. -/
def crowned : Corpus := [pageD, pageA, pageB, pageC]

/-- The same page without the cycle. -/
def acyclic : Corpus := [pageD, pageC]

theorem not_reaches_d (path : String) : ¬ crowned.Reaches path "/d" := by
  intro h
  obtain ⟨before, -, hstep⟩ := Relation.TransGen.tail'_iff.1 h
  obtain ⟨page, hpage, -, hmem⟩ := hstep.exists_mem_references
  have hnone : ∀ other ∈ crowned, "/d" ∉ other.references := by decide
  exact hnone page hpage hmem

theorem not_reaches_acyclic (path : String) : ¬ acyclic.Reaches path path := by
  intro h
  -- all that is included is `/c`, and `/c` includes nothing
  obtain ⟨next, hfirst, hrest⟩ := Relation.TransGen.head'_iff.1 h
  obtain ⟨before, -, hlast⟩ := Relation.TransGen.tail'_iff.1 h
  have hends : path = "/c" := by
    obtain ⟨page, hpage, -, hmem⟩ := hlast.exists_mem_references
    have hleaf : ∀ other ∈ acyclic, ∀ reference ∈ other.references,
        reference ∈ acyclic.paths → reference = "/c" := by decide
    exact hleaf page hpage path hmem hlast.mem_paths
  rw [hends] at hfirst
  cases hfirst

theorem subtrees_compose_crowned :
    ("/d" ∈ crowned.paths ∧
      (crowned.tree pageD).Occurs (crowned.ladder [pageD]) (crowned.opened ["/d"] pageA) ∧
      (crowned.opened ["/d"] pageA).occurrence.isCircular = false ∧
      ∀ upper ∈ crowned.ladder [pageD], ¬ crowned.Reaches "/a" upper.occurrence.path) ∧
    (∃ own, crowned.tree? "/a" = some own ∧
      (crowned.opened ["/d"] pageA).nested = own.nested.map (Tree.deepen 1)) ∧
    ((∀ path, ¬ acyclic.Reaches path path) ∧ "/d" ∈ acyclic.paths) ∧
    ∃ tree trees, acyclic.tree? "/d" = some tree ∧
      (acyclic.inclusions "/d").mapM acyclic.tree? = some trees ∧
      tree.count = 1 + (trees.map Tree.count).sum := by
  have hoccurs : (crowned.tree pageD).Occurs (crowned.ladder [pageD]) (crowned.opened ["/d"] pageA) :=
    occurs_opened (.step .root (by decide) (by decide))
  have hfree : ∀ upper ∈ crowned.ladder [pageD], ¬ crowned.Reaches "/a" upper.occurrence.path := by
    intro upper hupper
    obtain rfl := List.mem_singleton.1 hupper
    exact not_reaches_d "/a"
  obtain ⟨tree, htree, hcompose⟩ := (subtrees_compose crowned).1 "/d" (by decide)
  have hroot : crowned.tree? "/d" = some (crowned.tree pageD) := rfl
  obtain rfl := Option.some.inj (hroot.symm.trans htree)
  exact ⟨⟨by decide, hoccurs, rfl, hfree⟩, hcompose _ _ hoccurs rfl hfree,
    ⟨not_reaches_acyclic, by decide⟩,
    (subtrees_compose acyclic).2 not_reaches_acyclic "/d" (by decide)⟩

end Corpus

end PageGraph
