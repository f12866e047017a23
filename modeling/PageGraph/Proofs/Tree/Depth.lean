import PageGraph.Proofs.Lists
import PageGraph.Proofs.Tree.Trails
import Mathlib.Algebra.BigOperators.Group.Finset.Basic
import Mathlib.Algebra.Order.BigOperators.Group.Finset
import Mathlib.Data.List.Basic

/-!
# How deep an expansion goes

A page may be opened once more below itself, so the number of pages that are not above yet does not go down at
every step. What does hold of a trail is that a path comes twice only in two places next to each other, which
bounds its length by twice the number of paths.

* `Corpus.expandWithin`, `Corpus.treeWithin` : the expansion with a bound on how many expansions are under way
  at once, which gives nothing when the bound is met;
* `Corpus.RepeatsAdjacent` : a path comes twice only in two places next to each other;
* `Corpus.Trail.length_lt` : a trail is shorter than twice the number of paths.

Main statement: `Corpus.expansion_ends` : twice the number of paths is enough for every tree, and bounds the
depth of every occurrence.
-/

namespace PageGraph

namespace Corpus

variable (corpus : Corpus)

/-- The trees below a page, expanded with at most `levels` expansions under way at once. -/
def expandWithin : ℕ → List String → Page → Option (List Tree)
  | 0, _, _ => none
  | levels + 1, above, page => (corpus.targets page).mapM fun target =>
    if target.path ∈ above then some (.node (circularOccurrence above page target) [])
    else (expandWithin levels (above ++ [page.path]) target).map
      (.node (occurrence target (some page.path) (above.length + 1)))

/-- The tree of a page, with at most `levels` expansions under way at once. -/
def treeWithin (levels : ℕ) (page : Page) : Option Tree :=
  (corpus.expandWithin levels [] page).map (.node (occurrence page none 0))

/-- A path comes twice only in two places next to each other. -/
def RepeatsAdjacent (paths : List String) : Prop :=
  ∀ (i j : ℕ) (path : String), i < j → paths[i]? = some path → paths[j]? = some path → j = i + 1

/-- What bounds the depth of a tree `sub` below the trees `above`. -/
structure DepthBounded (above : List Tree) (sub : Tree) : Prop where
  count_le_two : sub.occurrence.isCircular = false →
    ∀ path, ((above ++ [sub]).map (·.occurrence.path)).count path ≤ 2
  repeatsAdjacent : sub.occurrence.isCircular = false →
    RepeatsAdjacent ((above ++ [sub]).map (·.occurrence.path))
  depth_lt : sub.occurrence.isCircular = false → sub.occurrence.depth < 2 * corpus.pathCount
  depth_le : sub.occurrence.isCircular = true → sub.occurrence.depth ≤ 2 * corpus.pathCount

variable {corpus}

/-! ### Repetitions along a trail -/

theorem repeatsAdjacent_singleton (path : String) : RepeatsAdjacent [path] := by
  intro i j other hij _ hj
  have := (List.getElem?_eq_some_iff.1 hj).1
  rw [List.length_singleton] at this
  omega

/-- A path that does not come before the last one can be added. -/
theorem RepeatsAdjacent.concat {paths : List String} {last next : String}
    (h : RepeatsAdjacent (paths ++ [last])) (hnext : next ∉ paths) :
    RepeatsAdjacent (paths ++ [last] ++ [next]) := by
  intro i j path hij hi hj
  have hlen : (paths ++ [last]).length = paths.length + 1 := List.length_append
  have hj_lt := (List.getElem?_eq_some_iff.1 hj).1
  rw [List.length_append, List.length_singleton, hlen] at hj_lt
  by_cases hold : j < paths.length + 1
  · rw [List.getElem?_append_left (by omega)] at hi hj
    exact h i j path hij hi hj
  · -- `j` is the place of `next`, and `next` has come at the place just before at most
    have hj_eq : j = paths.length + 1 := by omega
    subst hj_eq
    rw [← hlen, List.getElem?_concat_length] at hj
    obtain rfl := Option.some.inj hj
    by_contra hne
    have hi_lt : i < paths.length := by omega
    rw [List.append_assoc, List.getElem?_append_left hi_lt] at hi
    exact hnext (List.mem_of_getElem? hi)

theorem count_concat_le_two {paths : List String} {last next : String}
    (h : ∀ path, (paths ++ [last]).count path ≤ 2) (hnext : next ∉ paths) (path : String) :
    (paths ++ [last] ++ [next]).count path ≤ 2 := by
  by_cases hpath : path = next
  · subst hpath
    have hzero : paths.count path = 0 := List.count_eq_zero_of_not_mem hnext
    have hlast : [last].count path ≤ 1 := List.count_le_length
    rw [List.count_append, List.count_append, hzero, List.count_singleton_self]
    omega
  · have hzero : [next].count path = 0 := List.count_eq_zero_of_not_mem (by simpa using hpath)
    rw [List.count_append, hzero]
    exact h path

namespace Trail

variable {root page : Page} {pages : List Page}

theorem repeatsAdjacent (h : corpus.Trail root pages page) :
    RepeatsAdjacent ((pages ++ [page]).map Page.path) := by
  induction h with
  | root => exact repeatsAdjacent_singleton _
  | step _ _ hnew ih =>
    rw [List.map_append] at ih
    rw [List.map_append, List.map_append]
    exact ih.concat hnew

theorem count_le_two (h : corpus.Trail root pages page) (path : String) :
    ((pages ++ [page]).map Page.path).count path ≤ 2 := by
  induction h generalizing path with
  | root => exact Nat.le_succ_of_le List.count_le_length
  | step _ _ hnew ih =>
    rw [List.map_append, List.map_append]
    refine count_concat_le_two (fun other => ?_) hnew path
    rw [← List.map_singleton, ← List.map_append]
    exact ih other

theorem subset_paths (h : corpus.Trail root pages page) (hroot : root ∈ corpus) :
    (pages ++ [page]).map Page.path ⊆ corpus.paths := by
  intro path hpath
  obtain ⟨upper, hupper, rfl⟩ := List.mem_map.1 hpath
  rcases List.mem_append.1 hupper with hmem | hmem
  · obtain ⟨above, habove⟩ := h.exists_of_mem hmem
    exact mem_paths_of_mem (habove.mem hroot)
  · obtain rfl := List.mem_singleton.1 hmem
    exact mem_paths_of_mem (h.mem hroot)

end Trail

/-- A list in which nothing comes more than twice is at most twice as long as there are things in it. -/
theorem length_le_of_count_le_two {paths known : List String} (hcount : ∀ path, paths.count path ≤ 2)
    (hsub : paths ⊆ known) : paths.length ≤ 2 * known.dedup.length := by
  have hcard : paths.toFinset.card ≤ known.dedup.length := by
    rw [← List.card_toFinset]
    refine Finset.card_le_card fun path hpath => ?_
    exact List.mem_toFinset.2 (hsub (List.mem_toFinset.1 hpath))
  calc paths.length = ∑ path ∈ paths.toFinset, paths.count path :=
        (List.sum_toFinset_count_eq_length paths).symm
    _ ≤ paths.toFinset.card * 2 := Finset.sum_le_card_nsmul _ _ _ fun path _ => hcount path
    _ ≤ 2 * known.dedup.length := by omega

/-- **A trail is shorter than twice the number of paths.** -/
theorem Trail.length_lt {root page : Page} {pages : List Page} (h : corpus.Trail root pages page)
    (hroot : root ∈ corpus) : pages.length < 2 * corpus.pathCount := by
  have hle := length_le_of_count_le_two h.count_le_two (h.subset_paths hroot)
  rwa [List.length_map, List.length_append, List.length_singleton] at hle

/-! ### The bound is enough -/

/-- At the end of a trail the levels that the trail has left are enough. -/
theorem Trail.expandWithin_eq {root : Page} (hroot : root ∈ corpus) {levels : ℕ} {pages : List Page}
    {page : Page} (h : corpus.Trail root pages page)
    (hlevels : 2 * corpus.pathCount ≤ levels + pages.length) :
    corpus.expandWithin levels (pages.map Page.path) page =
      some (corpus.opened (pages.map Page.path) page).nested := by
  induction levels generalizing pages page with
  | zero =>
    have := h.length_lt hroot
    omega
  | succ levels ih =>
    rw [expandWithin, nested_opened]
    refine mapM_of_forall_eq_some fun target htarget => ?_
    by_cases habove : target.path ∈ pages.map Page.path
    · rw [if_pos habove, child_of_mem corpus habove, cut]
    · have htrail := h.step htarget habove
      have hexpand := ih htrail (by rw [List.length_append, List.length_singleton]; omega)
      rw [List.map_append, List.map_singleton] at hexpand
      rw [if_neg habove, child, if_neg habove, hexpand]
      rfl

theorem treeWithin_eq {page : Page} (hpage : page ∈ corpus) :
    corpus.treeWithin (2 * corpus.pathCount) page = some (corpus.tree page) := by
  have hexpand : corpus.expandWithin (2 * corpus.pathCount) [] page =
      some (corpus.opened [] page).nested :=
    Trail.expandWithin_eq hpage .root (Nat.le_add_right _ _)
  rw [treeWithin, hexpand]
  rfl

/-! ### Depths -/

theorem Trail.depthBounded_opened {root page : Page} {pages : List Page}
    (h : corpus.Trail root pages page) (hroot : root ∈ corpus) :
    corpus.DepthBounded (corpus.ladder pages) (corpus.opened (pages.map Page.path) page) := by
  have hpaths : (corpus.ladder pages ++ [corpus.opened (pages.map Page.path) page]).map
      (·.occurrence.path) = (pages ++ [page]).map Page.path := by
    rw [← ladder_concat, map_path_ladder]
  refine ⟨fun _ path => ?_, fun _ => ?_, fun _ => ?_, fun hcircular => ?_⟩
  · rw [hpaths]
    exact h.count_le_two path
  · rw [hpaths]
    exact h.repeatsAdjacent
  · have hlen : (pages.map Page.path).length < 2 * corpus.pathCount := by
      rw [List.length_map]
      exact h.length_lt hroot
    exact hlen
  · exact absurd hcircular Bool.false_ne_true

theorem Trail.depthBounded_cut {root page : Page} {pages : List Page} (target : Page)
    (h : corpus.Trail root pages page) (hroot : root ∈ corpus) (above : List Tree) :
    corpus.DepthBounded above (cut (pages.map Page.path) page target) := by
  have hlen : (pages.map Page.path).length + 1 ≤ 2 * corpus.pathCount := by
    rw [List.length_map]
    exact h.length_lt hroot
  exact ⟨fun hopen => absurd hopen.symm Bool.false_ne_true,
    fun hopen => absurd hopen.symm Bool.false_ne_true,
    fun hopen => absurd hopen.symm Bool.false_ne_true, fun _ => hlen⟩

/-- **The expansion ends:** twice the number of paths bounds how many expansions are under way at once, for all
trees and for the tree of every path. Down to an opened page a path comes at most twice, and then in two places
next to each other, which bounds the depth of every occurrence. -/
theorem expansion_ends (corpus : Corpus) :
    corpus.mapM (corpus.treeWithin (2 * corpus.pathCount)) = some corpus.trees ∧
      (∀ path, (corpus.lookup path).bind (corpus.treeWithin (2 * corpus.pathCount)) =
        corpus.tree? path) ∧
      ∀ page ∈ corpus, ∀ above sub, (corpus.tree page).Occurs above sub →
        corpus.DepthBounded above sub := by
  refine ⟨mapM_of_forall_eq_some fun page hpage => treeWithin_eq hpage, fun path => ?_, ?_⟩
  · cases hlookup : corpus.lookup path with
    | none => rw [tree?, hlookup, Option.bind_none, Option.map_none]
    | some page =>
      rw [tree?, hlookup, Option.bind_some, Option.map_some]
      exact treeWithin_eq (lookup_eq_some hlookup).1
  · intro root hroot above sub hoccurs
    rcases occurs_tree_iff.1 hoccurs with ⟨pages, page, htrail, rfl, rfl⟩ |
      ⟨pages, page, target, htrail, -, -, rfl, rfl⟩
    · exact htrail.depthBounded_opened hroot
    · exact htrail.depthBounded_cut target hroot _

/-- A single page that includes itself attains the bounds: it is opened at depth one and cut at depth two. -/
theorem expansion_ends_attained :
    (Corpus.tree [pageB] pageB).Occurs (Corpus.ladder [pageB] [pageB, pageB]) (cut ["/b"] pageB pageB) ∧
      (cut ["/b"] pageB pageB).occurrence.depth = 2 * Corpus.pathCount [pageB] ∧
      Corpus.DepthBounded [pageB] (Corpus.ladder [pageB] [pageB, pageB]) (cut ["/b"] pageB pageB) := by
  have hoccurs : (Corpus.tree [pageB] pageB).Occurs (Corpus.ladder [pageB] [pageB, pageB])
      (cut ["/b"] pageB pageB) :=
    occurs_cut (.step .root (by decide) (by decide)) (by decide) (by decide)
  exact ⟨hoccurs, by decide, (expansion_ends [pageB]).2.2 pageB (by decide) _ _ hoccurs⟩

end Corpus

end PageGraph
