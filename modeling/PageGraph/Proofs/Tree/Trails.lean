import PageGraph.Proofs.Page.Inclusion
import PageGraph.Proofs.Tree.Positions
import PageGraph.Tree.Expansion
import Mathlib.Data.List.Basic

/-!
# Trails of an expansion

The expansion of a page opens pages below pages. A *trail* is the way from the root down to an opened page:
it goes on to a target of the page where it stands, unless that target lies strictly above this page.

* `Corpus.Trail root pages page` : the expansion of `root` opens `page` below the pages `pages`;
* `Corpus.opened`, `Corpus.cut` : the trees of an opened page and of a target that ends a cycle;
* `Corpus.ladder` : the opened trees along a trail.

Main statement: `Corpus.occurs_tree_iff`, which says what stands where in the tree of a page. It is an opened
page at the end of a trail, or a target one step further that is cut. All that is proved of the occurrences of
a tree is read off it.
-/

namespace PageGraph

namespace Corpus

variable (corpus : Corpus)

/-! ### The two kinds of places -/

/-- The tree of a page that is opened below pages with the paths `above`. -/
def opened (above : List String) (page : Page) : Tree :=
  .node (occurrence page above.getLast? above.length)
    (corpus.expandFrom above page page.references)

/-- The tree of a target that ends a cycle below `page`, which stands below the paths `above`. -/
def cut (above : List String) (page target : Page) : Tree :=
  .node (circularOccurrence above page target) []

theorem tree_eq_opened (page : Page) : corpus.tree page = corpus.opened [] page := rfl

theorem tree?_of_lookup {path : String} {page : Page} (h : corpus.lookup path = some page) :
    corpus.tree? path = some (corpus.tree page) := by
  rw [tree?, h, Option.map_some]

theorem child_of_mem {above : List String} {page target : Page} (h : target.path ∈ above) :
    corpus.child above page target = cut above page target := by
  rw [child, if_pos h, cut]

theorem child_of_not_mem {above : List String} {page target : Page} (h : target.path ∉ above) :
    corpus.child above page target = corpus.opened (above ++ [page.path]) target := by
  rw [child, if_neg h, opened, List.getLast?_concat, List.length_append, List.length_singleton]

@[simp] theorem nested_cut (above : List String) (page target : Page) :
    (cut above page target).nested = [] := rfl

/-- Below an opened page stand its targets, in order. -/
theorem nested_opened (above : List String) (page : Page) :
    (corpus.opened above page).nested = (corpus.targets page).map (corpus.child above page) := by
  change corpus.expandFrom above page page.references = _
  rw [expandFrom_eq, targets, List.map_filterMap]

theorem mem_nested_opened {above : List String} {page : Page} {tree : Tree} :
    tree ∈ (corpus.opened above page).nested ↔
      ∃ target ∈ corpus.targets page, corpus.child above page target = tree := by
  rw [nested_opened, List.mem_map]

variable {corpus} in
/-- Induction along the expansion: what holds of a page below the given paths, if it holds of all targets that
are opened there, holds of every page below all paths. -/
theorem opened_induct {motive : List String → Page → Prop}
    (step : ∀ above page, (∀ target ∈ corpus.targets page, target.path ∉ above →
      motive (above ++ [page.path]) target) → motive above page)
    (above : List String) (page : Page) : motive above page :=
  step above page fun target _ _ => opened_induct step (above ++ [page.path]) target
termination_by corpus.budget above page
decreasing_by
  next htarget hnew => exact corpus.budget_lt (mem_of_mem_targets htarget) hnew

/-! ### Trails -/

/-- The expansion of `root` opens a page below the given pages, from the root to the includer. -/
inductive Trail (root : Page) : List Page → Page → Prop
  | root : Trail root [] root
  | step {above : List Page} {page target : Page} :
      Trail root above page → target ∈ corpus.targets page → target.path ∉ above.map Page.path →
        Trail root (above ++ [page]) target

/-- The opened trees along a trail. -/
def ladder (pages : List Page) : List Tree :=
  pages.mapIdx fun i page => corpus.opened ((pages.take i).map Page.path) page

variable {corpus}

theorem ladder_concat (pages : List Page) (page : Page) :
    corpus.ladder (pages ++ [page]) =
      corpus.ladder pages ++ [corpus.opened (pages.map Page.path) page] := by
  rw [ladder, List.mapIdx_concat, List.take_left']
  · congr 1
    refine List.mapIdx_eq_mapIdx_iff.2 fun i hi => ?_
    rw [List.take_append_of_le_length (Nat.le_of_lt hi)]
  · rfl

@[simp] theorem ladder_nil : corpus.ladder [] = [] := rfl

@[simp] theorem length_ladder (pages : List Page) : (corpus.ladder pages).length = pages.length :=
  List.length_mapIdx

theorem ladder_eq_nil_iff {pages : List Page} : corpus.ladder pages = [] ↔ pages = [] :=
  List.mapIdx_eq_nil_iff

theorem getElem?_ladder (pages : List Page) (i : ℕ) :
    (corpus.ladder pages)[i]? =
      pages[i]?.map fun page => corpus.opened ((pages.take i).map Page.path) page :=
  List.getElem?_mapIdx

/-- The paths along the opened trees are those of the pages. -/
theorem map_path_ladder (pages : List Page) :
    (corpus.ladder pages).map (·.occurrence.path) = pages.map Page.path := by
  refine List.ext_getElem? fun i => ?_
  rw [List.getElem?_map, getElem?_ladder, List.getElem?_map, Option.map_map]
  rfl

namespace Trail

variable {root page : Page} {pages : List Page}

/-- Every page above the end of a trail is the end of a trail itself. -/
theorem exists_of_mem (h : corpus.Trail root pages page) {upper : Page} (hupper : upper ∈ pages) :
    ∃ above, corpus.Trail root above upper := by
  induction h with
  | root => cases hupper
  | @step above page target htrail _ _ ih =>
    rcases List.mem_append.1 hupper with hmem | hmem
    · exact ih hmem
    · obtain rfl := List.mem_singleton.1 hmem
      exact ⟨above, htrail⟩

theorem mem (h : corpus.Trail root pages page) (hroot : root ∈ corpus) : page ∈ corpus := by
  cases h with
  | root => exact hroot
  | step _ htarget _ => exact mem_of_mem_targets htarget

/-- Below the root every page is the first with its path. -/
theorem lookup_of_ne_nil (h : corpus.Trail root pages page) (hpages : pages ≠ []) :
    corpus.lookup page.path = some page := by
  cases h with
  | root => exact absurd rfl hpages
  | step _ htarget _ => exact lookup_of_mem_targets htarget

theorem lookup (h : corpus.Trail root pages page) (hroot : corpus.lookup root.path = some root) :
    corpus.lookup page.path = some page := by
  cases h with
  | root => exact hroot
  | step _ htarget _ => exact lookup_of_mem_targets htarget

/-- **What keeps the expansion finite:** an opened page does not lie strictly above its includer. -/
theorem path_not_mem_dropLast (h : corpus.Trail root pages page) :
    page.path ∉ pages.dropLast.map Page.path := by
  cases h with
  | root => exact List.not_mem_nil
  | step _ _ hnew => rwa [List.dropLast_concat]

end Trail

/-! ### What stands where -/

theorem occurs_opened {root page : Page} {pages : List Page} (h : corpus.Trail root pages page) :
    (corpus.tree root).Occurs (corpus.ladder pages) (corpus.opened (pages.map Page.path) page) := by
  induction h with
  | root => exact .root
  | @step above page target _ htarget hnew ih =>
    rw [ladder_concat, List.map_append]
    refine .child ih ((mem_nested_opened corpus).2 ⟨target, htarget, ?_⟩)
    exact child_of_not_mem corpus hnew

theorem occurs_cut {root page target : Page} {pages : List Page} (h : corpus.Trail root pages page)
    (htarget : target ∈ corpus.targets page) (habove : target.path ∈ pages.map Page.path) :
    (corpus.tree root).Occurs (corpus.ladder (pages ++ [page]))
      (cut (pages.map Page.path) page target) := by
  rw [ladder_concat]
  refine .child (occurs_opened h) ((mem_nested_opened corpus).2 ⟨target, htarget, ?_⟩)
  exact child_of_mem corpus habove

/-- **The places of a tree:** the ends of the trails, and the targets that are cut below them. -/
theorem occurs_tree_iff {root : Page} {above : List Tree} {sub : Tree} :
    (corpus.tree root).Occurs above sub ↔
      (∃ pages page, corpus.Trail root pages page ∧ above = corpus.ladder pages ∧
        sub = corpus.opened (pages.map Page.path) page) ∨
      ∃ pages page target, corpus.Trail root pages page ∧ target ∈ corpus.targets page ∧
        target.path ∈ pages.map Page.path ∧ above = corpus.ladder (pages ++ [page]) ∧
        sub = cut (pages.map Page.path) page target := by
  constructor
  · intro h
    induction h with
    | root => exact Or.inl ⟨[], root, .root, rfl, rfl⟩
    | @child above upper lower _ hlower ih =>
      rcases ih with ⟨pages, page, htrail, rfl, rfl⟩ | ⟨pages, page, target, _, _, _, rfl, rfl⟩
      · obtain ⟨target, htarget, rfl⟩ := (mem_nested_opened corpus).1 hlower
        rw [← ladder_concat]
        by_cases hmem : target.path ∈ pages.map Page.path
        · rw [child_of_mem corpus hmem]
          exact Or.inr ⟨pages, page, target, htrail, htarget, hmem, rfl, rfl⟩
        · rw [child_of_not_mem corpus hmem]
          refine Or.inl ⟨pages ++ [page], target, htrail.step htarget hmem, rfl, ?_⟩
          rw [List.map_append]
          rfl
      · -- nothing stands below a target that is cut
        rw [nested_cut] at hlower
        cases hlower
  · rintro (⟨pages, page, htrail, rfl, rfl⟩ | ⟨pages, page, target, htrail, htarget, hmem, rfl, rfl⟩)
    · exact occurs_opened htrail
    · exact occurs_cut htrail htarget hmem

/-- All that occurs in the tree of a page of the corpus has a path of the corpus. -/
theorem path_mem_paths_of_mem_flatten {root : Page} (hroot : root ∈ corpus) {occurrence : Occurrence}
    (h : occurrence ∈ (corpus.tree root).flatten) : occurrence.path ∈ corpus.paths := by
  obtain ⟨above, sub, hoccurs, rfl⟩ := Tree.mem_flatten_iff.1 h
  rcases occurs_tree_iff.1 hoccurs with ⟨pages, page, htrail, -, rfl⟩ | ⟨pages, page, target, -, htarget, -, -, rfl⟩
  · exact mem_paths_of_mem (htrail.mem hroot)
  · exact mem_paths_of_mem (mem_of_mem_targets htarget)

end Corpus

end PageGraph
