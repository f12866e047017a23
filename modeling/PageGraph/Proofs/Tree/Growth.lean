import PageGraph.Proofs.Tree.Trails
import PageGraph.Tree.Summary
import Mathlib.Data.List.Basic

/-!
# What more pages do to a tree

Pages that are added behind a corpus give a page to references that named none, and with them occurrences and
cycles. They take nothing away: a path that named a page names the same one, and whether a target is cut is
decided by the paths above it, which are the same for the occurrences that were there before.

* `Corpus.Extends` : every path that names a page names it in the larger corpus too;
* `Corpus.flatten_opened_sublist` : below all paths an opened page keeps its occurrences, in order.

Main statement: `Corpus.trees_grow`.
-/

namespace PageGraph

namespace Corpus

/-- Each path that names a page of the corpus names the same page of the other one. -/
def Extends (corpus other : Corpus) : Prop :=
  ∀ path page, corpus.lookup path = some page → other.lookup path = some page

variable {corpus other : Corpus}

theorem extends_append (corpus extra : Corpus) : corpus.Extends (corpus ++ extra) := by
  intro path page h
  rw [lookup] at h ⊢
  rw [List.find?_append, h, Option.some_or]

/-! ### Expansions -/

/-- The trees of two lists of references, of which the first ones are found among the second ones as well. -/
theorem flatMap_filterMap_sublist {references : List String} {find find' : String → Option Page}
    {list list' : Page → List Occurrence}
    (h : ∀ reference ∈ references, ∀ target, find reference = some target →
      find' reference = some target ∧ (list target).Sublist (list' target)) :
    ((references.filterMap find).flatMap list).Sublist ((references.filterMap find').flatMap list') := by
  induction references with
  | nil => exact List.Sublist.refl _
  | cons reference rest ih =>
    have hrest := ih fun r hr => h r (List.mem_cons_of_mem _ hr)
    cases hfind : find reference with
    | none =>
      rw [List.filterMap_cons_none hfind]
      cases hfind' : find' reference with
      | none => rwa [List.filterMap_cons_none hfind']
      | some added =>
        rw [List.filterMap_cons_some hfind', List.flatMap_cons]
        exact hrest.trans (List.sublist_append_right _ _)
    | some target =>
      obtain ⟨hfind', htarget⟩ := h reference List.mem_cons_self target hfind
      rw [List.filterMap_cons_some hfind, List.filterMap_cons_some hfind', List.flatMap_cons,
        List.flatMap_cons]
      exact htarget.append hrest

/-- Below the same paths a page keeps its occurrences, and more may come between them. -/
theorem flatten_opened_sublist (h : corpus.Extends other) (above : List String) (page : Page) :
    (corpus.opened above page).flatten.Sublist (other.opened above page).flatten := by
  induction above, page using @opened_induct corpus with
  | step above page ih =>
    rw [Tree.flatten_eq_cons, Tree.flatten_eq_cons, nested_opened, nested_opened, List.flatMap_map,
      List.flatMap_map]
    -- the occurrence at the root says nothing of the corpus
    refine List.Sublist.cons_cons _ (flatMap_filterMap_sublist fun reference hreference target htarget => ?_)
    refine ⟨h reference target htarget, ?_⟩
    by_cases habove : target.path ∈ above
    · rw [child_of_mem corpus habove, child_of_mem other habove]
    · rw [child_of_not_mem corpus habove, child_of_not_mem other habove]
      exact ih target (List.mem_filterMap.2 ⟨reference, hreference, htarget⟩) habove

theorem flatten_tree_sublist (h : corpus.Extends other) (page : Page) :
    (corpus.tree page).flatten.Sublist (other.tree page).flatten := by
  rw [tree_eq_opened, tree_eq_opened]
  exact flatten_opened_sublist h [] page

/-! ### All trees -/

/-- The occurrences below the roots are found again, tree after tree. -/
theorem flatMap_below_roots_sublist (h : corpus.Extends other) (pages : List Page) :
    ((pages.map corpus.tree).flatMap fun tree => tree.flatten.drop 1).Sublist
      ((pages.map other.tree).flatMap fun tree => tree.flatten.drop 1) := by
  induction pages with
  | nil => exact List.Sublist.refl _
  | cons page pages ih =>
    rw [List.map_cons, List.map_cons, List.flatMap_cons, List.flatMap_cons]
    exact ((flatten_tree_sublist h page).drop 1).append ih

/-- **More pages take nothing away.** When pages are added behind a corpus each of its pages keeps its place, and
the occurrences of its tree are found again in the new tree with all that they say of themselves, in the same
order. So a page is included from wherever it was included from before. -/
theorem trees_grow (corpus extra : Corpus) :
    (∀ (i : ℕ) (tree : Tree), corpus.trees[i]? = some tree → ∃ grown,
      (trees (corpus ++ extra))[i]? = some grown ∧ tree.flatten.Sublist grown.flatten) ∧
    ∀ path, (includedFrom corpus.trees path).Sublist (includedFrom (trees (corpus ++ extra)) path) := by
  have hextends := extends_append corpus extra
  constructor
  · intro i tree htree
    rw [trees, List.getElem?_map, Option.map_eq_some_iff] at htree
    obtain ⟨page, hpage, rfl⟩ := htree
    have hkept : (corpus ++ extra)[i]? = some page := by
      obtain ⟨hi, -⟩ := List.getElem?_eq_some_iff.1 hpage
      rw [List.getElem?_append_left hi, hpage]
    refine ⟨tree (corpus ++ extra) page, ?_, flatten_tree_sublist hextends page⟩
    rw [trees, List.getElem?_map, hkept, Option.map_some]
  · intro path
    refine List.Sublist.filter _ ((flatMap_below_roots_sublist hextends corpus).trans ?_)
    rw [trees, List.map_append, List.flatMap_append]
    exact List.sublist_append_left _ _

/-- A page that mentions `/a`, which is not there, beside two others. -/
def sparse : Corpus := [pageD, pageB, pageC]

/-- With `/a` added, the page `/d` leads to the cycle of `/a` and `/b`, and keeps what it had. -/
theorem trees_grow_sparse :
    sparse.trees[0]? = some (sparse.tree pageD) ∧
    (∃ grown, (trees (sparse ++ [pageA, otherPageA]))[0]? = some grown ∧
      (sparse.tree pageD).flatten.Sublist grown.flatten) ∧
    (includedFrom sparse.trees "/c").Sublist (includedFrom (trees (sparse ++ [pageA, otherPageA])) "/c") := by
  have hroot : sparse.trees[0]? = some (sparse.tree pageD) := rfl
  exact ⟨hroot, (trees_grow _ _).1 0 _ hroot, (trees_grow _ _).2 "/c"⟩

end Corpus

end PageGraph
