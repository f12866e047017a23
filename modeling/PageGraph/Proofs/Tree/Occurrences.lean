import PageGraph.Proofs.Tree.Trails
import Mathlib.Data.List.Basic

/-!
# What an occurrence says of its place

An occurrence carries its depth, the path of its includer and, where it ends a cycle, what came first and what
brought it in again. `Corpus.WellPlaced above sub` says that all of this is right for a tree `sub` below the
trees `above`, and `Corpus.wellPlaced_of_occurs` that it is so at every place of every tree of a corpus.
-/

namespace PageGraph

namespace Corpus

variable (corpus : Corpus)

/-- What a circular occurrence says of the cycle that it ends. -/
structure EndsCycle (above : List Tree) (sub : Tree) : Prop where
  /-- Nothing is expanded below it. -/
  nested : sub.nested = []
  /-- It keeps all references of the page, those that name no page too. -/
  rawNested : ∃ page, corpus.lookup sub.occurrence.path = some page ∧
    sub.occurrence.rawNested = some page.references
  /-- Its mark names the first tree above with its path, which is opened, and its includer. -/
  mark : ∃ first upper before includer,
    sub.occurrence.circular = some ⟨first, ⟨includer.occurrence.path, before.length⟩⟩ ∧
    above = before ++ [includer] ∧
    above[first]? = some upper ∧ upper.occurrence.path = sub.occurrence.path ∧
    upper.occurrence.depth = first ∧ upper.occurrence.isCircular = false ∧
    ∀ (i : ℕ) (other : Tree), above[i]? = some other →
      other.occurrence.path = sub.occurrence.path → first ≤ i

/-- What the occurrence of a tree says of its place below the trees `above`. -/
structure WellPlaced (above : List Tree) (sub : Tree) : Prop where
  depth : sub.occurrence.depth = above.length
  parent : sub.occurrence.parent = above.getLast?.map (·.occurrence.path)
  /-- Below the root it has the name of the first page with its path. -/
  name : above ≠ [] →
    (corpus.lookup sub.occurrence.path).map Page.name = some sub.occurrence.name
  /-- It ends a cycle iff its path lies strictly above its includer. -/
  isCircular_iff : sub.occurrence.isCircular = true ↔
    sub.occurrence.path ∈ above.dropLast.map (·.occurrence.path)
  endsCycle : sub.occurrence.isCircular = true → corpus.EndsCycle above sub
  rawNested : sub.occurrence.isCircular = false → sub.occurrence.rawNested = none

variable {corpus}

theorem idxOf_le_of_getElem? {paths : List String} {path : String} {i : ℕ}
    (h : paths[i]? = some path) : paths.idxOf path ≤ i := by
  have htake : (paths.take (i + 1))[i]? = some path := by
    rw [List.getElem?_take_of_lt (Nat.lt_succ_self i), h]
  have hlt := (List.mem_take_iff_idxOf_lt (List.mem_of_getElem? h)).1 (List.mem_of_getElem? htake)
  exact Nat.lt_succ_iff.1 hlt

theorem map_getLast?_ladder (pages : List Page) :
    (corpus.ladder pages).getLast?.map (·.occurrence.path) = (pages.map Page.path).getLast? := by
  rw [← List.getLast?_map, map_path_ladder]

theorem map_dropLast_ladder (pages : List Page) :
    (corpus.ladder pages).dropLast.map (·.occurrence.path) = pages.dropLast.map Page.path := by
  rw [List.map_dropLast, map_path_ladder, List.map_dropLast]

/-- The opened pages of a tree are well placed. -/
theorem Trail.wellPlaced_opened {root page : Page} {pages : List Page}
    (h : corpus.Trail root pages page) :
    corpus.WellPlaced (corpus.ladder pages) (corpus.opened (pages.map Page.path) page) where
  depth := by
    rw [length_ladder]
    exact List.length_map _
  parent := by
    rw [map_getLast?_ladder]
    rfl
  name := by
    intro hne
    have hlookup := h.lookup_of_ne_nil fun hnil => hne (ladder_eq_nil_iff.2 hnil)
    exact congrArg (Option.map Page.name) hlookup
  isCircular_iff := by
    rw [map_dropLast_ladder]
    exact iff_of_false Bool.false_ne_true h.path_not_mem_dropLast
  endsCycle := fun hcircular => absurd hcircular Bool.false_ne_true
  rawNested := fun _ => rfl

/-- A target that is cut says what cycle it ends. -/
theorem endsCycle_cut {pages : List Page} {page target : Page}
    (htarget : target ∈ corpus.targets page) (habove : target.path ∈ pages.map Page.path) :
    corpus.EndsCycle (corpus.ladder (pages ++ [page])) (cut (pages.map Page.path) page target) where
  nested := rfl
  rawNested := ⟨target, lookup_of_mem_targets htarget, rfl⟩
  mark := by
    have hpaths : ∀ i : ℕ, ((corpus.ladder (pages ++ [page]))[i]?).map (·.occurrence.path) =
        (pages.map Page.path ++ [page.path])[i]? := by
      intro i
      rw [← List.getElem?_map, map_path_ladder, List.map_append]
      rfl
    -- the page whose path the mark counts to, and what stands there
    set first := (pages.map Page.path).idxOf target.path with hfirst
    have hlt : first < pages.length := by
      simpa [hfirst] using List.idxOf_lt_length_of_mem habove
    have hpath : pages[first].path = target.path := by
      have := List.getElem_idxOf (List.idxOf_lt_length_of_mem habove)
      rwa [List.getElem_map] at this
    refine ⟨first, corpus.opened ((pages.take first).map Page.path) pages[first], corpus.ladder pages,
      corpus.opened (pages.map Page.path) page, ?_, ladder_concat pages page, ?_, hpath, ?_, rfl, ?_⟩
    · rw [length_ladder, ← List.length_map Page.path]
      rfl
    · rw [ladder_concat, List.getElem?_append_left (by rwa [length_ladder]), getElem?_ladder,
        List.getElem?_eq_getElem hlt]
      rfl
    · change ((pages.take first).map Page.path).length = first
      rw [List.length_map, List.length_take_of_le (Nat.le_of_lt hlt)]
    · intro i other hother hsame
      have hi : (pages.map Page.path ++ [page.path])[i]? = some target.path := by
        rw [← hpaths, hother]
        exact congrArg some hsame
      have hle := idxOf_le_of_getElem? hi
      rwa [List.idxOf_append_of_mem habove] at hle

/-- The targets that are cut are well placed. -/
theorem wellPlaced_cut {pages : List Page} {page target : Page}
    (htarget : target ∈ corpus.targets page) (habove : target.path ∈ pages.map Page.path) :
    corpus.WellPlaced (corpus.ladder (pages ++ [page])) (cut (pages.map Page.path) page target) where
  depth := by
    rw [length_ladder, List.length_append, ← List.length_map Page.path]
    rfl
  parent := by
    rw [map_getLast?_ladder, List.map_append, List.map_singleton, List.getLast?_concat]
    rfl
  name := fun _ => congrArg (Option.map Page.name) (lookup_of_mem_targets htarget)
  isCircular_iff := by
    rw [map_dropLast_ladder, List.dropLast_concat]
    exact iff_of_true rfl habove
  endsCycle := fun _ => endsCycle_cut htarget habove
  rawNested := fun hopen => absurd hopen.symm Bool.false_ne_true

/-- **Every occurrence says what is true of its place:** its depth and includer, whether it ends a cycle, and
if so which. -/
theorem wellPlaced_of_occurs {tree : Tree} (htree : tree ∈ corpus.trees) {above : List Tree} {sub : Tree}
    (h : tree.Occurs above sub) : corpus.WellPlaced above sub := by
  obtain ⟨root, -, rfl⟩ := List.mem_map.1 htree
  rcases occurs_tree_iff.1 h with ⟨pages, page, htrail, rfl, rfl⟩ |
    ⟨pages, page, target, -, htarget, habove, rfl, rfl⟩
  · exact htrail.wellPlaced_opened
  · exact wellPlaced_cut htarget habove

/-- In the tree of the second page with a path, the first page with it ends a cycle at depth two. -/
theorem wellPlaced_of_occurs_tangled :
    (tangled.tree otherPageA ∈ tangled.trees ∧
      (tangled.tree otherPageA).Occurs (tangled.ladder [otherPageA, pageB]) (cut ["/a"] pageB pageA)) ∧
    tangled.WellPlaced (tangled.ladder [otherPageA, pageB]) (cut ["/a"] pageB pageA) := by
  have htree : tangled.tree otherPageA ∈ tangled.trees := List.mem_map_of_mem (by decide)
  have hoccurs : (tangled.tree otherPageA).Occurs (tangled.ladder [otherPageA, pageB])
      (cut ["/a"] pageB pageA) :=
    occurs_cut (.step .root (by decide) (by decide)) (by decide) (by decide)
  exact ⟨⟨htree, hoccurs⟩, wellPlaced_of_occurs htree hoccurs⟩

end Corpus

end PageGraph
