import PageGraph.Proofs.Tree.Trails
import Mathlib.Data.List.Basic
import Mathlib.Data.List.Forall2

/-!
# The tree of a page as a set of walks

A walk through a corpus takes one inclusion at each step, and the list of their numbers spells it
(`Corpus.walk?`). The expansion of a page does not go on from a path that lies further up than its includer, so
a walk is kept as long as no path in it but the last is one of those before its predecessor
(`Corpus.Uncut`).

Main statement: `Corpus.listsWalks_of_mem_paths` : the tree of a page lists the walks that are kept, each once
and in lexicographic order, by what they lead to.
-/

namespace PageGraph

namespace Corpus

variable (corpus : Corpus)

/-- The walk from a path that takes the inclusions with the given numbers, if there are so many. -/
def walk? (path : String) : List ℕ → Option (List String)
  | [] => some [path]
  | i :: way => (corpus.inclusions path)[i]?.bind fun next => (walk? next way).map (path :: ·)

/-- From position `n` on, no path but the last is one of those before its predecessor. -/
def UncutFrom (n : ℕ) (walk : List String) : Prop :=
  ∀ (j : ℕ) (h : j + 1 < walk.length), n ≤ j → walk[j] ∉ walk.take (j - 1)

/-- No path of a walk but the last is one of those before its predecessor. -/
def Uncut (walk : List String) : Prop := UncutFrom 1 walk

/-- An occurrence shows the end of a walk, how long it is, and the path before its end. -/
structure Shows (walk : List String) (occurrence : Occurrence) : Prop where
  path : walk.getLast? = some occurrence.path
  depth : walk.length = occurrence.depth + 1
  parent : walk.dropLast.getLast? = occurrence.parent

/-- The occurrences of a tree show the walks from a path that are not cut, each once, in lexicographic order:
a walk comes before those that go on from it. -/
def ListsWalks (path : String) (tree : Tree) : Prop :=
  ∃ ways : List (List ℕ), ways.Pairwise (· < ·) ∧
    (∀ way, way ∈ ways ↔ ∃ walk, corpus.walk? path way = some walk ∧ Uncut walk) ∧
    List.Forall₂
      (fun way occurrence => ∃ walk, corpus.walk? path way = some walk ∧
        Shows walk occurrence ∧ occurrence.depth = way.length)
      ways tree.flatten

variable {corpus}

/-! ### Walks -/

theorem walk?_cons_eq_some {path : String} {i : ℕ} {way : List ℕ} {walk : List String} :
    corpus.walk? path (i :: way) = some walk ↔
      ∃ next rest, (corpus.inclusions path)[i]? = some next ∧
        corpus.walk? next way = some rest ∧ path :: rest = walk := by
  rw [walk?, Option.bind_eq_some_iff]
  simp only [Option.map_eq_some_iff]
  constructor
  · rintro ⟨next, hnext, rest, hrest, heq⟩
    exact ⟨next, rest, hnext, hrest, heq⟩
  · rintro ⟨next, rest, hnext, hrest, heq⟩
    exact ⟨next, hnext, rest, hrest, heq⟩

theorem length_walk? {path : String} {way : List ℕ} {walk : List String}
    (h : corpus.walk? path way = some walk) : walk.length = way.length + 1 := by
  induction way generalizing path walk with
  | nil =>
    obtain rfl := Option.some.inj h
    rfl
  | cons i way ih =>
    obtain ⟨next, rest, -, hrest, rfl⟩ := walk?_cons_eq_some.1 h
    rw [List.length_cons, ih hrest, List.length_cons]

/-- A walk starts where it is said to start. -/
theorem exists_cons_of_walk? {path : String} {way : List ℕ} {walk : List String}
    (h : corpus.walk? path way = some walk) : ∃ rest, walk = path :: rest := by
  cases way with
  | nil => exact ⟨[], (Option.some.inj h).symm⟩
  | cons i way =>
    obtain ⟨next, rest, -, -, rfl⟩ := walk?_cons_eq_some.1 h
    exact ⟨rest, rfl⟩

/-- From an opened page the walks go to its targets. -/
theorem walk?_cons_of_lookup {page : Page} (hpage : corpus.lookup page.path = some page) {i : ℕ}
    {way : List ℕ} {walk : List String} :
    corpus.walk? page.path (i :: way) = some walk ↔
      ∃ target rest, (corpus.targets page)[i]? = some target ∧
        corpus.walk? target.path way = some rest ∧ page.path :: rest = walk := by
  rw [walk?_cons_eq_some, inclusions_eq hpage]
  simp only [List.getElem?_map, Option.map_eq_some_iff]
  constructor
  · rintro ⟨_, rest, ⟨target, htarget, rfl⟩, hrest, heq⟩
    exact ⟨target, rest, htarget, hrest, heq⟩
  · rintro ⟨target, rest, htarget, hrest, heq⟩
    exact ⟨target.path, rest, ⟨target, htarget, rfl⟩, hrest, heq⟩

/-! ### Where walks are cut -/

/-- A walk that has at most one step after the paths above is not cut. -/
theorem uncutFrom_of_length_le {n : ℕ} {walk : List String} (h : walk.length ≤ n + 1) :
    UncutFrom n walk := by
  intro j hj hn
  omega

/-- One step further a walk is cut only at the path that was reached, and only if it goes on there. -/
theorem uncutFrom_step {above rest : List String} {path next : String} :
    UncutFrom (above.length + 1) (above ++ path :: next :: rest) ↔
      (rest ≠ [] → next ∉ above) ∧
        UncutFrom (above.length + 2) (above ++ path :: next :: rest) := by
  have hget : ∀ h : above.length + 1 < (above ++ path :: next :: rest).length,
      (above ++ path :: next :: rest)[above.length + 1] = next := by
    intro h
    rw [List.getElem_append_right (by omega)]
    simp
  have htake : (above ++ path :: next :: rest).take above.length = above := List.take_left' rfl
  constructor
  · intro h
    refine ⟨fun hrest => ?_, fun j hj hn => h j hj (by omega)⟩
    have hlen : 0 < rest.length := List.length_pos_iff.2 hrest
    have hnot := h (above.length + 1) (by simp; omega) (Nat.le_refl _)
    rwa [hget, Nat.add_sub_cancel, htake] at hnot
  · rintro ⟨hnext, h⟩ j hj hn
    rcases Nat.eq_or_lt_of_le hn with rfl | hlt
    · rw [hget, Nat.add_sub_cancel, htake]
      apply hnext
      rintro rfl
      simp at hj
    · exact h j hj hlt

/-! ### Walks and places -/

theorem shows_opened (above : List String) (page : Page) :
    Shows (above ++ [page.path]) (corpus.opened above page).occurrence where
  path := List.getLast?_concat
  depth := List.length_append
  parent := by
    rw [List.dropLast_concat]
    rfl

theorem shows_cut (above : List String) (page target : Page) :
    Shows (above ++ [page.path, target.path]) (cut above page target).occurrence where
  path := by
    rw [List.append_cons, List.getLast?_concat]
    rfl
  depth := List.length_append
  parent := by
    rw [List.append_cons, List.dropLast_concat, List.getLast?_concat]
    rfl

/-- Below an opened page a way goes through one of its targets. -/
theorem at?_opened_cons {above : List String} {page : Page} {i : ℕ} {way : List ℕ} {sub : Tree} :
    (corpus.opened above page).at? (i :: way) = some sub ↔
      ∃ target, (corpus.targets page)[i]? = some target ∧
        (corpus.child above page target).at? way = some sub := by
  rw [Tree.at?, nested_opened, List.getElem?_map, Option.bind_eq_some_iff]
  simp only [Option.map_eq_some_iff]
  constructor
  · rintro ⟨_, ⟨target, htarget, rfl⟩, hat⟩
    exact ⟨target, htarget, hat⟩
  · rintro ⟨target, htarget, hat⟩
    exact ⟨_, ⟨target, htarget, rfl⟩, hat⟩

theorem at?_cut {above : List String} {page target : Page} {way : List ℕ} {sub : Tree} :
    (cut above page target).at? way = some sub ↔ way = [] ∧ sub = cut above page target := by
  cases way with
  | nil => simp [Tree.at?, eq_comm]
  | cons i way => simp [Tree.at?]

/-- What stands below an opened page is shown by a walk that is not cut. -/
theorem exists_walk_of_at? {above : List String} {page : Page} {way : List ℕ} {sub : Tree}
    (hpage : corpus.lookup page.path = some page)
    (h : (corpus.opened above page).at? way = some sub) :
    ∃ walk, corpus.walk? page.path way = some walk ∧
      UncutFrom (above.length + 1) (above ++ walk) ∧ Shows (above ++ walk) sub.occurrence := by
  induction way generalizing above page with
  | nil =>
    obtain rfl := Option.some.inj h
    exact ⟨[page.path], rfl, uncutFrom_of_length_le (by simp), shows_opened above page⟩
  | cons i way ih =>
    obtain ⟨target, htarget, hat⟩ := at?_opened_cons.1 h
    by_cases habove : target.path ∈ above
    · rw [child_of_mem corpus habove, at?_cut] at hat
      obtain ⟨rfl, rfl⟩ := hat
      refine ⟨[page.path, target.path], ?_, uncutFrom_of_length_le (by simp),
        shows_cut above page target⟩
      exact (walk?_cons_of_lookup hpage).2 ⟨target, _, htarget, rfl, rfl⟩
    · rw [child_of_not_mem corpus habove] at hat
      have hlookup := lookup_of_mem_targets (List.mem_of_getElem? htarget)
      obtain ⟨walk, hwalk, huncut, hshows⟩ := ih hlookup hat
      rw [← List.append_cons] at huncut hshows
      obtain ⟨rest, rfl⟩ := exists_cons_of_walk? hwalk
      refine ⟨page.path :: target.path :: rest, ?_, ?_, hshows⟩
      · exact (walk?_cons_of_lookup hpage).2 ⟨target, _, htarget, hwalk, rfl⟩
      · rw [List.length_append] at huncut
        exact uncutFrom_step.2 ⟨fun _ => habove, huncut⟩

/-- A walk that is not cut leads to something below an opened page. -/
theorem exists_at?_of_walk {above : List String} {page : Page} {way : List ℕ} {walk : List String}
    (hpage : corpus.lookup page.path = some page) (hwalk : corpus.walk? page.path way = some walk)
    (huncut : UncutFrom (above.length + 1) (above ++ walk)) :
    ∃ sub, (corpus.opened above page).at? way = some sub := by
  induction way generalizing above page walk with
  | nil => exact ⟨_, rfl⟩
  | cons i way ih =>
    obtain ⟨target, walk', htarget, hwalk', rfl⟩ := (walk?_cons_of_lookup hpage).1 hwalk
    obtain ⟨rest, rfl⟩ := exists_cons_of_walk? hwalk'
    obtain ⟨hnext, hrest⟩ := uncutFrom_step.1 huncut
    by_cases habove : target.path ∈ above
    · -- the walk cannot go on from here, so the way ends at the target that is cut
      have hnil : rest = [] := by
        by_contra hne
        exact hnext hne habove
      have hlen := length_walk? hwalk'
      rw [hnil, List.length_singleton] at hlen
      obtain rfl := List.length_eq_zero_iff.1 (Nat.succ.inj hlen.symm)
      exact ⟨_, at?_opened_cons.2 ⟨target, htarget, rfl⟩⟩
    · have hlookup := lookup_of_mem_targets (List.mem_of_getElem? htarget)
      have huncut' : UncutFrom ((above ++ [page.path]).length + 1)
          ((above ++ [page.path]) ++ target.path :: rest) := by
        rwa [← List.append_cons, List.length_append]
      obtain ⟨sub, hsub⟩ := ih hlookup hwalk' huncut'
      refine ⟨sub, at?_opened_cons.2 ⟨target, htarget, ?_⟩⟩
      rwa [child_of_not_mem corpus habove]

theorem shows_of_at?_tree {page : Page} {way : List ℕ} {sub : Tree}
    (hpage : corpus.lookup page.path = some page) (h : (corpus.tree page).at? way = some sub) :
    ∃ walk, corpus.walk? page.path way = some walk ∧ Uncut walk ∧ Shows walk sub.occurrence := by
  rw [tree_eq_opened] at h
  exact exists_walk_of_at? hpage h

/-- The ways into the tree of a page spell the walks that are not cut. -/
theorem exists_at?_tree_iff {page : Page} {way : List ℕ}
    (hpage : corpus.lookup page.path = some page) :
    (∃ sub, (corpus.tree page).at? way = some sub) ↔
      ∃ walk, corpus.walk? page.path way = some walk ∧ Uncut walk := by
  constructor
  · rintro ⟨sub, hsub⟩
    obtain ⟨walk, hwalk, huncut, -⟩ := shows_of_at?_tree hpage hsub
    exact ⟨walk, hwalk, huncut⟩
  · rintro ⟨walk, hwalk, huncut⟩
    rw [tree_eq_opened]
    exact exists_at?_of_walk hpage hwalk huncut

theorem listsWalks_tree {page : Page} (hpage : corpus.lookup page.path = some page) :
    corpus.ListsWalks page.path (corpus.tree page) := by
  refine ⟨(corpus.tree page).located.map Prod.fst, Tree.located_sorted _, fun way => ?_, ?_⟩
  · rw [← exists_at?_tree_iff hpage, List.mem_map]
    constructor
    · rintro ⟨⟨_, sub⟩, hplace, rfl⟩
      exact ⟨sub, Tree.mem_located.1 hplace⟩
    · rintro ⟨sub, hsub⟩
      exact ⟨(way, sub), Tree.mem_located.2 hsub, rfl⟩
  · rw [← Tree.map_located, List.forall₂_map_left_iff, List.forall₂_map_right_iff, List.forall₂_same]
    rintro ⟨way, sub⟩ hplace
    obtain ⟨walk, hwalk, -, hshows⟩ := shows_of_at?_tree hpage (Tree.mem_located.1 hplace)
    refine ⟨walk, hwalk, hshows, ?_⟩
    have hdepth := hshows.depth
    rw [length_walk? hwalk] at hdepth
    exact (Nat.succ.inj hdepth).symm

/-- **Every path of a corpus has a tree, and it lists the walks from the path** that are not cut. -/
theorem listsWalks_of_mem_paths {path : String} (hpath : path ∈ corpus.paths) :
    ∃ tree, corpus.tree? path = some tree ∧ corpus.ListsWalks path tree := by
  obtain ⟨page, hlookup⟩ := mem_paths_iff_exists_lookup.1 hpath
  obtain rfl := (lookup_eq_some hlookup).2
  exact ⟨corpus.tree page, congrArg (Option.map corpus.tree) hlookup, listsWalks_tree hlookup⟩

theorem listsWalks_tangled :
    "/a" ∈ tangled.paths ∧ ∃ tree, tangled.tree? "/a" = some tree ∧ tangled.ListsWalks "/a" tree :=
  ⟨by decide, listsWalks_of_mem_paths (by decide)⟩

/-- Below `/a` the page `/b` comes twice before it is cut, and `/a` is cut below both. -/
example : (tangled.tree pageA).located.map Prod.fst = [[], [0], [0, 0], [0, 0, 0], [0, 0, 1], [0, 1]] := by
  cbv

end Corpus

end PageGraph
