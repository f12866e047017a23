import PageGraph.Tree.Basic
import Mathlib.Data.List.Basic
import Mathlib.Data.Nat.Notation

/-!
# Places in a tree

A place in an inclusion tree can be told in two ways:

* `Tree.at?` follows a *way*, which names the child to take at each level, from the root downwards;
  `Tree.located` lists all places with their ways, in the order in which the tree is read;
* `Tree.Occurs tree above sub` says that `sub` stands in `tree` below the trees `above`, the root
  first and the including tree last.

Main statements:

* `Tree.map_located` : reading the listed places gives `Tree.flatten`;
* `Tree.mem_located` : every way that stays inside the tree is listed, with what stands there;
* `Tree.located_sorted` : the ways are listed in lexicographic order, a way before those that go on
  from it, so that no place is listed twice;
* `Tree.mem_flatten_iff`, `Tree.mem_flatten_drop_one_iff` : the occurrences of a tree are those at its places,
  and those below the root have something above;
* `Tree.hasCircular_iff_exists_occurs` : the search for a circular occurrence looks at all places.
-/

namespace PageGraph

namespace Tree

/-! ### Ways -/

/-- The tree that a way leads to, if it stays inside. -/
def at? (tree : Tree) : List ℕ → Option Tree
  | [] => some tree
  | i :: way => tree.nested[i]?.bind fun child => child.at? way

theorem at?_node_cons (root : Occurrence) (nested : List Tree) (i : ℕ) (way : List ℕ) :
    (node root nested).at? (i :: way) = nested[i]?.bind fun child => child.at? way := rfl

mutual

/-- The places of a tree with the ways to them, in the order in which the tree is read. -/
def located : Tree → List (List ℕ × Tree)
  | .node occurrence nested => ([], .node occurrence nested) :: locatedAll 0 nested

/-- The places of several trees, of which the first is child `i`. -/
def locatedAll (i : ℕ) : List Tree → List (List ℕ × Tree)
  | [] => []
  | tree :: trees =>
    tree.located.map (fun place => (i :: place.1, place.2)) ++ locatedAll (i + 1) trees

end

theorem map_locatedAll {trees : List Tree}
    (h : ∀ tree ∈ trees, tree.located.map (fun place => place.2.occurrence) = tree.flatten) (i : ℕ) :
    (locatedAll i trees).map (fun place => place.2.occurrence) = flattenAll trees := by
  induction trees generalizing i with
  | nil => rfl
  | cons tree trees ih =>
    rw [locatedAll, flattenAll, List.map_append, List.map_map,
      ih (fun t ht => h t (List.mem_cons_of_mem _ ht)) (i + 1), ← h tree List.mem_cons_self]
    rfl

/-- The occurrences at the listed places are those of the tree, in the same order. -/
theorem map_located (tree : Tree) :
    tree.located.map (fun place => place.2.occurrence) = tree.flatten := by
  induction tree using Tree.induct with
  | node occurrence nested ih =>
    rw [located, flatten, List.map_cons, map_locatedAll ih]
    rfl

theorem mem_locatedAll {i : ℕ} {trees : List Tree} {way : List ℕ} {sub : Tree} :
    (way, sub) ∈ locatedAll i trees ↔
      ∃ k rest tree, way = (i + k) :: rest ∧ trees[k]? = some tree ∧ (rest, sub) ∈ tree.located := by
  induction trees generalizing i with
  | nil => simp [locatedAll]
  | cons first trees ih =>
    rw [locatedAll, List.mem_append, List.mem_map, ih]
    constructor
    · rintro (⟨⟨rest, sub'⟩, hmem, heq⟩ | ⟨k, rest, tree, rfl, htree, hmem⟩)
      · obtain ⟨rfl, rfl⟩ := Prod.mk.inj heq
        exact ⟨0, rest, first, rfl, rfl, hmem⟩
      · exact ⟨k + 1, rest, tree, by rw [Nat.add_right_comm, Nat.add_assoc], htree, hmem⟩
    · -- child `k + 1` of all trees is child `k` of those behind the first
      rintro ⟨k, rest, tree, rfl, htree, hmem⟩
      cases k with
      | zero =>
        obtain rfl := Option.some.inj htree
        exact Or.inl ⟨(rest, sub), hmem, rfl⟩
      | succ k => exact Or.inr ⟨k, rest, tree, by rw [Nat.add_right_comm, Nat.add_assoc], htree, hmem⟩

/-- A place is listed with a way iff the way leads to it. -/
theorem mem_located {tree : Tree} {way : List ℕ} {sub : Tree} :
    (way, sub) ∈ tree.located ↔ tree.at? way = some sub := by
  induction way generalizing tree with
  | nil =>
    obtain ⟨occurrence, nested⟩ := tree
    rw [located, List.mem_cons, mem_locatedAll]
    simp [at?, eq_comm]
  | cons i way ih =>
    obtain ⟨occurrence, nested⟩ := tree
    rw [located, List.mem_cons, mem_locatedAll, at?, Option.bind_eq_some_iff]
    constructor
    · rintro (heq | ⟨k, rest, tree, heq, htree, hmem⟩)
      · exact absurd (Prod.mk.inj heq).1 (List.cons_ne_nil _ _)
      · obtain ⟨rfl, rfl⟩ := List.cons.inj heq
        rw [Nat.zero_add]
        exact ⟨tree, htree, ih.1 hmem⟩
    · rintro ⟨tree, htree, hat⟩
      exact Or.inr ⟨i, way, tree, by rw [Nat.zero_add], htree, ih.2 hat⟩

theorem locatedAll_sorted {trees : List Tree}
    (h : ∀ tree ∈ trees, (tree.located.map Prod.fst).Pairwise (· < ·)) (i : ℕ) :
    ((locatedAll i trees).map Prod.fst).Pairwise (· < ·) := by
  induction trees generalizing i with
  | nil => exact List.Pairwise.nil
  | cons tree trees ih =>
    rw [locatedAll, List.map_append, List.map_map, List.pairwise_append]
    refine ⟨?_, ih (fun t ht => h t (List.mem_cons_of_mem _ ht)) (i + 1), ?_⟩
    · have hways : tree.located.map (Prod.fst ∘ fun place => (i :: place.1, place.2)) =
          (tree.located.map Prod.fst).map (i :: ·) := by
        rw [List.map_map]
        rfl
      rw [hways, List.pairwise_map]
      exact (h tree List.mem_cons_self).imp fun hlt => List.cons_lt_cons_iff.2 (Or.inr ⟨rfl, hlt⟩)
    · -- a later child comes after all that stands below an earlier one
      intro way hway way' hway'
      obtain ⟨place, -, rfl⟩ := List.mem_map.1 hway
      obtain ⟨⟨_, sub⟩, hplace', rfl⟩ := List.mem_map.1 hway'
      obtain ⟨k, rest, _, rfl, -, -⟩ := mem_locatedAll.1 hplace'
      exact List.cons_lt_cons_iff.2 (Or.inl (by omega))

/-- The ways are listed in lexicographic order. -/
theorem located_sorted (tree : Tree) : (tree.located.map Prod.fst).Pairwise (· < ·) := by
  induction tree using Tree.induct with
  | node occurrence nested ih =>
    rw [located, List.map_cons, List.pairwise_cons]
    refine ⟨fun way hway => ?_, locatedAll_sorted ih 0⟩
    obtain ⟨⟨_, sub⟩, hplace, rfl⟩ := List.mem_map.1 hway
    obtain ⟨k, rest, _, rfl, -, -⟩ := mem_locatedAll.1 hplace
    exact List.nil_lt_cons _ _

/-! ### What stands above -/

/-- `sub` stands in the tree below the trees `above`, from the root to the tree that holds `sub`. -/
inductive Occurs (tree : Tree) : List Tree → Tree → Prop
  | root : Occurs tree [] tree
  | child {above : List Tree} {upper lower : Tree} :
      Occurs tree above upper → lower ∈ upper.nested → Occurs tree (above ++ [upper]) lower

theorem Occurs.cons {tree child sub : Tree} {above : List Tree} (hchild : child ∈ tree.nested)
    (h : child.Occurs above sub) : tree.Occurs (tree :: above) sub := by
  induction h with
  | root => exact .child .root hchild
  | child _ hlower ih => exact .child ih hlower

theorem flatten_eq_cons (tree : Tree) :
    tree.flatten = tree.occurrence :: tree.nested.flatMap flatten := by
  obtain ⟨occurrence, nested⟩ := tree
  rw [flatten, flattenAll_eq_flatMap]
  rfl

theorem occurrence_mem_flatten (tree : Tree) : tree.occurrence ∈ tree.flatten := by
  rw [flatten_eq_cons]
  exact List.mem_cons_self

theorem drop_one_flatten (tree : Tree) : tree.flatten.drop 1 = tree.nested.flatMap flatten := by
  rw [flatten_eq_cons]
  rfl

theorem flatten_subset_of_mem {tree child : Tree} (h : child ∈ tree.nested) :
    child.flatten ⊆ tree.flatten.drop 1 := by
  intro occurrence hmem
  rw [drop_one_flatten]
  exact List.mem_flatMap.2 ⟨child, h, hmem⟩

theorem Occurs.flatten_subset {tree sub : Tree} {above : List Tree} (h : tree.Occurs above sub) :
    sub.flatten ⊆ tree.flatten := by
  induction h with
  | root => exact List.Subset.refl _
  | child _ hlower ih =>
    exact fun _ hmem => ih (List.mem_of_mem_drop (flatten_subset_of_mem hlower hmem))

theorem Occurs.flatten_subset_drop_one {tree sub : Tree} {above : List Tree}
    (h : tree.Occurs above sub) (habove : above ≠ []) : sub.flatten ⊆ tree.flatten.drop 1 := by
  cases h with
  | root => exact absurd rfl habove
  | child hupper hlower =>
    -- what stands below `upper` does so below the root, whether `upper` is the root or not
    rename_i above upper
    induction hupper generalizing sub with
    | root => exact flatten_subset_of_mem hlower
    | child _ hupper ih =>
      refine fun _ hmem => ih (by simp) hupper ?_
      exact List.mem_of_mem_drop (flatten_subset_of_mem hlower hmem)

theorem exists_occurs_of_mem_flatten {tree : Tree} {occurrence : Occurrence}
    (h : occurrence ∈ tree.flatten) :
    ∃ above sub, tree.Occurs above sub ∧ sub.occurrence = occurrence := by
  induction tree using Tree.induct with
  | node root nested ih =>
    rw [flatten_eq_cons] at h
    rcases List.mem_cons.1 h with rfl | h
    · exact ⟨[], _, .root, rfl⟩
    · obtain ⟨child, hchild, hmem⟩ := List.mem_flatMap.1 h
      obtain ⟨above, sub, hsub, rfl⟩ := ih child hchild hmem
      exact ⟨_, sub, hsub.cons hchild, rfl⟩

/-- **The occurrences of a tree** are those at its places. -/
theorem mem_flatten_iff {tree : Tree} {occurrence : Occurrence} :
    occurrence ∈ tree.flatten ↔ ∃ above sub, tree.Occurs above sub ∧ sub.occurrence = occurrence := by
  constructor
  · exact exists_occurs_of_mem_flatten
  · rintro ⟨above, sub, hsub, rfl⟩
    exact hsub.flatten_subset sub.occurrence_mem_flatten

/-- **The occurrences below the root** are those at the places that have something above. -/
theorem mem_flatten_drop_one_iff {tree : Tree} {occurrence : Occurrence} :
    occurrence ∈ tree.flatten.drop 1 ↔
      ∃ above sub, tree.Occurs above sub ∧ above ≠ [] ∧ sub.occurrence = occurrence := by
  constructor
  · intro h
    rw [drop_one_flatten] at h
    obtain ⟨child, hchild, hmem⟩ := List.mem_flatMap.1 h
    obtain ⟨above, sub, hsub, rfl⟩ := exists_occurs_of_mem_flatten hmem
    exact ⟨_, sub, hsub.cons hchild, List.cons_ne_nil _ _, rfl⟩
  · rintro ⟨above, sub, hsub, habove, rfl⟩
    exact hsub.flatten_subset_drop_one habove sub.occurrence_mem_flatten

/-! ### Circular occurrences -/

/-- A tree holds a circular occurrence iff it is listed among its occurrences. -/
theorem hasCircular_iff_exists_mem_flatten {tree : Tree} :
    tree.hasCircular = true ↔ ∃ occurrence ∈ tree.flatten, occurrence.isCircular = true := by
  induction tree using Tree.induct with
  | node root nested ih =>
    rw [hasCircular, Bool.or_eq_true, anyCircular_eq_any, List.any_eq_true, flatten_eq_cons]
    constructor
    · rintro (hroot | ⟨child, hchild, hcircular⟩)
      · exact ⟨root, List.mem_cons_self, hroot⟩
      · obtain ⟨lower, hlower, h⟩ := (ih child hchild).1 hcircular
        exact ⟨lower, List.mem_cons_of_mem _ (List.mem_flatMap.2 ⟨child, hchild, hlower⟩), h⟩
    · rintro ⟨lower, hlower, h⟩
      rcases List.mem_cons.1 hlower with rfl | hlower
      · exact Or.inl h
      · obtain ⟨child, hchild, hmem⟩ := List.mem_flatMap.1 hlower
        exact Or.inr ⟨child, hchild, (ih child hchild).2 ⟨lower, hmem, h⟩⟩

/-- A tree holds a circular occurrence iff one stands at one of its places. -/
theorem hasCircular_iff_exists_occurs {tree : Tree} :
    tree.hasCircular = true ↔ ∃ above sub, tree.Occurs above sub ∧ sub.occurrence.isCircular = true := by
  rw [hasCircular_iff_exists_mem_flatten]
  constructor
  · rintro ⟨occurrence, hmem, hcircular⟩
    obtain ⟨above, sub, hsub, rfl⟩ := mem_flatten_iff.1 hmem
    exact ⟨above, sub, hsub, hcircular⟩
  · rintro ⟨above, sub, hsub, hcircular⟩
    exact ⟨sub.occurrence, mem_flatten_iff.2 ⟨above, sub, hsub, rfl⟩, hcircular⟩

end Tree

end PageGraph
