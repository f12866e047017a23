/-!
# Inclusion trees

An inclusion tree shows a page with everything it includes. Its nodes are occurrences: a page occurs once for
every way to reach it from the root. Where a page is reached again below itself the tree ends with a circular
occurrence, which says where the page came first and keeps its references unexpanded.

`Tree.flatten` lists the occurrences in the order in which the tree is read; the counts, the depth and the
search for a cycle are recursions of their own.
-/

namespace PageGraph

/-- The occurrence that brings a page in again. -/
structure Includer where
  path : String
  depth : Nat
  deriving DecidableEq, Repr, Inhabited

/-- Marks an occurrence whose page lies above its includer. -/
structure CycleMark where
  /-- The depth at which the page came first. -/
  firstIncludedDepth : Nat
  lastIncludedBy : Includer
  deriving DecidableEq, Repr, Inhabited

/-- A page in a tree. -/
structure Occurrence where
  name : String
  path : String
  /-- The path of the including page; a root has none. -/
  parent : Option String := none
  depth : Nat
  /-- The references of a circular occurrence, not expanded. -/
  rawNested : Option (List String) := none
  circular : Option CycleMark := none
  deriving DecidableEq, Repr, Inhabited

/-- Whether an occurrence ends a cycle. -/
def Occurrence.isCircular (occurrence : Occurrence) : Bool := occurrence.circular.isSome

/-- An occurrence with the trees of what it includes. -/
inductive Tree where
  | node (occurrence : Occurrence) (nested : List Tree)
  deriving Repr, Inhabited

namespace Tree

/-- The occurrence at the root. -/
def occurrence : Tree → Occurrence
  | .node occurrence _ => occurrence

/-- The trees below the root. -/
def nested : Tree → List Tree
  | .node _ nested => nested

mutual

/-- The occurrences of a tree, each before those below it. -/
def flatten : Tree → List Occurrence
  | .node occurrence nested => occurrence :: flattenAll nested

/-- The occurrences of several trees, one tree after the other. -/
def flattenAll : List Tree → List Occurrence
  | [] => []
  | tree :: trees => tree.flatten ++ flattenAll trees

end

mutual

/-- The number of occurrences of a tree. -/
def count : Tree → Nat
  | .node _ nested => 1 + countAll nested

/-- The number of occurrences of several trees. -/
def countAll : List Tree → Nat
  | [] => 0
  | tree :: trees => tree.count + countAll trees

end

mutual

/-- Whether a tree holds a circular occurrence. -/
def hasCircular : Tree → Bool
  | .node occurrence nested => occurrence.isCircular || anyCircular nested

/-- Whether one of several trees holds a circular occurrence. -/
def anyCircular : List Tree → Bool
  | [] => false
  | tree :: trees => tree.hasCircular || anyCircular trees

end

mutual

/-- The greatest depth that a leaf of a tree states. -/
def maxDepth : Tree → Nat
  | .node occurrence [] => occurrence.depth
  | .node _ (tree :: trees) => max tree.maxDepth (maxDepthAll trees)

/-- The greatest depth that a leaf of several trees states, 0 where there is none. -/
def maxDepthAll : List Tree → Nat
  | [] => 0
  | tree :: trees => max tree.maxDepth (maxDepthAll trees)

end

/-! ### Small facts -/

theorem flattenAll_eq_flatMap (trees : List Tree) : flattenAll trees = trees.flatMap flatten := by
  induction trees with
  | nil => rfl
  | cons tree trees ih => rw [flattenAll, ih, List.flatMap_cons]

theorem anyCircular_eq_any (trees : List Tree) : anyCircular trees = trees.any hasCircular := by
  induction trees with
  | nil => rfl
  | cons tree trees ih => rw [anyCircular, ih, List.any_cons]

/-- Induction over a tree: what holds of a node when it holds of all trees below it holds of every tree. -/
theorem induct {motive : Tree → Prop}
    (node : ∀ occurrence nested, (∀ tree ∈ nested, motive tree) → motive (.node occurrence nested))
    (tree : Tree) : motive tree :=
  tree.rec (motive_2 := fun trees => ∀ tree ∈ trees, motive tree) (fun occurrence nested ih => node occurrence nested ih)
    (fun _ h => nomatch h)
    (fun _ _ ih ihs t ht => by
      rcases List.mem_cons.1 ht with rfl | ht
      · exact ih
      · exact ihs t ht)

end Tree

end PageGraph
