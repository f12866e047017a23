import PageGraph.Page
import PageGraph.Tree.Basic
import PageGraph.Text.Decimal

/-!
# Questions about trees

Where a page is included from, and the totals of a corpus with its trees.
-/

namespace PageGraph

/-- The occurrences of a page below the roots of the trees. -/
def includedFrom (trees : List Tree) (path : String) : List Occurrence :=
  (trees.flatMap fun tree => tree.flatten.drop 1).filter fun occurrence => occurrence.path = path

/-- The totals of a corpus and its trees. -/
structure Summary where
  pages : Nat
  /-- Direct references, repetitions counted. -/
  references : Nat
  /-- References that name no page of the corpus. -/
  unresolved : Nat
  /-- Trees that hold a circular occurrence. -/
  circularTrees : Nat
  /-- Occurrences in all trees. -/
  occurrences : Nat
  maxDepth : Nat
  deriving DecidableEq, Repr

namespace Summary

/-- The totals of pages and trees. -/
def of (pages : List Page) (trees : List Tree) : Summary where
  pages := pages.length
  references := (pages.flatMap Page.references).length
  unresolved := (pages.flatMap Page.references).countP fun reference => !pages.any (·.path = reference)
  circularTrees := trees.countP Tree.hasCircular
  occurrences := Tree.countAll trees
  maxDepth := Tree.maxDepthAll trees

/-- The totals in one line. -/
def toText (summary : Summary) : String :=
  let n (value : Nat) : String := String.ofList (Text.Decimal.digits value)
  n summary.pages ++ " pages, " ++ n summary.references ++ " references (" ++ n summary.unresolved ++
    " unresolved), " ++ n summary.circularTrees ++ " circular trees, " ++ n summary.occurrences ++
    " occurrences, max depth " ++ n summary.maxDepth

end Summary

end PageGraph
