import PageGraph.Reference.Declaration
import PageGraph.Reference.Resolver

/-!
# The references of a page

The references of a page text are the values of its declarations, without those that hold a placeholder. They
come in text order, and one written twice comes twice. `extract` resolves each of them in its place, so a
reference that stands for several pages gives them side by side.
-/

namespace PageGraph

/-- The references that a page text declares. -/
def references (layout : Layout) (text : String) : List String :=
  (((Declarations.ofLayout layout).scan text.toList).map String.ofList).filter layout.isReference

/-- The page paths that the text of a page in the directory `root` references. -/
def Resolver.extract (resolver : Resolver) (root text : String) : List String :=
  (references resolver.layout text).flatMap (resolver.resolve root)

end PageGraph
