import PageGraph.Layout
import PageGraph.PagePath
import PageGraph.Text.Blank

/-!
# Resolving references

A reference is the text of an attribute value as a page author wrote it. It becomes a page path in two steps.
First it is anchored (`Resolver.anchor`): the rules are tried in order, and the first that applies says below
which directory the rest of the reference lies.

1. A cross-store marker occurs: below the content root, from the last `../` on.
2. The style macro occurs: below the style directory.
3. The store macro occurs: below the store of the including page.
4. It starts with a separator: below the content root.
5. Otherwise: below the directory of the including page.

Then it is placed there (`Resolver.place`). The multi-store macro is expanded before, into one candidate for
each storefront variant, and every candidate goes through the same rules.
-/

namespace PageGraph

/-- Resolves references by a layout, below a content root. -/
structure Resolver where
  /-- The content root, in normal form. -/
  contentRoot : String
  layout : Layout
  deriving DecidableEq, Repr

/-- Where a reference is anchored, with what is left of it. -/
inductive Anchor where
  | contentRoot (rest : List Char)
  | styleDir (rest : List Char)
  | storeDir (rest : List Char)
  | pageDir (rest : List Char)
  deriving DecidableEq, Repr

namespace Resolver

/-- The resolver for a content root, which is brought into normal form. -/
def below (contentRoot : String) (layout : Layout) : Resolver := ⟨normalize contentRoot, layout⟩

/-- The text after the first occurrence of a macro. -/
def afterMacro? (token : String) (reference : List Char) : Option (List Char) :=
  (Text.splitAtFirst? token.toList reference).map Prod.snd

/-- The text after the last step upwards, or the whole text. -/
def withoutAscent (reference : List Char) : List Char :=
  match Text.splitAtLast? ['.', '.', '/'] reference with
  | some (_, rest) => rest
  | none => reference

variable (resolver : Resolver)

/-- The store of a page in the directory `root`: the segment after the content-root marker, if it is a known
store, and the default store otherwise. -/
def storeOf (root : String) : String :=
  let segments := PagePath.pieces (root.toList.reverse.dropWhile (· = '/')).reverse
  match segments.dropWhile (· ≠ resolver.layout.contentRootMarker.toList) with
  | _ :: candidate :: _ =>
    if resolver.layout.knownStoreDirs.any (·.toList = candidate) then String.ofList candidate
    else resolver.layout.defaultStoreDir
  | _ => resolver.layout.defaultStoreDir

/-- The rule that applies to a reference. -/
def anchor (reference : List Char) : Anchor :=
  if resolver.layout.namesStore reference then .contentRoot (withoutAscent reference)
  else
    match afterMacro? resolver.layout.styleDirToken reference with
    | some rest => .styleDir rest
    | none =>
      match afterMacro? resolver.layout.storeDirToken reference with
      | some rest => .storeDir rest
      | none => if PagePath.isRooted reference then .contentRoot reference else .pageDir reference

/-- The directory that an anchor names, for a page in the directory `root`. -/
def base (root : String) : Anchor → String
  | .contentRoot _ => resolver.contentRoot
  | .styleDir _ => join resolver.contentRoot resolver.layout.styleDirPath
  | .storeDir _ => join resolver.contentRoot (resolver.storeOf root)
  | .pageDir _ => root

/-- The page path of an anchored reference in a page of the directory `root`. -/
def place (root : String) (anchor : Anchor) : String :=
  let rest := match anchor with
    | .contentRoot rest | .styleDir rest | .storeDir rest | .pageDir rest => rest
  join (resolver.base root anchor) (String.ofList rest)

/-- The candidates that a reference stands for: one for each storefront variant when it holds the multi-store
macro, itself otherwise. -/
def candidates (reference : List Char) : List (List Char) :=
  match afterMacro? resolver.layout.multiStoreToken reference with
  | some rest => resolver.layout.storeVariants.map fun variant => variant.toList ++ '/' :: rest
  | none => [reference]

/-- The page paths that a reference names, written in a page of the directory `root`. -/
def resolve (root reference : String) : List String :=
  (resolver.candidates (Text.trim reference.toList)).map fun candidate =>
    resolver.place root (resolver.anchor candidate)

end Resolver

end PageGraph
