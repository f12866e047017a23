import PageGraph.Json.Fields
import PageGraph.Tree.Summary

/-!
# Trees in data files

The JSON forms of a tree and of a summary. Name, path and depth of an occurrence have to be given, and so has
everything of a cycle mark; the trees below it may be missing. The levels that are left decide how deep a
tree can be read, so decoding recurses on them.
-/

namespace PageGraph

namespace Includer

/-- The fields of an includer, in the order in which they are written. -/
def fieldNames : List String := ["path", "depth"]

/-- An includer as an object. -/
def toJson (includer : Includer) : Json :=
  .ofFields [("path", some (.ofString includer.path)), ("depth", some (.ofNat includer.depth))]

/-- The includer that a value holds. -/
def ofJson? (room : Nat) (value : Json) : Option Includer := do
  let _ ← Json.enter room
  match ← value.fields? fieldNames with
  | [path, depth] =>
    return { path := ← Json.required Json.text? path, depth := ← Json.required Json.nat? depth }
  | _ => none

end Includer

namespace CycleMark

/-- The fields of a cycle mark, in the order in which they are written. -/
def fieldNames : List String := ["firstIncludedDepth", "lastIncludedBy"]

/-- A cycle mark as an object. -/
def toJson (mark : CycleMark) : Json :=
  .ofFields
    [("firstIncludedDepth", some (.ofNat mark.firstIncludedDepth)),
      ("lastIncludedBy", some mark.lastIncludedBy.toJson)]

/-- The cycle mark that a value holds. -/
def ofJson? (room : Nat) (value : Json) : Option CycleMark := do
  let room ← Json.enter room
  match ← value.fields? fieldNames with
  | [first, last] =>
    return {
      firstIncludedDepth := ← Json.required Json.nat? first
      lastIncludedBy := ← Json.required (Includer.ofJson? room) last }
  | _ => none

end CycleMark

namespace Tree

/-- The fields of a tree, in the order in which they are written. -/
def fieldNames : List String := ["name", "path", "parent", "depth", "nested", "rawNested", "circular"]

/-- An occurrence with the trees below it, already written, as an object. -/
def occurrenceToJson (occurrence : Occurrence) (nested : List Json) : Json :=
  .ofFields
    [("name", some (.ofString occurrence.name)), ("path", some (.ofString occurrence.path)),
      ("parent", occurrence.parent.map .ofString), ("depth", some (.ofNat occurrence.depth)),
      ("nested", some (.array nested)), ("rawNested", occurrence.rawNested.map .ofStrings),
      ("circular", occurrence.circular.map CycleMark.toJson)]

mutual

/-- A tree as an object. -/
def toJson : Tree → Json
  | .node occurrence nested => occurrenceToJson occurrence (allToJson nested)

/-- Several trees as objects. -/
def allToJson : List Tree → List Json
  | [] => []
  | tree :: trees => tree.toJson :: allToJson trees

end

mutual

/-- The tree that a value holds. -/
def ofJson? : Nat → Json → Option Tree
  | 0, _ => none
  | room + 1, value =>
    match value.fields? fieldNames with
    | some [name, path, parent, depth, nested, rawNested, circular] => do
      let occurrence : Occurrence := {
        name := ← Json.required Json.text? name
        path := ← Json.required Json.text? path
        parent := ← Json.optional Json.text? parent
        depth := ← Json.required Json.nat? depth
        rawNested := ← Json.optional (Json.texts? room) rawNested
        circular := ← Json.optional (CycleMark.ofJson? room) circular }
      return .node occurrence (← Json.defaulted [] (allOfJson? room) nested)
    | _ => none

/-- The trees that an array holds. -/
def allOfJson? : Nat → Json → Option (List Tree)
  | 0, _ => none
  | room + 1, value => (Json.items? value).bind fun items => items.mapM (ofJson? room)

end

/-- The text of a data file of trees. -/
def fileText (trees : List Tree) : String := Json.fileText toJson trees

/-- The trees of a data file. -/
def ofFileText? (text : String) : Option (List Tree) := Json.ofFileText? ofJson? text

end Tree

/-- A summary as an object. -/
def Summary.toJson (summary : Summary) : Json :=
  .ofFields
    [("pages", some (.ofNat summary.pages)), ("references", some (.ofNat summary.references)),
      ("unresolved", some (.ofNat summary.unresolved)), ("circularTrees", some (.ofNat summary.circularTrees)),
      ("occurrences", some (.ofNat summary.occurrences)), ("maxDepth", some (.ofNat summary.maxDepth))]

end PageGraph
