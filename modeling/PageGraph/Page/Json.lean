import PageGraph.Json.Fields
import PageGraph.Page

/-!
# Pages in data files

The JSON form of a page. Name and path have to be given; a parent may be missing or null, a missing depth is
0, and missing references are none.
-/

namespace PageGraph.Page

/-- The fields of a page, in the order in which they are written. -/
def fieldNames : List String := ["name", "path", "parent", "depth", "nested"]

/-- A page as an object. -/
def toJson (page : Page) : Json :=
  .ofFields
    [("name", some (.ofString page.name)), ("path", some (.ofString page.path)),
      ("parent", page.parent.map .ofString), ("depth", some (.ofNat page.depth)),
      ("nested", some (.ofStrings page.references))]

/-- The page that a value holds. -/
def ofJson? (room : Nat) (value : Json) : Option Page := do
  let room ← Json.enter room
  match ← value.fields? fieldNames with
  | [name, path, parent, depth, nested] =>
    return {
      name := ← Json.required Json.text? name
      path := ← Json.required Json.text? path
      parent := ← Json.optional Json.text? parent
      depth := ← Json.defaulted 0 Json.nat? depth
      references := ← Json.defaulted [] (Json.texts? room) nested }
  | _ => none

/-- The text of a data file of pages. -/
def fileText (pages : List Page) : String := Json.fileText toJson pages

/-- The pages of a data file. -/
def ofFileText? (text : String) : Option (List Page) := Json.ofFileText? ofJson? text

end PageGraph.Page
