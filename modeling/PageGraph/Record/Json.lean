import PageGraph.Json.Fields
import PageGraph.Record

/-!
# Records in data files

The JSON form of a record. Path, root and name have to be given; a size that is missing is 0, and times that
are missing or null are unknown.
-/

namespace PageGraph

/-- A point in time as a string. -/
def Timestamp.toJson (time : Timestamp) : Json := .string (Json.escape time.toText)

/-- The point in time that a string names. -/
def Timestamp.ofJson? (value : Json) : Option Timestamp := (Json.text? value).bind fun text => ofText? text.toList

namespace Record

/-- The fields of a record, in the order in which they are written. -/
def fieldNames : List String := ["path", "root", "name", "size", "modified", "created"]

/-- A record as an object. -/
def toJson (record : Record) : Json :=
  .ofFields
    [("path", some (.ofString record.path)), ("root", some (.ofString record.root)),
      ("name", some (.ofString record.name)), ("size", some (.ofNat record.size)),
      ("modified", record.modified.map Timestamp.toJson), ("created", record.created.map Timestamp.toJson)]

/-- The record that a value holds. -/
def ofJson? (room : Nat) (value : Json) : Option Record := do
  let _ ← Json.enter room
  match ← value.fields? fieldNames with
  | [path, root, name, size, modified, created] =>
    return {
      path := ← Json.required Json.text? path
      root := ← Json.required Json.text? root
      name := ← Json.required Json.text? name
      size := ← Json.defaulted 0 Json.nat? size
      modified := ← Json.optional Timestamp.ofJson? modified
      created := ← Json.optional Timestamp.ofJson? created }
  | _ => none

/-- The text of a data file of records. -/
def fileText (records : List Record) : String := Json.fileText toJson records

/-- The records of a data file. -/
def ofFileText? (text : String) : Option (List Record) := Json.ofFileText? ofJson? text

end Record

end PageGraph
