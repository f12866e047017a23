import PageGraph.Json.Printer
import PageGraph.Json.Reader

/-!
# Records in JSON

A record with named fields is written as an object, its fields in a fixed order, those without a value left
out. It is read from an object in any order of keys, where unknown keys do not matter and no known one may
come twice, or from an array of the field values in order, from whose end fields may be missing.

What an array or an object holds may nest to a depth of 127, counted over what is decoded; `enter` takes one
level of what is left. Values under unknown keys are not decoded and may nest to any depth.
-/

namespace PageGraph.Json

/-- How many arrays and objects may be open at once in what is decoded. -/
def maxOpen : Nat := 127

/-- One level further in. -/
def enter : Nat → Option Nat
  | 0 => none
  | room + 1 => some room

/-- A member of an object with its key as a text. -/
def readKey? (member : List Char × Json) : Option (List Char × Json) :=
  (unescape? member.1).map fun key => (key, member.2)

/-- The value of a field among the members of an object, whose keys are read; it must not be given twice. -/
def member? (members : List (List Char × Json)) (name : String) : Option (Option Json) :=
  match members.filter fun member => member.1 == name.toList with
  | [] => some none
  | [(_, value)] => some (some value)
  | _ => none

/-- What is given for the fields with these names, in their order. -/
def fields? (names : List String) : Json → Option (List (Option Json))
  | .object members =>
    (members.mapM readKey?).bind fun members => names.mapM (member? members)
  | .array items =>
    if items.length ≤ names.length then some ((List.range names.length).map fun i => items[i]?) else none
  | _ => none

/-- The value of a field that has to be given. -/
def required {α : Type} (decode : Json → Option α) (given : Option Json) : Option α := given.bind decode

/-- The value of a field that has a default. -/
def defaulted {α : Type} (default : α) (decode : Json → Option α) : Option Json → Option α
  | none => some default
  | some value => decode value

/-- The value of a field that may be absent or null. -/
def optional {α : Type} (decode : Json → Option α) : Option Json → Option (Option α)
  | none => some none
  | some .null => some none
  | some value => (decode value).map some

/-- The items of an array. -/
def items? : Json → Option (List Json)
  | .array items => some items
  | _ => none

/-- A list of texts. -/
def texts? (room : Nat) (value : Json) : Option (List String) :=
  (enter room).bind fun _ => (items? value).bind fun items => items.mapM text?

/-- A list of texts as an array. -/
def ofStrings (texts : List String) : Json := .array (texts.map ofString)

/-- A record as an object: each field with its name, those without a value left out. -/
def ofFields (fields : List (String × Option Json)) : Json :=
  .object (fields.filterMap fun (name, value) => value.map fun value => (escape name.toList, value))

/-- A list of records as the text of a data file. -/
def fileText {α : Type} (encode : α → Json) (records : List α) : String := (Json.array (records.map encode)).pretty

/-- The list of records that the text of a data file holds, with the levels that are left for each. -/
def ofFileText? {α : Type} (decode : Nat → Json → Option α) (text : String) : Option (List α) := do
  let items ← (← parse? text) |> items?
  items.mapM (decode (← enter maxOpen))

end PageGraph.Json
