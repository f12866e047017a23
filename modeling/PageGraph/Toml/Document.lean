import PageGraph.Toml.Grammar

/-!
# TOML documents

The statements of a document make up a table. Every key may be given once, and what may still be added to a
table depends on how it came about (`Origin`): a table with a header is complete but for subtables, one that only a
longer header implied may get its own header, one that dotted keys made grows by dotted keys, and an inline table
is closed. A header of an array adds one more table to it; a path that leads through an array goes on in its last
table.
-/

namespace PageGraph.Toml

/-- How a table came about. -/
inductive Origin where
  /-- By its own header. -/
  | header
  /-- By the header of a table inside it. -/
  | implied
  /-- By a dotted key. -/
  | dotted
  deriving DecidableEq, Repr

/-- What stands under a key while a document is put together. -/
inductive Node where
  /-- A value that cannot be added to, inline tables and arrays of values among them. -/
  | value (value : Toml)
  | table (origin : Origin) (entries : List (String × Node))
  /-- The tables of an array, each with its entries, the last one first. -/
  | elements (tables : List (List (String × Node)))
  deriving Repr, Inhabited

/-- The entries of a table under construction. -/
abbrev Entries := List (String × Node)

namespace Entries

/-- What stands under a key. -/
def find? (entries : Entries) (key : String) : Option Node := entries.lookup key

/-- The entries with a node under a key, in the place of what stood there or at the end. -/
def set (entries : Entries) (key : String) (node : Node) : Entries :=
  if (entries.find? key).isSome then
    entries.map fun (other, old) => if other = key then (other, node) else (other, old)
  else entries ++ [(key, node)]

/-- Changes the table that a path of headers leads to; tables that are missing on the way are implied. -/
def atHeader (change : Entries → Option Entries) : List String → Entries → Option Entries
  | [], entries => change entries
  | key :: path, entries =>
    match entries.find? key with
    | none => (atHeader change path []).map fun inner => entries.set key (.table .implied inner)
    | some (.table origin inner) =>
      (atHeader change path inner).map fun inner => entries.set key (.table origin inner)
    | some (.elements (last :: tables)) =>
      (atHeader change path last).map fun last => entries.set key (.elements (last :: tables))
    | some _ => none

/-- Adds a value under a key that is not there yet. -/
def add (key : String) (value : Toml) (entries : Entries) : Option Entries :=
  if (entries.find? key).isSome then none else some (entries.set key (.value value))

/-- Adds a value under a dotted key. Only tables that dotted keys made take it; `here` says whether this table
does. -/
def assign (value : Toml) : (here : Bool) → List String → Entries → Option Entries
  | _, [], _ => none
  | here, [key], entries => if here then entries.add key value else none
  | _, key :: path, entries =>
    match entries.find? key with
    | none => (assign value true path []).map fun inner => entries.set key (.table .dotted inner)
    | some (.table .header _) => none
    | some (.table origin inner) =>
      (assign value (origin = .dotted) path inner).map fun inner => entries.set key (.table origin inner)
    | some (.elements (last :: tables)) =>
      (assign value false path last).map fun last => entries.set key (.elements (last :: tables))
    | some _ => none

/-- Opens a table by its header. -/
def openTable (key : String) (entries : Entries) : Option Entries :=
  match entries.find? key with
  | none => some (entries.set key (.table .header []))
  | some (.table .implied inner) => some (entries.set key (.table .header inner))
  | some _ => none

/-- Opens one more table of an array. -/
def openElement (key : String) (entries : Entries) : Option Entries :=
  match entries.find? key with
  | none => some (entries.set key (.elements [[]]))
  | some (.elements tables) => some (entries.set key (.elements ([] :: tables)))
  | some _ => none

end Entries

mutual

/-- The value of a node. -/
def Node.toToml : Node → Toml
  | .value value => value
  | .table _ entries => .table (tableOfEntries entries)
  | .elements tables => .array (arrayOfTables tables).reverse

/-- The values of the entries of a table. -/
def tableOfEntries : List (String × Node) → List (String × Toml)
  | [] => []
  | (key, node) :: entries => (key, node.toToml) :: tableOfEntries entries

/-- The tables of an array as values. -/
def arrayOfTables : List (List (String × Node)) → List Toml
  | [] => []
  | entries :: tables => .table (tableOfEntries entries) :: arrayOfTables tables

end

/-- The inline table of entries with key paths. -/
def inlineTable : TableBuilder := fun entries =>
  (entries.foldlM (fun made (path, value) => Entries.assign value true path made) []).map fun made =>
    .table (tableOfEntries made)

/-- A document under construction: its entries, and the path of the header that the next assignments follow. -/
structure Draft where
  entries : Entries := []
  current : List String := []
  deriving Repr

/-- A draft with one more statement. -/
def Draft.extend (draft : Draft) : Statement → Option Draft
  | .assign path value =>
    (Entries.atHeader (Entries.assign value true path) draft.current draft.entries).map fun entries =>
      { draft with entries }
  | .table path =>
    path.getLast?.bind fun key =>
      (Entries.atHeader (Entries.openTable key) path.dropLast draft.entries).map fun entries => ⟨entries, path⟩
  | .element path =>
    path.getLast?.bind fun key =>
      (Entries.atHeader (Entries.openElement key) path.dropLast draft.entries).map fun entries => ⟨entries, path⟩

/-- A text without the mark of its octet order at the head. -/
def withoutByteOrderMark : List Char → List Char
  | '\uFEFF' :: text => text
  | text => text

/-- The table of a document. -/
def parse? (text : String) : Option (List (String × Toml)) := do
  guard (hasWholeLineEnds text.toList)
  let statements ← statements? inlineTable (withoutByteOrderMark text.toList)
  let draft ← statements.foldlM Draft.extend {}
  return tableOfEntries draft.entries

end PageGraph.Toml
