import PageGraph.Toml.Bare
import PageGraph.Toml.Quoted

/-!
# The grammar of TOML

A document is a list of statements, each on lines of its own: a key with its value, the header of a table, or
the header of one more table of an array. Arrays and inline tables may hold line ends and comments between any
two of their parts, only not inside a key path, and a comma behind their last item; they nest to a depth of eighty.

Lists of items are read by one function (`listUntil?`), which is handed the reader of an item; each item takes
at least one character, so the length of the text bounds their number.
-/

namespace PageGraph.Toml

/-- A statement of a document, or an entry of an inline table. -/
inductive Statement where
  /-- A value under a path of keys. -/
  | assign (path : List String) (value : Toml)
  /-- The header of a table. -/
  | table (path : List String)
  /-- The header of one more table of an array. -/
  | element (path : List String)
  deriving Repr

/-- Items up to the closing character, at most `most` of them, with commas between them and perhaps one behind
the last; blanks, line ends and comments do not count. Also the text behind the closing character. -/
def listUntil? {α : Type} (close : Char) (item? : List Char → Option (α × List Char)) :
    Nat → List Char → Option (List α × List Char)
  | 0, _ => none
  | most + 1, text => do
    match ← skipTrivia false text with
    | [] => none
    | c :: rest =>
      if c = close then return ([], rest)
      let (item, rest) ← item? (c :: rest)
      match ← skipTrivia false rest with
      | [] => none
      | c :: rest =>
        if c = close then return ([item], rest)
        else if c = ',' then
          let (items, rest) ← listUntil? close item? most rest
          return (item :: items, rest)
        else none

/-- A key path, the equals sign and a value, and the text behind it; `skip?` takes what may stand around the
equals sign. -/
def assignment? (skip? : List Char → Option (List Char)) (value? : List Char → Option (Toml × List Char))
    (text : List Char) : Option ((List String × Toml) × List Char) := do
  let (path, rest) ← keyPath? text
  match ← skip? rest with
  | '=' :: rest =>
    let (value, rest) ← value? (← skip? rest)
    return ((path, value), rest)
  | _ => none

/-- The table that entries with key paths make up, none of which may say anything twice. -/
abbrev TableBuilder := List (List String × Toml) → Option Toml

/-- A value, and the text behind it; `room` is how many arrays and inline tables may still be opened. Inline
tables are made by `build`. -/
def value? (build : TableBuilder) : Nat → List Char → Option (Toml × List Char)
  | room, '[' :: rest =>
    match room with
    | 0 => none
    | room + 1 =>
      (listUntil? ']' (value? build room) (rest.length + 1) rest).map fun (items, rest) => (.array items, rest)
  | room, '\x7b' :: rest =>
    match room with
    | 0 => none
    | room + 1 => do
      let (entries, rest) ← listUntil? '\x7d' (assignment? (skipTrivia false) (value? build room)) (rest.length + 1) rest
      return (← build entries, rest)
  | _, c :: rest =>
    if c = '"' ∨ c = '\'' then
      (string? (c :: rest)).map fun (text, rest) => (.string (String.ofList text), rest)
    else
      let (run, rest) := takeRun (c :: rest)
      (ofRun? run).map fun value => (value, rest)
  | _, [] => none

/-- How many arrays and inline tables may be open at once. -/
def maxOpen : Nat := 80

/-- A statement and the text behind it. -/
def statement? (build : TableBuilder) : List Char → Option (Statement × List Char)
  | '[' :: '[' :: rest => do
    let (path, rest) ← keyPath? (skipBlanks rest)
    match rest with
    | ']' :: ']' :: rest => return (.element path, rest)
    | _ => none
  | '[' :: rest => do
    let (path, rest) ← keyPath? (skipBlanks rest)
    match rest with
    | ']' :: rest => return (.table path, rest)
    | _ => none
  | text => do
    let ((path, value), rest) ← assignment? (some ∘ skipBlanks) (value? build maxOpen) text
    return (.assign path value, rest)

/-- At most `most` statements, up to the end of the text. -/
def statementsUpTo? (build : TableBuilder) : Nat → List Char → Option (List Statement)
  | 0, _ => none
  | most + 1, text => do
    match ← skipTrivia false text with
    | [] => return []
    | text =>
      let (statement, rest) ← statement? build text
      let statements ← statementsUpTo? build most (← lineEnd? rest)
      return statement :: statements

/-- The statements of a text. -/
def statements? (build : TableBuilder) (text : List Char) : Option (List Statement) :=
  statementsUpTo? build (text.length + 1) text

end PageGraph.Toml
