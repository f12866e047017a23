import PageGraph.Json.Token

/-!
# Reading JSON

A value is put together from its tokens, one at a time. What is open around the value being read is a stack of
frames, innermost first; between two tokens the reader is in one of six situations (`Reader`), and a token
leads from one to the next (`Reader.feed`) or is refused. The grammar is strict: no comma before a closing
bracket, and nothing behind the value.
-/

namespace PageGraph.Json

/-- An open array or object, with what it holds so far, latest first. -/
inductive Frame where
  | array (items : List Json)
  | object (members : List (List Char × Json)) (key : List Char)
  deriving Repr

/-- The situations between two tokens. -/
inductive Reader where
  /-- A value has to come. -/
  | beforeValue (around : List Frame)
  /-- An array was opened: a value or its end. -/
  | arrayOpened (around : List Frame)
  /-- An object was opened: a key or its end. -/
  | objectOpened (around : List Frame)
  /-- A key has to come. -/
  | beforeKey (members : List (List Char × Json)) (around : List Frame)
  /-- The colon behind a key has to come. -/
  | beforeColon (key : List Char) (members : List (List Char × Json)) (around : List Frame)
  /-- A value is complete. -/
  | complete (value : Json) (around : List Frame)
  deriving Repr

namespace Reader

/-- The first token of a value. -/
def beginValue (around : List Frame) : Token → Option Reader
  | .null => some (.complete .null around)
  | .bool value => some (.complete (.bool value) around)
  | .number literal => some (.complete (.number literal) around)
  | .string literal => some (.complete (.string literal) around)
  | .openArray => some (.arrayOpened around)
  | .openObject => some (.objectOpened around)
  | _ => none

/-- The situation after a token. -/
def feed : Reader → Token → Option Reader
  | .beforeValue around, token => beginValue around token
  | .arrayOpened around, .closeArray => some (.complete (.array []) around)
  | .arrayOpened around, token => beginValue (.array [] :: around) token
  | .objectOpened around, .closeObject => some (.complete (.object []) around)
  | .objectOpened around, .string key => some (.beforeColon key [] around)
  | .beforeKey members around, .string key => some (.beforeColon key members around)
  | .beforeColon key members around, .colon => some (.beforeValue (.object members key :: around))
  | .complete value (.array items :: around), .comma => some (.beforeValue (.array (value :: items) :: around))
  | .complete value (.array items :: around), .closeArray =>
    some (.complete (.array (value :: items).reverse) around)
  | .complete value (.object members key :: around), .comma => some (.beforeKey ((key, value) :: members) around)
  | .complete value (.object members key :: around), .closeObject =>
    some (.complete (.object ((key, value) :: members).reverse) around)
  | _, _ => none

/-- The value, when nothing is open any more. -/
def result? : Reader → Option Json
  | .complete value [] => some value
  | _ => none

end Reader

/-- The value that a sequence of tokens makes up. -/
def ofTokens? (tokens : List Token) : Option Json :=
  (tokens.foldlM Reader.feed (.beforeValue [])).bind Reader.result?

/-- The value of a JSON text. -/
def parse? (text : String) : Option Json := (tokens? text.toList).bind ofTokens?

end PageGraph.Json
