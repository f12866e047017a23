import PageGraph.Json.Basic

/-!
# Writing JSON

The indented form of a value: two blanks for each level, one line for each item and member, a blank behind the
colon, and `[]` or the empty braces for what holds nothing.

Every function here writes in front of the text that follows, `rest`, so that no part is copied again for the
values around it.
-/

namespace PageGraph.Json

/-- A line end and the indentation of a level. -/
def newLine (level : Nat) (rest : List Char) : List Char := '\n' :: (List.replicate (2 * level) ' ' ++ rest)

/-- A string literal between its quotes. -/
def quoted (literal rest : List Char) : List Char := '"' :: (literal ++ '"' :: rest)

mutual

/-- The indented form of a value at a level. -/
def indented (level : Nat) : Json → List Char → List Char
  | .null, rest => "null".toList ++ rest
  | .bool true, rest => "true".toList ++ rest
  | .bool false, rest => "false".toList ++ rest
  | .number literal, rest => literal ++ rest
  | .string literal, rest => quoted literal rest
  | .array [], rest => '[' :: ']' :: rest
  | .array (item :: items), rest =>
    '[' :: newLine (level + 1)
      (indented (level + 1) item (indentedItems level items (newLine level (']' :: rest))))
  | .object [], rest => '\x7b' :: '\x7d' :: rest
  | .object ((key, value) :: members), rest =>
    '\x7b' :: newLine (level + 1) (quoted key (':' :: ' ' ::
      indented (level + 1) value (indentedMembers level members (newLine level ('\x7d' :: rest)))))

/-- The items of an array after the first. -/
def indentedItems (level : Nat) : List Json → List Char → List Char
  | [], rest => rest
  | item :: items, rest =>
    ',' :: newLine (level + 1) (indented (level + 1) item (indentedItems level items rest))

/-- The members of an object after the first. -/
def indentedMembers (level : Nat) : List (List Char × Json) → List Char → List Char
  | [], rest => rest
  | (key, value) :: members, rest =>
    ',' :: newLine (level + 1) (quoted key (':' :: ' ' ::
      indented (level + 1) value (indentedMembers level members rest)))

end

/-- The indented text of a value. -/
def pretty (value : Json) : String := String.ofList (indented 0 value [])

end PageGraph.Json
