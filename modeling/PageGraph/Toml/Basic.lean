/-!
# TOML values

A TOML document is a table. Numbers with a fraction and points in time are kept as they are written: nothing
in this library computes with them.

Lines end in a line feed or in a carriage return and a line feed, and strings over several lines keep the line
ends that they have.
-/

namespace PageGraph

/-- A TOML value. A number is what is written, however large: whether it can be held is asked of the value that
is used (`Toml.isHeld`). -/
inductive Toml where
  | string (text : String)
  | integer (value : Int)
  | float (literal : List Char)
  | boolean (value : Bool)
  | dateTime (literal : List Char)
  | array (items : List Toml)
  | table (entries : List (String × Toml))
  deriving Repr, Inhabited

namespace Toml

/-- The blanks inside a line. -/
def isBlank (c : Char) : Bool := c = ' ' || c = '\t'

/-- The control characters, which stand in no string and no comment. The tab is none of them. -/
def isControl (c : Char) : Bool := (c.toNat < 0x20 && c ≠ '\t') || c.toNat = 0x7F

/-- A text without the blanks in front. -/
def skipBlanks (text : List Char) : List Char := text.dropWhile isBlank

/-- The characters of a line end: a line feed, with or without a carriage return before it. -/
def isLineEnd (c : Char) : Bool := c = '\n' || c = '\r'

/-- The text behind blanks, line ends and comments; `inComment` says that the text starts inside a comment. -/
def skipTrivia (inComment : Bool) : List Char → Option (List Char)
  | [] => some []
  | c :: rest =>
    if isLineEnd c then skipTrivia false rest
    else if inComment then if isControl c then none else skipTrivia true rest
    else if isBlank c then skipTrivia false rest
    else if c = '#' then skipTrivia true rest
    else some (c :: rest)

/-- A text without a line end at its head. -/
def skipLineEnd : List Char → List Char
  | '\r' :: '\n' :: rest => rest
  | '\n' :: rest => rest
  | text => text

/-- The text behind the end of a line, which may hold blanks and a comment before it. -/
def lineEnd? (text : List Char) : Option (List Char) :=
  match skipBlanks text with
  | [] => some []
  | c :: rest =>
    if isLineEnd c then some (skipLineEnd (c :: rest))
    else if c ≠ '#' ∨ (rest.takeWhile (!isLineEnd ·)).any isControl then none
    else some (skipLineEnd (rest.dropWhile (!isLineEnd ·)))

/-- Whether every carriage return stands in front of a line feed. -/
def hasWholeLineEnds : List Char → Bool
  | [] => true
  | '\r' :: '\n' :: rest => hasWholeLineEnds rest
  | c :: rest => c ≠ '\r' && hasWholeLineEnds rest

end Toml

end PageGraph
