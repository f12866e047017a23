import PageGraph.Json.Basic
import PageGraph.Toml.Basic

/-!
# Quoted texts and keys of TOML

The four kinds of strings: basic ones with escapes and literal ones without, on one line or over several. A
string over several lines drops a line end right behind its opening quotes, may end in up to two quotes before its
closing ones, and, if it is basic, joins lines at a backslash.

Keys are bare words, basic strings or literal strings; dots make a path of up to eighty of them.
-/

namespace PageGraph.Toml

/-! ### Escapes -/

/-- The character that a short escape stands for, by its letter. -/
def shortEscape? : Char → Option Char
  | '"' => some '"'
  | '\\' => some '\\'
  | 'b' => some (Char.ofNat 0x08)
  | 't' => some '\t'
  | 'n' => some '\n'
  | 'f' => some (Char.ofNat 0x0C)
  | 'r' => some '\r'
  | 'e' => some (Char.ofNat 0x1B)
  | _ => none

/-- The character with a code that is given in hexadecimal digits, if it is a character. -/
def charOfHex? (digits : List Char) : Option Char :=
  (digits.mapM Json.hexValue?).bind fun values =>
    let code := values.foldl (fun n value => n * 16 + value) 0
    if code.isValidChar then some (Char.ofNat code) else none

/-! ### Strings on one line -/

/-- A basic string behind its opening quote, and the text behind its closing one. -/
def basicString? : List Char → Option (List Char × List Char)
  | [] => none
  | '"' :: rest => some ([], rest)
  | '\\' :: 'u' :: a :: b :: c :: d :: rest => do
    let char ← charOfHex? [a, b, c, d]
    let (text, rest) ← basicString? rest
    return (char :: text, rest)
  | '\\' :: 'U' :: a :: b :: c :: d :: e :: f :: g :: h :: rest => do
    let char ← charOfHex? [a, b, c, d, e, f, g, h]
    let (text, rest) ← basicString? rest
    return (char :: text, rest)
  | '\\' :: 'x' :: a :: b :: rest => do
    let char ← charOfHex? [a, b]
    let (text, rest) ← basicString? rest
    return (char :: text, rest)
  | '\\' :: e :: rest => do
    let char ← shortEscape? e
    let (text, rest) ← basicString? rest
    return (char :: text, rest)
  | c :: rest =>
    if c = '\\' ∨ isControl c then none
    else (basicString? rest).map fun (text, rest) => (c :: text, rest)

/-- A literal string behind its opening quote, and the text behind its closing one. -/
def literalString? : List Char → Option (List Char × List Char)
  | [] => none
  | c :: rest =>
    if c = '\'' then some ([], rest)
    else if isControl c then none
    else (literalString? rest).map fun (text, rest) => (c :: text, rest)

/-! ### Strings over several lines -/

/-- The end of a string over several lines, right behind three quotes: up to two more belong to the text. -/
def closingQuotes (quote : Char) : List Char → List Char × List Char
  | a :: b :: rest =>
    if a = quote ∧ b = quote then ([quote, quote], rest)
    else if a = quote then ([quote], b :: rest)
    else ([], a :: b :: rest)
  | [a] => if a = quote then ([quote], []) else ([], [a])
  | [] => ([], [])

/-- Where a basic string over several lines stands. -/
inductive LineMode where
  /-- In the text. -/
  | text
  /-- Behind a backslash and blanks: the line has to end. -/
  | joining
  /-- Behind a line that ended in a backslash: blanks and line ends do not count. -/
  | joined
  deriving DecidableEq, Repr

/-- A basic string over several lines behind its opening quotes, and the text behind its closing ones. -/
def basicLines? (mode : LineMode) : List Char → Option (List Char × List Char)
  | [] => none
  | first :: rest =>
    if mode = .joining then
      if isBlank first then basicLines? .joining rest
      else if isLineEnd first then basicLines? .joined rest
      else none
    else if mode = .joined ∧ (isBlank first ∨ isLineEnd first) then basicLines? .joined rest
    else
      match first, rest with
      | '"', '"' :: '"' :: rest => some (closingQuotes '"' rest)
      | '\\', 'u' :: a :: b :: c :: d :: rest => do
        let char ← charOfHex? [a, b, c, d]
        let (text, rest) ← basicLines? .text rest
        return (char :: text, rest)
      | '\\', 'U' :: a :: b :: c :: d :: e :: f :: g :: h :: rest => do
        let char ← charOfHex? [a, b, c, d, e, f, g, h]
        let (text, rest) ← basicLines? .text rest
        return (char :: text, rest)
      | '\\', 'x' :: a :: b :: rest => do
        let char ← charOfHex? [a, b]
        let (text, rest) ← basicLines? .text rest
        return (char :: text, rest)
      | '\\', e :: rest =>
        if isLineEnd e then basicLines? .joined rest
        else if isBlank e then basicLines? .joining rest
        else do
          let char ← shortEscape? e
          let (text, rest) ← basicLines? .text rest
          return (char :: text, rest)
      | c, rest =>
        if c = '\\' ∨ (isControl c ∧ !isLineEnd c) then none
        else (basicLines? .text rest).map fun (text, rest) => (c :: text, rest)

/-- A literal string over several lines behind its opening quotes, and the text behind its closing ones. -/
def literalLines? : List Char → Option (List Char × List Char)
  | [] => none
  | '\'' :: '\'' :: '\'' :: rest => some (closingQuotes '\'' rest)
  | c :: rest =>
    if isControl c ∧ !isLineEnd c then none
    else (literalLines? rest).map fun (text, rest) => (c :: text, rest)

/-- The string at the head of a text, of any kind, and the text behind it. -/
def string? : List Char → Option (List Char × List Char)
  | '"' :: '"' :: '"' :: rest => basicLines? .text (skipLineEnd rest)
  | '\'' :: '\'' :: '\'' :: rest => literalLines? (skipLineEnd rest)
  | '"' :: rest => basicString? rest
  | '\'' :: rest => literalString? rest
  | _ => none

/-! ### Keys -/

/-- The characters of a bare key. -/
def isBareKey (c : Char) : Bool := c.isAlphanum || c = '_' || c = '-'

/-- A key, and the text behind it. -/
def key? : List Char → Option (String × List Char)
  | '"' :: rest => (basicString? rest).map fun (text, rest) => (String.ofList text, rest)
  | '\'' :: rest => (literalString? rest).map fun (text, rest) => (String.ofList text, rest)
  | text =>
    if (text.takeWhile isBareKey).isEmpty then none
    else some (String.ofList (text.takeWhile isBareKey), text.dropWhile isBareKey)

/-- A path of at most `most` keys with dots between them, and the text behind it and blanks. -/
def keyPathUpTo? : Nat → List Char → Option (List String × List Char)
  | 0, _ => none
  | most + 1, text => do
    let (key, rest) ← key? text
    match skipBlanks rest with
    | '.' :: rest => do
      let (path, rest) ← keyPathUpTo? most (skipBlanks rest)
      return (key :: path, rest)
    | rest => return ([key], rest)

/-- The greatest number of keys in a path. -/
def maxKeys : Nat := 80

/-- A path of keys with dots between them, and the text behind it and blanks. -/
def keyPath? (text : List Char) : Option (List String × List Char) := keyPathUpTo? maxKeys text

end PageGraph.Toml
