import PageGraph.Timestamp
import PageGraph.Json.Basic
import PageGraph.Toml.Basic

/-!
# Bare values of TOML

The values that are written without quotes and brackets: booleans, integers, numbers with a fraction or an
exponent, and dates and times. Each is a run of characters up to a blank, a bracket, a comma or another
delimiter (`takeRun`); a date may be followed by a blank and a time.

A number may be written with any number of digits. It can be held if it is an integer of 128 bits, or else does
not round to infinity (`Toml.isHeld`).
-/

namespace PageGraph.Toml

/-! ### Digits -/

/-- The digits of a run in which single underscores may stand between digits. -/
def digits? (isDigit : Char → Bool) (run : List Char) : Option (List Char) :=
  let groups := run.splitOnP (· = '_')
  if groups.all fun group => !group.isEmpty && group.all isDigit then some groups.flatten else none

/-- Digits without a zero in front of another digit. -/
def plainDigits? (run : List Char) : Option (List Char) :=
  (digits? Char.isDigit run).bind fun digits =>
    match digits with
    | '0' :: _ :: _ => none
    | _ => some digits

/-- Whether a run starts with a minus, and what is behind its sign. -/
def takeSign : List Char → Bool × List Char
  | '-' :: rest => (true, rest)
  | '+' :: rest => (false, rest)
  | run => (false, run)

/-! ### Integers -/

/-- The value of digits in a base. -/
def valueIn (base : Nat) (digits : List Char) : Nat :=
  digits.foldl (fun n c => n * base + (Json.hexValue? c).getD 0) 0

/-- Whether a character is a digit in a base up to sixteen. -/
def isDigitIn (base : Nat) (c : Char) : Bool := (Json.hexValue? c).any (· < base)

/-- A natural number in a base. -/
def based? (base : Nat) (run : List Char) : Option Int :=
  (digits? (isDigitIn base) run).map fun digits => (valueIn base digits : Int)

/-- The integer that a run says. -/
def integer? (run : List Char) : Option Int :=
  match run with
  | '0' :: 'x' :: rest => based? 16 rest
  | '0' :: 'o' :: rest => based? 8 rest
  | '0' :: 'b' :: rest => based? 2 rest
  | run =>
    let (negative, rest) := takeSign run
    (plainDigits? rest).map fun digits =>
      if negative then -(valueIn 10 digits : Int) else (valueIn 10 digits : Int)

/-- Whether an integer fits in 128 bits, with its sign or without one. -/
def fitsInteger (n : Int) : Bool := -(Nat.pow 2 127 : Int) ≤ n && n < (Nat.pow 2 128 : Int)

/-! ### Numbers with a fraction or an exponent -/

/-- Whether `digits` · 10 ^ `exponent` rounds to infinity: it is at least halfway from the greatest number of
64 bits to the next power of two. -/
def isTooLarge (digits : List Char) (exponent : Int) : Bool :=
  let significant := digits.dropWhile (· = '0')
  let value := valueIn 10 significant
  let magnitude : Int := significant.length + exponent
  if value = 0 ∨ magnitude < 300 then false
  else if 400 < magnitude then true
  else if 0 ≤ exponent then Nat.pow 2 1024 - Nat.pow 2 970 ≤ value * Nat.pow 10 exponent.toNat
  else (Nat.pow 2 1024 - Nat.pow 2 970) * Nat.pow 10 exponent.natAbs ≤ value

/-- The digits and the exponent of ten of a number with a fraction or an exponent, its sign left out. -/
def decimal? (run : List Char) : Option (List Char × Int) := do
  let (_, rest) := takeSign run
  let isExponentMark (c : Char) : Bool := c = 'e' || c = 'E'
  let mantissa := rest.takeWhile (!isExponentMark ·)
  let exponent := rest.dropWhile (!isExponentMark ·)
  let whole := mantissa.takeWhile (· ≠ '.')
  let fraction := mantissa.dropWhile (· ≠ '.')
  guard (!fraction.isEmpty || !exponent.isEmpty)
  let wholeDigits ← plainDigits? whole
  let fractionDigits ← if fraction.isEmpty then some [] else digits? Char.isDigit (fraction.drop 1)
  let power ←
    if exponent.isEmpty then some (0 : Int)
    else
      let (negative, digits) := takeSign (exponent.drop 1)
      (digits? Char.isDigit digits).map fun digits =>
        if negative then -(valueIn 10 digits : Int) else (valueIn 10 digits : Int)
  return (wholeDigits ++ fractionDigits, power - fractionDigits.length)

/-- Whether a run says infinity or that it is no number. -/
def isSpecial (run : List Char) : Bool :=
  let (_, rest) := takeSign run
  rest = ['i', 'n', 'f'] || rest = ['n', 'a', 'n']

/-- Whether a run says a number with a fraction or an exponent. -/
def isFloat (run : List Char) : Bool := isSpecial run || (decimal? run).isSome

/-- Whether a number with a fraction or an exponent does not round to infinity, unless it says so. -/
def fitsFloat (run : List Char) : Bool := (decimal? run).all fun (digits, exponent) => !isTooLarge digits exponent

/-! ### Dates and times -/

/-- Whether a run is a date: a year of four digits, a month and a day of the calendar. -/
def isDate : List Char → Bool
  | [y₁, y₂, y₃, y₄, '-', m₁, m₂, '-', d₁, d₂] =>
    [y₁, y₂, y₃, y₄, m₁, m₂, d₁, d₂].all Char.isDigit &&
      Date.isValid ⟨valueIn 10 [y₁, y₂, y₃, y₄], valueIn 10 [m₁, m₂], valueIn 10 [d₁, d₂]⟩
  | _ => false

/-- Two digits that say less than `bound`. -/
def isBelow (bound : Nat) (a b : Char) : Bool := a.isDigit && b.isDigit && valueIn 10 [a, b] < bound

/-- The rest of a run behind a time: hours and minutes, seconds if they are there, and a fraction of them. -/
def afterTime? : List Char → Option (List Char)
  | h₁ :: h₂ :: ':' :: m₁ :: m₂ :: rest =>
    if isBelow 24 h₁ h₂ && isBelow 60 m₁ m₂ then
      match rest with
      | ':' :: s₁ :: s₂ :: rest =>
        if isBelow 61 s₁ s₂ then
          match rest with
          | '.' :: rest =>
            if (rest.takeWhile Char.isDigit).isEmpty then none else some (rest.dropWhile Char.isDigit)
          | rest => some rest
        else none
      | rest => some rest
    else none
  | _ => none

/-- Whether a run is an offset from UTC, or nothing. -/
def isOffset : List Char → Bool
  | [] => true
  | ['Z'] => true
  | ['z'] => true
  | [sign, h₁, h₂, ':', m₁, m₂] => (sign = '+' || sign = '-') && isBelow 24 h₁ h₂ && isBelow 60 m₁ m₂
  | _ => false

/-- Whether a run is a time without an offset. -/
def isTime (run : List Char) : Bool := afterTime? run = some []

/-- Whether a run is a date and a time, with or without an offset. -/
def isDateAndTime (run : List Char) : Bool :=
  isDate (run.take 10) &&
    match run.drop 10 with
    | separator :: rest =>
      (separator = 'T' || separator = 't' || separator = ' ') && (afterTime? rest).any isOffset
    | [] => false

/-- Whether a run is a date, a time or both. -/
def isDateTime (run : List Char) : Bool := isDate run || isTime run || isDateAndTime run

/-! ### Runs -/

/-- Whether a character can stand in a bare value. -/
def isRunChar (c : Char) : Bool := c.isAlphanum || c = '_' || c = '-' || c = '+' || c = '.' || c = ':'

/-- The run at the head of a text, and the text behind it. A blank between a date and a digit belongs to it. -/
def takeRun (text : List Char) : List Char × List Char :=
  let run := text.takeWhile isRunChar
  let rest := text.dropWhile isRunChar
  match rest with
  | ' ' :: c :: behind =>
    if isDate run && c.isDigit then
      (run ++ ' ' :: (c :: behind).takeWhile isRunChar, (c :: behind).dropWhile isRunChar)
    else (run, rest)
  | _ => (run, rest)

/-- The value that a run says. -/
def ofRun? (run : List Char) : Option Toml :=
  if run = "true".toList then some (.boolean true)
  else if run = "false".toList then some (.boolean false)
  else if isDateTime run then some (.dateTime run)
  else
    match integer? run with
    | some n => some (.integer n)
    | none => if isFloat run then some (.float run) else none

/-! ### Numbers that can be held -/

mutual

/-- Whether every number in a value can be held. -/
def isHeld : Toml → Bool
  | .integer n => fitsInteger n
  | .float literal => fitsFloat literal
  | .array items => areHeld items
  | .table entries => entriesAreHeld entries
  | .string _ | .boolean _ | .dateTime _ => true

/-- Whether every number in several values can be held. -/
def areHeld : List Toml → Bool
  | [] => true
  | value :: values => isHeld value && areHeld values

/-- Whether every number in the entries of a table can be held. -/
def entriesAreHeld : List (String × Toml) → Bool
  | [] => true
  | (_, value) :: entries => isHeld value && entriesAreHeld entries

end

end PageGraph.Toml
