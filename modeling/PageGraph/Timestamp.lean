import PageGraph.Text.Blank
import PageGraph.Text.Decimal

/-!
# Points in time

The times of a file, in UTC, as RFC 3339 writes them. A point in time is a day of the Gregorian calendar, a
minute of that day, a second of that minute and nanoseconds; second 60 is a leap second, which is kept.

Reading (`Timestamp.ofText?`) is generous in form: blanks may stand between the parts, the day and the time may
be set apart by `T`, `t` or a blank, a part may have fewer digits, and years of more than four digits carry a
sign. The offset is required, and the time is moved to UTC by it; an offset is less than a day, so the day
moves by one at most. Digits of a second beyond the ninth are dropped. Writing (`Timestamp.toText`) has one form, with
0, 3, 6 or 9 digits of a second, as few as say it exactly.
-/

namespace PageGraph

/-- A day of the Gregorian calendar, which is taken to hold for all years. -/
structure Date where
  year : Int
  month : Nat
  day : Nat
  deriving DecidableEq, Repr

namespace Date

/-- Whether a year has a 29th of February. -/
def isLeap (year : Int) : Bool := (year % 4 = 0 && year % 100 ≠ 0) || year % 400 = 0

/-- The number of days of a month. -/
def daysIn (year : Int) (month : Nat) : Nat :=
  if month = 2 then (if isLeap year then 29 else 28)
  else if month = 4 ∨ month = 6 ∨ month = 9 ∨ month = 11 then 30
  else 31

/-- The first and the last year that a date may have. -/
def firstYear : Int := -262143

@[inherit_doc firstYear]
def lastYear : Int := 262142

/-- Whether a date is one of the calendar, in a year that a date may have. -/
def isValid (date : Date) : Bool :=
  firstYear ≤ date.year && date.year ≤ lastYear && 1 ≤ date.month && date.month ≤ 12 && 1 ≤ date.day &&
    date.day ≤ daysIn date.year date.month

/-- The day after. -/
def next (date : Date) : Date :=
  if date.day < daysIn date.year date.month then { date with day := date.day + 1 }
  else if date.month < 12 then { date with month := date.month + 1, day := 1 }
  else ⟨date.year + 1, 1, 1⟩

/-- The day before. -/
def previous (date : Date) : Date :=
  if 1 < date.day then { date with day := date.day - 1 }
  else if 1 < date.month then { date with month := date.month - 1, day := daysIn date.year (date.month - 1) }
  else ⟨date.year - 1, 12, 31⟩

/-- The date a number of days after the first of January 1970. Days are counted from the first of March of the
year 0, so that a leap day ends its year, in cycles of 400 years, which have 146097 days. -/
def ofEpochDay (day : Int) : Date :=
  let count := day + 719468
  let cycle := count / 146097
  let ofCycle := count % 146097
  let year := (ofCycle - ofCycle / 1460 + ofCycle / 36524 - ofCycle / 146096) / 365
  let ofYear := ofCycle - (365 * year + year / 4 - year / 100)
  let march := (5 * ofYear + 2) / 153
  let month := if march < 10 then march + 3 else march - 9
  { year := year + cycle * 400 + (if month ≤ 2 then 1 else 0)
    month := month.toNat
    day := (ofYear - (153 * march + 2) / 5 + 1).toNat }

/-- A year in four digits, or with its sign when it has not four. -/
def yearText (year : Int) : List Char :=
  if 0 ≤ year ∧ year ≤ 9999 then Text.Decimal.padded 4 year.toNat
  else
    (if year < 0 then '-' else '+') ::
      (if year.natAbs ≤ 9999 then Text.Decimal.padded 4 year.natAbs else Text.Decimal.digits year.natAbs)

end Date

/-- A point in time, in UTC. -/
structure Timestamp where
  date : Date
  /-- The minute of the day, below 1440. -/
  minute : Nat
  /-- The second of the minute, at most 60. -/
  second : Nat
  /-- The nanosecond of the second, below 10⁹. -/
  nanosecond : Nat
  /-- Each part is in its range. -/
  inRange : date.isValid ∧ minute < 1440 ∧ second ≤ 60 ∧ nanosecond < 1000000000
  deriving DecidableEq, Repr

namespace Timestamp

/-- The point in time with some parts, if each of them is in its range. -/
def of? (date : Date) (minute second nanosecond : Nat) : Option Timestamp :=
  if inRange : date.isValid ∧ minute < 1440 ∧ second ≤ 60 ∧ nanosecond < 1000000000 then
    some { date, minute, second, nanosecond, inRange }
  else none

/-- The point in time a number of seconds and nanoseconds after the beginning of 1970. -/
def ofEpoch? (seconds : Int) (nanosecond : Nat) : Option Timestamp :=
  let ofDay := (seconds % 86400).toNat
  of? (.ofEpochDay (seconds / 86400)) (ofDay / 60) (ofDay % 60) nanosecond

/-! ### Writing -/

/-- The digits of a second behind the point, as few as say it exactly of 0, 3, 6 and 9. -/
def fractionText (nanosecond : Nat) : List Char :=
  if nanosecond = 0 then []
  else if nanosecond % 1000000 = 0 then '.' :: Text.Decimal.padded 3 (nanosecond / 1000000)
  else if nanosecond % 1000 = 0 then '.' :: Text.Decimal.padded 6 (nanosecond / 1000)
  else '.' :: Text.Decimal.padded 9 nanosecond

/-- The text of a point in time. -/
def toText (time : Timestamp) : List Char :=
  Date.yearText time.date.year ++ '-' :: Text.Decimal.padded 2 time.date.month ++
    '-' :: Text.Decimal.padded 2 time.date.day ++
    'T' :: Text.Decimal.padded 2 (time.minute / 60) ++
    ':' :: Text.Decimal.padded 2 (time.minute % 60) ++
    ':' :: Text.Decimal.padded 2 time.second ++ fractionText time.nanosecond ++ ['Z']

/-! ### Reading -/

/-- A number of at most `width` digits, and the text behind it. -/
def number? (width : Nat) (text : List Char) : Option (Nat × List Char) :=
  match (text.take width).takeWhile Char.isDigit with
  | [] => none
  | digits => some (Text.Decimal.value digits, text.drop digits.length)

/-- A number behind blanks. -/
def numberPast? (width : Nat) (text : List Char) : Option (Nat × List Char) :=
  number? width (Text.trimStart text)

/-- The text behind blanks and the character `c`. -/
def past? (c : Char) (text : List Char) : Option (List Char) :=
  match Text.trimStart text with
  | [] => none
  | d :: rest => if d = c then some rest else none

/-- A year: with its sign and any number of digits, or of at most four digits. -/
def year? (text : List Char) : Option (Int × List Char) :=
  match Text.trimStart text with
  | '-' :: rest => (number? rest.length rest).map fun (n, rest) => (-(n : Int), rest)
  | '+' :: rest => (number? rest.length rest).map fun (n, rest) => ((n : Int), rest)
  | text => (number? 4 text).map fun (n, rest) => ((n : Int), rest)

/-- The nanoseconds that digits behind a point say, those beyond the ninth dropped. -/
def nanoseconds (digits : List Char) : Nat :=
  Text.Decimal.value (digits.take 9) * Nat.pow 10 (9 - digits.length)

/-- The fraction of a second, if there is a point. -/
def fraction? : List Char → Option (Nat × List Char)
  | '.' :: rest =>
    match rest.takeWhile Char.isDigit with
    | [] => none
    | digits => some (nanoseconds digits, rest.dropWhile Char.isDigit)
  | text => some (0, text)

/-- The minutes that an offset from UTC says behind its sign: two digits of hours, two of minutes, with colons
and blanks between them allowed. -/
def offsetMinutes? : List Char → Option (Nat × List Char)
  | a :: b :: rest =>
    match rest.dropWhile fun c => c = ':' || Text.isBlank c with
    | c :: d :: rest =>
      if [a, b, c, d].all Char.isDigit && c ≤ '5' then
        some (Text.Decimal.value [a, b] * 60 + Text.Decimal.value [c, d], rest)
      else none
    | _ => none
  | _ => none

/-- The offset from UTC in minutes. -/
def offset? : List Char → Option (Int × List Char)
  | 'Z' :: rest => some (0, rest)
  | 'z' :: rest => some (0, rest)
  | '+' :: rest => (offsetMinutes? rest).map fun (n, rest) => ((n : Int), rest)
  | '-' :: rest => (offsetMinutes? rest).map fun (n, rest) => (-(n : Int), rest)
  | '\u2212' :: rest => (offsetMinutes? rest).map fun (n, rest) => (-(n : Int), rest)
  | u :: t :: c :: rest => if [u, t, c].map Char.toUpper = ['U', 'T', 'C'] then some (0, rest) else none
  | _ => none

/-- The point in time that a local time with an offset names, if the offset is less than a day and the day is
one that a date may have. -/
def ofLocal? (date : Date) (minute second nanosecond : Nat) (offset : Int) : Option Timestamp :=
  if offset.natAbs < 1440 ∧ date.isValid then
    let shifted : Int := minute - offset
    let date := if shifted < 0 then date.previous else if 1440 ≤ shifted then date.next else date
    of? date (shifted % 1440).toNat second nanosecond
  else none

/-- The point in time that a text names. -/
def ofText? (text : List Char) : Option Timestamp := do
  let (year, rest) ← year? text
  let (month, rest) ← numberPast? 2 (← past? '-' rest)
  let (day, rest) ← numberPast? 2 (← past? '-' rest)
  let rest ← match rest with
    | 'T' :: rest | 't' :: rest | ' ' :: rest => some rest
    | _ => none
  let (hour, rest) ← numberPast? 2 rest
  let (minute, rest) ← numberPast? 2 (← past? ':' rest)
  let (second, rest) ← numberPast? 2 (← past? ':' rest)
  let (nanosecond, rest) ← fraction? rest
  let (offset, rest) ← offset? (Text.trimStart rest)
  if hour < 24 ∧ minute < 60 ∧ second ≤ 60 ∧ Text.trimStart rest = [] then
    ofLocal? ⟨year, month, day⟩ (hour * 60 + minute) second nanosecond offset
  else none

end Timestamp

end PageGraph
