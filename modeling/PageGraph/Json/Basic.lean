import PageGraph.Text.Decimal

/-!
# JSON values

A value keeps its numbers and strings as they are written: a number is a literal, a string the text between
its quotes with the escapes still in it. Nothing is lost by reading a value, and what a literal stands for is
decided by who asks: `Json.nat?` takes a number without sign, fraction and exponent, `Json.text?` a string
without a lone surrogate.

A character is written into a literal as it is or by an escape, and there is more than one escape for some: `Spells`
says how a unit may be written, and a literal is read unit by unit whichever way was chosen. `unescape?_escape` says
that a written string is read back.
-/

namespace PageGraph

/-- A JSON value, with its literals as written. -/
inductive Json where
  | null
  | bool (value : Bool)
  | number (literal : List Char)
  | string (literal : List Char)
  | array (items : List Json)
  | object (members : List (List Char × Json))
  deriving Repr, Inhabited

namespace Json

/-! ### Strings -/

/-- The value of a hexadecimal digit, in either letter case. -/
def hexValue? (c : Char) : Option Nat :=
  if c.isDigit then some (c.toNat - 0x30)
  else if 'a' ≤ c ∧ c ≤ 'f' then some (c.toNat - 0x57)
  else if 'A' ≤ c ∧ c ≤ 'F' then some (c.toNat - 0x37)
  else none

/-- The character of a hexadecimal digit, in lower case. -/
def hexDigit (n : Nat) : Char := if n % 16 < 10 then Char.ofNat (0x30 + n % 16) else Char.ofNat (0x57 + n % 16)

/-- The character that a short escape stands for, by its letter. -/
def shortEscape? : Char → Option Char
  | '"' => some '"'
  | '\\' => some '\\'
  | '/' => some '/'
  | 'b' => some (Char.ofNat 0x08)
  | 'f' => some (Char.ofNat 0x0C)
  | 'n' => some '\n'
  | 'r' => some '\r'
  | 't' => some '\t'
  | _ => none

/-- A character as it is written in a string: the quote, the backslash and control characters escaped. -/
def escapeChar (c : Char) : List Char :=
  if c = '"' ∨ c = '\\' then ['\\', c]
  else if c.toNat = 0x08 then ['\\', 'b']
  else if c.toNat = 0x0C then ['\\', 'f']
  else if c = '\n' then ['\\', 'n']
  else if c = '\r' then ['\\', 'r']
  else if c = '\t' then ['\\', 't']
  else if c.toNat < 0x20 then ['\\', 'u', '0', '0', hexDigit (c.toNat / 16), hexDigit c.toNat]
  else [c]

/-- A text as it is written between quotes. -/
def escape (text : List Char) : List Char := text.flatMap escapeChar

/-- A unit of a string literal: a character, or the 16-bit code of a long escape. -/
inductive StringUnit where
  | char (c : Char)
  | code (n : Nat)
  deriving DecidableEq, Repr

/-- The number of a long escape, by its four digits. -/
def longEscape? (a b c d : Char) : Option Nat := do
  return (← hexValue? a) * 4096 + (← hexValue? b) * 256 + (← hexValue? c) * 16 + (← hexValue? d)

/-- The units of a string literal. -/
def units? : List Char → Option (List StringUnit)
  | [] => some []
  | '\\' :: 'u' :: a :: b :: c :: d :: rest =>
    (longEscape? a b c d).bind fun n => (units? rest).map (.code n :: ·)
  | '\\' :: e :: rest => (shortEscape? e).bind fun c => (units? rest).map (.char c :: ·)
  | c :: rest => if c = '\\' then none else (units? rest).map (.char c :: ·)

/-- The text of string units: a high and a low surrogate make one character, and neither stands alone. -/
def textOfUnits? : List StringUnit → Option (List Char)
  | [] => some []
  | .char c :: rest => (textOfUnits? rest).map (c :: ·)
  | .code n :: rest =>
    if 0xD800 ≤ n ∧ n ≤ 0xDBFF then
      match rest with
      | .code m :: rest =>
        if 0xDC00 ≤ m ∧ m ≤ 0xDFFF then
          (textOfUnits? rest).map (Char.ofNat (0x10000 + (n - 0xD800) * 0x400 + (m - 0xDC00)) :: ·)
        else none
      | _ => none
    else if 0xDC00 ≤ n ∧ n ≤ 0xDFFF then none
    else (textOfUnits? rest).map (Char.ofNat n :: ·)

/-- The text that a string literal stands for. -/
def unescape? (literal : List Char) : Option (List Char) := (units? literal).bind textOfUnits?

/-! ### Values of the usual types -/

/-- The string of a text. -/
def ofString (text : String) : Json := .string (escape text.toList)

/-- The number of a natural number. -/
def ofNat (n : Nat) : Json := .number (Text.Decimal.digits n)

/-- The text of a string. -/
def text? : Json → Option String
  | .string literal => (unescape? literal).map String.ofList
  | _ => none

/-- A number that is written in digits only and fits in 64 bits. -/
def nat? : Json → Option Nat
  | .number literal =>
    if literal.all Char.isDigit && Text.Decimal.value literal < UInt64.size then
      some (Text.Decimal.value literal)
    else none
  | _ => none

/-! ### Reading back -/

theorem hexValue?_hexDigit (n : Nat) : hexValue? (hexDigit n) = some (n % 16) := by
  have h : ∀ m, m < 16 → hexValue? (hexDigit m) = some m := by decide
  have := h (n % 16) (Nat.mod_lt _ (by decide))
  simpa [hexDigit] using this

/-- The unit that a written character is read as: a long escape is written only for a control character. -/
def unitOf (c : Char) : StringUnit :=
  if c.toNat < 0x20 ∧ c.toNat ≠ 0x08 ∧ c.toNat ≠ 0x0C ∧ c ≠ '\n' ∧ c ≠ '\r' ∧ c ≠ '\t' then .code c.toNat
  else .char c

/-- The ways to write a unit into a string literal. -/
inductive Spells : StringUnit → List Char → Prop
  /-- A character as it is. -/
  | plain {c : Char} (hquote : c ≠ '"') (hbackslash : c ≠ '\\') (hcontrol : ¬c.toNat < 0x20) : Spells (.char c) [c]
  /-- A character by its letter. -/
  | short {c e : Char} (h : shortEscape? e = some c) : Spells (.char c) ['\\', e]
  /-- A code by its four digits. -/
  | long {a b c d : Char} {n : Nat} (h : longEscape? a b c d = some n) : Spells (.code n) ['\\', 'u', a, b, c, d]

/-- The letter of a long escape is none of the letters that stand for a character. -/
theorem ne_u_of_shortEscape? {c e : Char} (h : shortEscape? e = some c) : e ≠ 'u' := by
  rintro rfl
  cases h

/-- A character is written in one of these ways. -/
theorem spells_escapeChar (c : Char) : Spells (unitOf c) (escapeChar c) := by
  unfold escapeChar
  split
  next h => rcases h with rfl | rfl <;> exact .short rfl
  next hescape =>
  rw [not_or] at hescape
  split
  next h =>
    obtain rfl : c = Char.ofNat 0x08 := Char.toNat_inj.1 h
    exact .short rfl
  next hback =>
  split
  next h =>
    obtain rfl : c = Char.ofNat 0x0C := Char.toNat_inj.1 h
    exact .short rfl
  next hfeed =>
  split
  next h => subst h; exact .short rfl
  next hn =>
  split
  next h => subst h; exact .short rfl
  next hr =>
  split
  next h => subst h; exact .short rfl
  next ht =>
  split
  next hcontrol =>
    have hzero : hexValue? '0' = some 0 := by decide
    rw [unitOf, if_pos ⟨hcontrol, hback, hfeed, hn, hr, ht⟩]
    refine .long ?_
    simp [longEscape?, hzero, hexValue?_hexDigit]
    omega
  next hcontrol =>
    rw [unitOf, if_neg fun h => hcontrol h.1]
    exact .plain hescape.1 hescape.2 hcontrol

/-- A spelled unit is the first one that is read. -/
theorem units?_append {unit : StringUnit} {spelling : List Char} (h : Spells unit spelling) (rest : List Char) :
    units? (spelling ++ rest) = (units? rest).map (unit :: ·) := by
  cases h with
  | plain _ hbackslash => simp [units?, hbackslash]
  | short h => simp [units?, ne_u_of_shortEscape? h, h]
  | long h => simp [units?, h]

theorem escape_cons (c : Char) (text : List Char) : escape (c :: text) = escapeChar c ++ escape text := rfl

theorem units?_escape (text : List Char) : units? (escape text) = some (text.map unitOf) := by
  induction text with
  | nil => rfl
  | cons c text ih => rw [escape_cons, units?_append (spells_escapeChar c), ih, Option.map_some, List.map_cons]

theorem textOfUnits?_unitOf (c : Char) (units : List StringUnit) :
    textOfUnits? (unitOf c :: units) = (textOfUnits? units).map (c :: ·) := by
  unfold unitOf
  split
  · next h =>
    -- the code of a control character is no surrogate
    rw [textOfUnits?.eq_def]
    simp only
    rw [if_neg (by omega), if_neg (by omega), Char.ofNat_toNat]
  · rw [textOfUnits?]

theorem textOfUnits?_map_unitOf (text : List Char) : textOfUnits? (text.map unitOf) = some text := by
  induction text with
  | nil => rfl
  | cons c text ih => rw [List.map_cons, textOfUnits?_unitOf, ih, Option.map_some]

/-- **A written string is read back.** -/
theorem unescape?_escape (text : List Char) : unescape? (escape text) = some text := by
  rw [unescape?, units?_escape, Option.bind_some, textOfUnits?_map_unitOf]

end Json

end PageGraph
