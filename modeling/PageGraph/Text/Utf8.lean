/-!
# UTF-8

Octets and characters. The decoder is a machine that takes one octet at a time: between characters it looks
at a first octet (`lead`), inside one it knows how many octets are owed, the range of the next one and the
bits so far (`Partial`). A malformed sequence becomes one piece that is no character, as long as the octets
up to there could have begun a character; the octet that rules the sequence out is read anew.

* `pieces` is the run of the machine: a character, or `none` for each malformed sequence;
* `decode?` accepts the sequences without a malformed piece;
* `decodeLossy` writes U+FFFD for each of them;
* `encode` is the way back.
-/

namespace PageGraph.Text.Utf8

/-- A character begun: the octets still owed (at least one), the range of the next, and the bits so far. -/
structure Partial where
  owed : Nat
  low : Nat
  high : Nat
  bits : Nat
  deriving DecidableEq, Repr

/-- What a first octet may be. -/
inductive Lead where
  /-- A character of its own. -/
  | whole (c : Char)
  /-- The beginning of a longer character. -/
  | opens (p : Partial)
  /-- No character begins so. -/
  | invalid
  deriving Repr

/-- The reading of a first octet. -/
def lead (octet : UInt8) : Lead :=
  let b := octet.toNat
  if b ≤ 0x7F then .whole (Char.ofNat b)
  else if 0xC2 ≤ b ∧ b ≤ 0xDF then .opens ⟨1, 0x80, 0xBF, b - 0xC0⟩
  else if b = 0xE0 then .opens ⟨2, 0xA0, 0xBF, 0⟩
  else if b = 0xED then .opens ⟨2, 0x80, 0x9F, 0xD⟩
  else if 0xE1 ≤ b ∧ b ≤ 0xEF then .opens ⟨2, 0x80, 0xBF, b - 0xE0⟩
  else if b = 0xF0 then .opens ⟨3, 0x90, 0xBF, 0⟩
  else if 0xF1 ≤ b ∧ b ≤ 0xF3 then .opens ⟨3, 0x80, 0xBF, b - 0xF0⟩
  else if b = 0xF4 then .opens ⟨3, 0x80, 0x8F, 4⟩
  else .invalid

/-- The pieces that an octet completes between two characters, and the state behind it. -/
def start (octet : UInt8) : List (Option Char) × Option Partial :=
  match lead octet with
  | .whole c => ([some c], none)
  | .opens p => ([], some p)
  | .invalid => ([none], none)

/-- The pieces that an octet completes, and the state behind it. -/
def step (state : Option Partial) (octet : UInt8) : List (Option Char) × Option Partial :=
  match state with
  | none => start octet
  | some p =>
    if p.low ≤ octet.toNat ∧ octet.toNat ≤ p.high then
      let bits := p.bits * 64 + (octet.toNat - 0x80)
      if p.owed ≤ 1 then ([some (Char.ofNat bits)], none) else ([], some ⟨p.owed - 1, 0x80, 0xBF, bits⟩)
    else (none :: (start octet).1, (start octet).2)

/-- The pieces of an octet sequence, from inside a character or from between two. -/
def piecesFrom : Option Partial → List UInt8 → List (Option Char)
  | none, [] => []
  | some _, [] => [none]
  | state, octet :: rest =>
    let (done, next) := step state octet
    done ++ piecesFrom next rest

/-- The characters of an octet sequence, `none` standing for each malformed part. -/
def pieces (octets : List UInt8) : List (Option Char) := piecesFrom none octets

/-- The text of a well-formed octet sequence. -/
def decode? (octets : List UInt8) : Option (List Char) := (pieces octets).mapM id

/-- The text of an octet sequence, with U+FFFD for each malformed part. -/
def decodeLossy (octets : List UInt8) : List Char :=
  (pieces octets).map fun piece => piece.getD (Char.ofNat 0xFFFD)

/-- The octets of a character. -/
def encodeChar (c : Char) : List UInt8 :=
  let n := c.toNat
  if n ≤ 0x7F then [UInt8.ofNat n]
  else if n ≤ 0x7FF then [UInt8.ofNat (0xC0 + n / 64), UInt8.ofNat (0x80 + n % 64)]
  else if n ≤ 0xFFFF then
    [UInt8.ofNat (0xE0 + n / 4096), UInt8.ofNat (0x80 + n / 64 % 64), UInt8.ofNat (0x80 + n % 64)]
  else
    [UInt8.ofNat (0xF0 + n / 262144), UInt8.ofNat (0x80 + n / 4096 % 64),
      UInt8.ofNat (0x80 + n / 64 % 64), UInt8.ofNat (0x80 + n % 64)]

/-- The octets of a text. -/
def encode (text : List Char) : List UInt8 := text.flatMap encodeChar

end PageGraph.Text.Utf8
