import PageGraph.Text.Utf8
import PageGraph.Proofs.Lists

/-!
# Reading what was encoded

The decoder reads the octets of a text as that text. A character is read octet by octet: the first octet says how many
more are owed and in which range the next one lies, and the octets of a character keep to it, since no character is a
surrogate or written longer than it must be.

* `piecesFrom_encodeChar` : the octets of one character are read as one piece;
* `decode?_encode`, `decodeLossy_encode` : a whole text;
* `decodeLossy_append_slash` : octets on both sides of a slash, malformed or not.
-/

namespace PageGraph.Text.Utf8

/-! ### One octet -/

/-- An octet that is the first of several. -/
theorem piecesFrom_opens {octet : UInt8} {opened : Partial} (h : lead octet = .opens opened) (rest : List UInt8) :
    piecesFrom none (octet :: rest) = piecesFrom (some opened) rest := by
  simp [piecesFrom, step, start, h]

/-- An octet inside a character. -/
theorem piecesFrom_more {octet : UInt8} {owed low high bits : Nat} (hlow : low ≤ octet.toNat)
    (hhigh : octet.toNat ≤ high) (rest : List UInt8) :
    piecesFrom (some ⟨owed + 2, low, high, bits⟩) (octet :: rest) =
      piecesFrom (some ⟨owed + 1, 0x80, 0xBF, bits * 64 + (octet.toNat - 0x80)⟩) rest := by
  simp [piecesFrom, step, hlow, hhigh]

/-- The last octet of a character. -/
theorem piecesFrom_last {octet : UInt8} {low high bits : Nat} (hlow : low ≤ octet.toNat) (hhigh : octet.toNat ≤ high)
    (rest : List UInt8) :
    piecesFrom (some ⟨1, low, high, bits⟩) (octet :: rest) =
      some (Char.ofNat (bits * 64 + (octet.toNat - 0x80))) :: piecesFrom none rest := by
  simp [piecesFrom, step, hlow, hhigh]

theorem toNat_ofNat {n : Nat} (h : n < 256) : (UInt8.ofNat n).toNat = n := by
  rw [UInt8.toNat_ofNat', Nat.mod_eq_of_lt h]

/-! ### First octets -/

theorem lead_whole {n : Nat} (h : n ≤ 0x7F) : lead (UInt8.ofNat n) = .whole (Char.ofNat n) := by
  simp only [lead, toNat_ofNat (show n < 256 by omega), if_pos h]

theorem lead_two {n : Nat} (hlow : 0xC2 ≤ n) (hhigh : n ≤ 0xDF) :
    lead (UInt8.ofNat n) = .opens ⟨1, 0x80, 0xBF, n - 0xC0⟩ := by
  simp only [lead, toNat_ofNat (show n < 256 by omega)]
  rw [if_neg (by omega), if_pos ⟨hlow, hhigh⟩]

/-- The first of three octets. After the least of them the next is not too small, after that of the surrogates
not too great. -/
theorem lead_three {n : Nat} (hlow : 0xE0 ≤ n) (hhigh : n ≤ 0xEF) :
    lead (UInt8.ofNat n) =
      .opens ⟨2, if n = 0xE0 then 0xA0 else 0x80, if n = 0xED then 0x9F else 0xBF, n - 0xE0⟩ := by
  simp only [lead, toNat_ofNat (show n < 256 by omega)]
  rw [if_neg (by omega), if_neg (by omega)]
  by_cases hleast : n = 0xE0
  · subst hleast
    rfl
  · by_cases hsurrogate : n = 0xED
    · subst hsurrogate
      rfl
    · rw [if_neg hleast, if_neg hsurrogate, if_pos (by omega), if_neg hleast, if_neg hsurrogate]

/-- The first of four octets. -/
theorem lead_four {n : Nat} (hlow : 0xF0 ≤ n) (hhigh : n ≤ 0xF4) :
    lead (UInt8.ofNat n) =
      .opens ⟨3, if n = 0xF0 then 0x90 else 0x80, if n = 0xF4 then 0x8F else 0xBF, n - 0xF0⟩ := by
  simp only [lead, toNat_ofNat (show n < 256 by omega)]
  rw [if_neg (by omega), if_neg (by omega), if_neg (by omega), if_neg (by omega), if_neg (by omega)]
  by_cases hleast : n = 0xF0
  · subst hleast
    rfl
  · by_cases hgreatest : n = 0xF4
    · subst hgreatest
      rfl
    · rw [if_neg hleast, if_pos (by omega), if_neg hleast, if_neg hgreatest]

/-! ### Texts -/

/-- The octets of a character are read as that character, whatever follows. -/
theorem piecesFrom_encodeChar (c : Char) (rest : List UInt8) :
    piecesFrom none (encodeChar c ++ rest) = some c :: piecesFrom none rest := by
  obtain ⟨n, hn⟩ : ∃ n, n = c.toNat := ⟨_, rfl⟩
  have hc : Char.ofNat n = c := by rw [hn, Char.ofNat_toNat]
  have hvalid : n < 0xD800 ∨ 0xDFFF < n ∧ n < 0x110000 := hn ▸ c.valid
  rw [encodeChar, ← hn]
  -- one case for each number of octets
  by_cases hone : n ≤ 0x7F
  · rw [if_pos hone, List.singleton_append, piecesFrom]
    simp [step, start, lead_whole hone, hc]
  rw [if_neg hone]
  by_cases htwo : n ≤ 0x7FF
  · have hlast : (UInt8.ofNat (0x80 + n % 64)).toNat = 0x80 + n % 64 := toNat_ofNat (by omega)
    rw [if_pos htwo, List.cons_append, List.singleton_append, piecesFrom_opens (lead_two (by omega) (by omega)),
      piecesFrom_last (by omega) (by omega), hlast]
    rw [show (0xC0 + n / 64 - 0xC0) * 64 + (0x80 + n % 64 - 0x80) = n by omega, hc]
  rw [if_neg htwo]
  have hlast : (UInt8.ofNat (0x80 + n % 64)).toNat = 0x80 + n % 64 := toNat_ofNat (by omega)
  have hmiddle : (UInt8.ofNat (0x80 + n / 64 % 64)).toNat = 0x80 + n / 64 % 64 := toNat_ofNat (by omega)
  by_cases hthree : n ≤ 0xFFFF
  · rw [if_pos hthree, List.cons_append, List.cons_append, List.singleton_append,
      piecesFrom_opens (lead_three (by omega) (by omega)),
      piecesFrom_more (by rw [hmiddle]; split <;> omega) (by rw [hmiddle]; split <;> omega),
      piecesFrom_last (by omega) (by omega), hlast, hmiddle]
    rw [show ((0xE0 + n / 4096 - 0xE0) * 64 + (0x80 + n / 64 % 64 - 0x80)) * 64 + (0x80 + n % 64 - 0x80) = n by omega, hc]
  · have hsecond : (UInt8.ofNat (0x80 + n / 4096 % 64)).toNat = 0x80 + n / 4096 % 64 := toNat_ofNat (by omega)
    rw [if_neg hthree, List.cons_append, List.cons_append, List.cons_append, List.singleton_append,
      piecesFrom_opens (lead_four (by omega) (by omega)),
      piecesFrom_more (by rw [hsecond]; split <;> omega) (by rw [hsecond]; split <;> omega),
      piecesFrom_more (by omega) (by omega), piecesFrom_last (by omega) (by omega), hlast, hmiddle, hsecond]
    rw [show (((0xF0 + n / 262144 - 0xF0) * 64 + (0x80 + n / 4096 % 64 - 0x80)) * 64 + (0x80 + n / 64 % 64 - 0x80)) * 64 +
      (0x80 + n % 64 - 0x80) = n by omega, hc]

theorem pieces_encode (text : List Char) : pieces (encode text) = text.map some := by
  induction text with
  | nil => rfl
  | cons c text ih =>
    rw [encode, List.flatMap_cons, pieces, piecesFrom_encodeChar, List.map_cons]
    exact congrArg _ ih

/-- **An encoded text is read back.** -/
theorem decode?_encode (text : List Char) : decode? (encode text) = some text := by
  rw [decode?, pieces_encode]
  exact mapM_map_eq_some fun _ _ => rfl

theorem decodeLossy_encode (text : List Char) : decodeLossy (encode text) = text := by
  rw [decodeLossy, pieces_encode, List.map_map]
  exact List.map_id text

theorem encode_injective : Function.Injective encode := Function.LeftInverse.injective decodeLossy_encode

/-! ### Octets on both sides of a slash -/

/-- No octet below 0x80 goes on with a character that has begun. -/
def IsOwing (state : Option Partial) : Prop := ∀ begun, state = some begun → 0x80 ≤ begun.low

theorem low_of_lead {octet : UInt8} {begun : Partial} (h : lead octet = .opens begun) : 0x80 ≤ begun.low := by
  simp only [lead] at h
  split_ifs at h <;> cases h <;> exact Nat.le_of_ble_eq_true rfl

theorem isOwing_start (octet : UInt8) : IsOwing (start octet).2 := by
  intro begun h
  rw [start] at h
  split at h
  · cases h
  · next hlead =>
    obtain rfl := Option.some.inj h
    exact low_of_lead hlead
  · cases h

theorem isOwing_step {state : Option Partial} (h : IsOwing state) (octet : UInt8) : IsOwing (step state octet).2 := by
  cases state with
  | none => exact isOwing_start octet
  | some begun =>
    rw [step]
    split
    · intro next hnext
      dsimp only at hnext
      split at hnext
      · cases hnext
      · obtain rfl := Option.some.inj hnext
        exact Nat.le_refl _
    · exact isOwing_start octet

theorem piecesFrom_cons (state : Option Partial) (octet : UInt8) (rest : List UInt8) :
    piecesFrom state (octet :: rest) = (step state octet).1 ++ piecesFrom (step state octet).2 rest := by
  cases state <;> rfl

/-- A slash ends whatever has begun before it. -/
theorem piecesFrom_append_slash {state : Option Partial} (h : IsOwing state) (before rest : List UInt8) :
    piecesFrom state (before ++ 47 :: rest) = piecesFrom state before ++ some '/' :: piecesFrom none rest := by
  induction before generalizing state with
  | nil =>
    rw [List.nil_append, piecesFrom_cons]
    cases state with
    | none => rfl
    | some begun =>
      have hlow : ¬(begun.low ≤ (47 : UInt8).toNat ∧ (47 : UInt8).toNat ≤ begun.high) := by
        have howing := h begun rfl
        have hvalue : (47 : UInt8).toNat = 47 := rfl
        omega
      have hstep : step (some begun) 47 = ([none, some '/'], none) := by
        rw [step, if_neg hlow]
        rfl
      rw [hstep]
      rfl
  | cons octet before ih =>
    rw [List.cons_append, piecesFrom_cons, piecesFrom_cons, ih (isOwing_step h octet), List.append_assoc]

/-- A character broken off in front of a slash is one malformed part, and a stray octet is one behind it. -/
example : pieces [0xE2, 0x82, 47, 0x61, 0xFF] = [none, some '/', some 'a', none] := by decide

/-- Octets on both sides of a slash are read apart, whether they are well-formed or not. -/
theorem decodeLossy_append_slash (before rest : List UInt8) :
    decodeLossy (before ++ 47 :: rest) = decodeLossy before ++ '/' :: decodeLossy rest := by
  have hbetween : IsOwing none := by
    intro begun h
    cases h
  rw [decodeLossy, pieces, piecesFrom_append_slash hbetween, List.map_append, List.map_cons]
  rfl

end PageGraph.Text.Utf8
