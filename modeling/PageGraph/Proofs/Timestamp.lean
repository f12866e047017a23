import PageGraph.Timestamp
import Mathlib.Data.Nat.Notation

/-!
# Written times are read back

Writing a point in time has one form out of the many that are read. In that form every part has as many digits as
reading takes at most and is followed by something else, no blanks stand between the parts, and the offset is none.
So reading takes each part as it was written and moves nothing.

Main statement: `Timestamp.ofText?_toText`.
-/

namespace PageGraph

open Text

namespace Timestamp

/-! ### Digits and what follows them -/

theorem isBlank_of_isDigit {c : Char} (h : c.isDigit = true) : isBlank c = false := by
  have hrange : 0x30 ≤ c.toNat ∧ c.toNat ≤ 0x39 := by
    simp only [Char.isDigit, ge_iff_le, Bool.and_eq_true, decide_eq_true_eq, UInt32.le_iff_toNat_le] at h
    exact h
  simp [isBlank, blankRanges]
  omega

/-- A text that does not go on a number in front of it, and does not start with a blank. -/
def EndsDigits (text : List Char) : Prop := ∀ c ∈ text.head?, c.isDigit = false ∧ isBlank c = false

/-- The separators between the parts end the part in front of them. -/
theorem endsDigits_separator {c : Char} (hc : c ∈ ['-', 'T', ':', '.', 'Z']) (text : List Char) :
    EndsDigits (c :: text) := by
  intro d hd
  obtain rfl := Option.some.inj hd
  simp only [List.mem_cons, List.not_mem_nil, or_false] at hc
  rcases hc with rfl | rfl | rfl | rfl | rfl <;> decide

theorem takeWhile_isDigit_append {digits rest : List Char} (hdigits : ∀ c ∈ digits, c.isDigit = true)
    (hrest : EndsDigits rest) : (digits ++ rest).takeWhile Char.isDigit = digits := by
  have hends : rest.takeWhile Char.isDigit = [] := by
    cases rest with
    | nil => rfl
    | cons c rest => simp [(hrest c rfl).1]
  rw [List.takeWhile_append_of_pos hdigits, hends, List.append_nil]

theorem dropWhile_isDigit_append {digits rest : List Char} (hdigits : ∀ c ∈ digits, c.isDigit = true)
    (hrest : EndsDigits rest) : (digits ++ rest).dropWhile Char.isDigit = rest := by
  rw [List.dropWhile_append_of_pos hdigits]
  cases rest with
  | nil => rfl
  | cons c rest => simp [(hrest c rfl).1]

theorem trimStart_cons {c : Char} (h : isBlank c = false) (text : List Char) :
    trimStart (c :: text) = c :: text := by
  rw [trimStart, List.dropWhile_cons_of_neg (by simp [h])]

theorem trimStart_append {digits : List Char} (hne : digits ≠ []) (hdigits : ∀ c ∈ digits, c.isDigit = true)
    (rest : List Char) : trimStart (digits ++ rest) = digits ++ rest := by
  obtain ⟨c, more, rfl⟩ := List.exists_cons_of_ne_nil hne
  exact trimStart_cons (isBlank_of_isDigit (hdigits c List.mem_cons_self)) _

/-! ### Parts -/

/-- A number is taken whole if it has no more digits than are taken. -/
theorem number?_append {width : ℕ} {digits rest : List Char} (hne : digits ≠ [])
    (hdigits : ∀ c ∈ digits, c.isDigit = true) (hwidth : digits.length ≤ width) (hrest : EndsDigits rest) :
    number? width (digits ++ rest) = some (Decimal.value digits, rest) := by
  have htake : ((digits ++ rest).take width).takeWhile Char.isDigit = digits := by
    rw [← List.take_takeWhile, takeWhile_isDigit_append hdigits hrest, List.take_of_length_le hwidth]
  rw [number?, htake]
  split
  · exact absurd rfl hne
  · rw [List.drop_left]

theorem padded_ne_nil {width : ℕ} (hwidth : 0 < width) (n : ℕ) : Decimal.padded width n ≠ [] := by
  rw [← List.length_pos_iff, Decimal.length_padded]
  exact hwidth

theorem number?_padded {width n : ℕ} (hwidth : 0 < width) (hn : n < Nat.pow 10 width) {rest : List Char}
    (hrest : EndsDigits rest) : number? width (Decimal.padded width n ++ rest) = some (n, rest) := by
  have hlength : (Decimal.padded width n).length ≤ width := Nat.le_of_eq (Decimal.length_padded width n)
  rw [number?_append (padded_ne_nil hwidth n) (fun c => Decimal.isDigit_of_mem_padded) hlength hrest,
    Decimal.value_padded, Nat.mod_eq_of_lt hn]

/-- A part of two digits. -/
theorem numberPast?_padded {n : ℕ} (hn : n < 100) {rest : List Char} (hrest : EndsDigits rest) :
    numberPast? 2 (Decimal.padded 2 n ++ rest) = some (n, rest) := by
  rw [numberPast?, trimStart_append (padded_ne_nil Nat.two_pos n) fun c => Decimal.isDigit_of_mem_padded]
  exact number?_padded Nat.two_pos hn hrest

theorem past?_cons {c : Char} (h : isBlank c = false) (text : List Char) : past? c (c :: text) = some text := by
  rw [past?, trimStart_cons h]
  exact if_pos rfl

/-- A year that starts with a digit is taken like any number. -/
theorem year?_of_digits {digits : List Char} (hne : digits ≠ []) (hdigits : ∀ c ∈ digits, c.isDigit = true)
    (rest : List Char) :
    year? (digits ++ rest) = (number? 4 (digits ++ rest)).map fun (n, rest) => ((n : Int), rest) := by
  obtain ⟨c, more, rfl⟩ := List.exists_cons_of_ne_nil hne
  have hc := hdigits c List.mem_cons_self
  rw [year?, trimStart_append hne hdigits]
  split
  · next heq =>
    obtain ⟨rfl, -⟩ := List.cons.inj heq
    cases hc
  · next heq =>
    obtain ⟨rfl, -⟩ := List.cons.inj heq
    cases hc
  · rfl

/-- Behind a sign all digits of a year are taken. -/
theorem year?_of_sign {digits rest : List Char} (hne : digits ≠ []) (hdigits : ∀ c ∈ digits, c.isDigit = true)
    (hrest : EndsDigits rest) :
    year? ('-' :: (digits ++ rest)) = some (-(Decimal.value digits : Int), rest) ∧
      year? ('+' :: (digits ++ rest)) = some ((Decimal.value digits : Int), rest) := by
  have hwidth : digits.length ≤ (digits ++ rest).length := by simp
  have hnumber := number?_append hne hdigits hwidth hrest
  have hminus : isBlank '-' = false := by decide
  have hplus : isBlank '+' = false := by decide
  constructor
  · rw [year?, trimStart_cons hminus]
    simp only [hnumber, Option.map_some]
  · rw [year?, trimStart_cons hplus]
    simp only [hnumber, Option.map_some]

theorem year?_yearText (year : Int) {rest : List Char} (hrest : EndsDigits rest) :
    year? (Date.yearText year ++ rest) = some (year, rest) := by
  unfold Date.yearText
  split
  · next hfour =>
    have hdigits : ∀ c ∈ Decimal.padded 4 year.toNat, c.isDigit = true := fun c => Decimal.isDigit_of_mem_padded
    have hsize : year.toNat < Nat.pow 10 4 := by
      change year.toNat < 10000
      omega
    rw [year?_of_digits (padded_ne_nil (by decide) _) hdigits, number?_padded (by decide) hsize hrest]
    simp only [Option.map_some, Int.toNat_of_nonneg hfour.1]
  · -- the sign tells the sign, and the digits the rest, whether there are four of them or more
    obtain ⟨digits, hne, hdigits, hvalue, htext⟩ : ∃ digits : List Char, digits ≠ [] ∧
        (∀ c ∈ digits, c.isDigit = true) ∧ Decimal.value digits = year.natAbs ∧
        (if year.natAbs ≤ 9999 then Decimal.padded 4 year.natAbs else Decimal.digits year.natAbs) = digits := by
      split
      · next hfour =>
        refine ⟨_, padded_ne_nil (by decide) _, fun c => Decimal.isDigit_of_mem_padded, ?_, rfl⟩
        rw [Decimal.value_padded]
        exact Nat.mod_eq_of_lt (Nat.lt_succ_of_le hfour)
      · exact ⟨_, Decimal.digits_ne_nil _, fun c => Decimal.isDigit_of_mem_digits, Decimal.value_digits _, rfl⟩
    rw [htext, List.cons_append]
    obtain ⟨hminus, hplus⟩ := year?_of_sign hne hdigits hrest
    split
    · rw [hminus, hvalue]
      congr 2
      omega
    · rw [hplus, hvalue]
      congr 2
      omega

/-! ### The fraction of a second -/

/-- Digits behind a point stand for as many nanoseconds as if zeros came behind them up to the ninth place. -/
theorem fraction?_padded {width n : ℕ} (hpos : 0 < width) (hwidth : width ≤ 9) (hn : n < Nat.pow 10 width)
    {rest : List Char} (hrest : EndsDigits rest) :
    fraction? ('.' :: (Decimal.padded width n ++ rest)) = some (n * Nat.pow 10 (9 - width), rest) := by
  have hdigits : ∀ c ∈ Decimal.padded width n, c.isDigit = true := fun c => Decimal.isDigit_of_mem_padded
  have hlength := Decimal.length_padded width n
  rw [fraction?, takeWhile_isDigit_append hdigits hrest, dropWhile_isDigit_append hdigits hrest]
  split
  · next h => exact absurd h (padded_ne_nil hpos n)
  · rw [nanoseconds, hlength, List.take_of_length_le (by omega), Decimal.value_padded, Nat.mod_eq_of_lt hn]

theorem endsDigits_fractionText (nanosecond : ℕ) (rest : List Char) :
    EndsDigits (fractionText nanosecond ++ 'Z' :: rest) := by
  unfold fractionText
  split
  · exact endsDigits_separator (by decide) _
  split
  · exact endsDigits_separator (by decide) _
  split <;> exact endsDigits_separator (by decide) _

theorem fraction?_fractionText {nanosecond : ℕ} (h : nanosecond < 1000000000) (rest : List Char) :
    fraction? (fractionText nanosecond ++ 'Z' :: rest) = some (nanosecond, 'Z' :: rest) := by
  have hrest : EndsDigits ('Z' :: rest) := endsDigits_separator (by decide) rest
  unfold fractionText
  split
  · next hzero =>
    rw [hzero]
    rfl
  split
  · next hmilli =>
    rw [List.cons_append, fraction?_padded (by decide) (by decide) ?_ hrest]
    · change some (nanosecond / 1000000 * 1000000, _) = _
      rw [Nat.div_mul_cancel (Nat.dvd_of_mod_eq_zero hmilli)]
    · change nanosecond / 1000000 < 1000
      omega
  split
  · next hmicro =>
    rw [List.cons_append, fraction?_padded (by decide) (by decide) ?_ hrest]
    · change some (nanosecond / 1000 * 1000, _) = _
      rw [Nat.div_mul_cancel (Nat.dvd_of_mod_eq_zero hmicro)]
    · change nanosecond / 1000 < 1000000
      omega
  · rw [List.cons_append, fraction?_padded (by decide) (by decide) h hrest]
    rw [show Nat.pow 10 (9 - 9) = 1 from rfl, Nat.mul_one]

/-! ### The whole -/

/-- A time of day in UTC is moved nowhere. -/
theorem ofLocal?_zero (time : Timestamp) :
    ofLocal? time.date time.minute time.second time.nanosecond 0 = some time := by
  obtain ⟨hdate, hminute, -, -⟩ := time.inRange
  have hshifted : ((time.minute : Int) - 0) % 1440 = time.minute := by omega
  rw [ofLocal?, if_pos ⟨by decide, hdate⟩]
  simp only [hshifted, Int.toNat_natCast]
  rw [if_neg (by omega), if_neg (by omega), of?, dif_pos time.inRange]

theorem lt_hundred_of_isValid {date : Date} (h : date.isValid = true) : date.month < 100 ∧ date.day < 100 := by
  simp only [Date.isValid, Bool.and_eq_true, decide_eq_true_eq] at h
  obtain ⟨⟨⟨⟨-, -⟩, hmonth⟩, -⟩, hday⟩ := h
  refine ⟨by omega, Nat.lt_of_le_of_lt hday ?_⟩
  unfold Date.daysIn
  split
  · split <;> decide
  · split <;> decide

/-- **A written time is read back.** -/
theorem ofText?_toText (time : Timestamp) : ofText? time.toText = some time := by
  obtain ⟨hdate, hminute, hsecond, hnanosecond⟩ := time.inRange
  obtain ⟨hmonth, hday⟩ := lt_hundred_of_isValid hdate
  have hdash : isBlank '-' = false := by decide
  have hcolon : isBlank ':' = false := by decide
  have hZ : isBlank 'Z' = false := by decide
  have hfraction : EndsDigits (fractionText time.nanosecond ++ ['Z']) := endsDigits_fractionText _ _
  have hclock : time.minute / 60 * 60 + time.minute % 60 = time.minute := Nat.div_add_mod' _ _
  have hhour : time.minute / 60 < 100 := by omega
  have hpart : time.minute % 60 < 100 := by omega
  have hlast : time.second < 100 := by omega
  rw [ofText?, toText]
  simp only [List.append_assoc, List.cons_append]
  -- part by part
  rw [year?_yearText _ (endsDigits_separator (by decide) _), Option.bind_eq_bind, Option.bind_some]
  dsimp only
  rw [past?_cons hdash, Option.bind_eq_bind, Option.bind_some,
    numberPast?_padded hmonth (endsDigits_separator (by decide) _), Option.bind_eq_bind, Option.bind_some]
  dsimp only
  rw [past?_cons hdash, Option.bind_some, numberPast?_padded hday (endsDigits_separator (by decide) _), Option.bind_some]
  change (numberPast? 2 (Decimal.padded 2 (time.minute / 60) ++ ':' :: _)).bind _ = _
  rw [numberPast?_padded hhour (endsDigits_separator (by decide) _), Option.bind_some]
  dsimp only
  rw [past?_cons hcolon, Option.bind_some, numberPast?_padded hpart (endsDigits_separator (by decide) _), Option.bind_some]
  dsimp only
  rw [past?_cons hcolon, Option.bind_some, numberPast?_padded hlast hfraction, Option.bind_some]
  dsimp only
  rw [fraction?_fractionText hnanosecond, Option.bind_some]
  dsimp only
  rw [trimStart_cons hZ, offset?, Option.bind_some]
  dsimp only
  rw [if_pos ⟨by omega, by omega, hsecond, rfl⟩, hclock]
  exact ofLocal?_zero time

end Timestamp

end PageGraph
