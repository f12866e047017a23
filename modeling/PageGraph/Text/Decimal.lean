/-!
# Decimal numerals

Natural numbers in decimal digits: the shortest numeral, the numeral of a fixed width, and the value of a list
of digits. `value_digits` and `value_padded` say that the numerals are read back.
-/

namespace PageGraph.Text.Decimal

/-- The character of a digit. -/
def digit (n : Nat) : Char := Char.ofNat (0x30 + n % 10)

/-- The value of a digit character. -/
def digitValue (c : Char) : Nat := c.toNat - 0x30

/-- The value of a list of digits. -/
def value (digits : List Char) : Nat := digits.foldl (fun n c => n * 10 + digitValue c) 0

/-- The shortest numeral of a number. -/
def digits (n : Nat) : List Char :=
  if n < 10 then [digit n] else digits (n / 10) ++ [digit n]
termination_by n
decreasing_by omega

/-- The last digits of a number, as many as the width says, with leading zeros. -/
def padded : Nat → Nat → List Char
  | 0, _ => []
  | width + 1, n => padded width (n / 10) ++ [digit n]

theorem digitValue_digit (n : Nat) : digitValue (digit n) = n % 10 := by
  have h : ∀ m, m < 10 → digitValue (digit m) = m := by decide
  have := h (n % 10) (Nat.mod_lt _ (by decide))
  simpa [digit] using this

theorem isDigit_digit (n : Nat) : (digit n).isDigit = true := by
  have h : ∀ m, m < 10 → (digit m).isDigit = true := by decide
  simpa [digit] using h (n % 10) (Nat.mod_lt _ (by decide))

theorem value_append_digit (ds : List Char) (n : Nat) : value (ds ++ [digit n]) = value ds * 10 + n % 10 := by
  simp [value, digitValue_digit]

theorem value_digits (n : Nat) : value (digits n) = n := by
  fun_induction digits n with
  | case1 n h =>
    have := value_append_digit [] n
    simp only [List.nil_append] at this
    rw [this]
    simp [value]
    omega
  | case2 n h ih =>
    rw [value_append_digit, ih]
    omega

theorem value_padded (width n : Nat) : value (padded width n) = n % Nat.pow 10 width := by
  induction width generalizing n with
  | zero => simp [padded, value, Nat.mod_one]
  | succ width ih =>
    have hpow : Nat.pow 10 (width + 1) = 10 * Nat.pow 10 width := Nat.mul_comm _ _
    rw [padded, value_append_digit, ih, hpow, Nat.mod_mul, Nat.mul_comm]
    omega

theorem length_padded (width n : Nat) : (padded width n).length = width := by
  induction width generalizing n with
  | zero => rfl
  | succ width ih => simp [padded, ih]

theorem isDigit_of_mem_digits {n : Nat} {c : Char} (h : c ∈ digits n) : c.isDigit = true := by
  fun_induction digits n with
  | case1 n _ =>
    rw [List.mem_singleton.1 h]
    exact isDigit_digit n
  | case2 n _ ih =>
    rcases List.mem_append.1 h with h | h
    · exact ih h
    · rw [List.mem_singleton.1 h]
      exact isDigit_digit n

theorem isDigit_of_mem_padded {width n : Nat} {c : Char} (h : c ∈ padded width n) : c.isDigit = true := by
  induction width generalizing n with
  | zero => simp [padded] at h
  | succ width ih =>
    rcases List.mem_append.1 h with h | h
    · exact ih h
    · rw [List.mem_singleton.1 h]
      exact isDigit_digit n

theorem digits_ne_nil (n : Nat) : digits n ≠ [] := by
  rw [digits]
  split <;> simp

end PageGraph.Text.Decimal
