import PageGraph.Text.Decimal
import Mathlib.Data.Nat.Notation

/-!
# Numerals without leading zeros

The shortest numeral of a number starts with a zero only if the number is zero. Readers that refuse leading zeros accept
it.
-/

namespace PageGraph.Text.Decimal

theorem digit_ne_zero {n : ℕ} (h : n % 10 ≠ 0) : digit n ≠ '0' := by
  intro heq
  have hvalue := digitValue_digit n
  rw [heq] at hvalue
  exact h hvalue.symm

/-- A numeral does not start with a zero, unless it is the one of zero. -/
theorem head?_digits {n : ℕ} (h : n ≠ 0) : (digits n).head? ≠ some '0' := by
  fun_induction digits n with
  | case1 n hlt => simpa using digit_ne_zero (n := n) (by omega)
  | case2 n hge ih =>
    obtain ⟨c, more, hdigits⟩ := List.exists_cons_of_ne_nil (digits_ne_nil (n / 10))
    have hhead := ih (by omega)
    rwa [hdigits] at hhead ⊢

end PageGraph.Text.Decimal
