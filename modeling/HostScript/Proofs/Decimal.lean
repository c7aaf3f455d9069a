import HostScript.Decimal

/-!
# Digits and the numbers that they denote

The digits of a number are decimal digits, the first of them is a zero only where it is the only one, and
read in base ten they denote the number.
-/

namespace HostScript.Decimal

theorem isDigit_digitChar (n : Nat) : (digitChar n).isDigit = true := by
  have hall : ∀ d < 10, (digitChar d).isDigit = true := by decide
  have hmod := hall (n % 10) (Nat.mod_lt n (by decide))
  rwa [digitChar, Nat.mod_mod] at hmod

theorem digitValue_digitChar {n : Nat} (h : n < 10) : digitValue (digitChar n) = n := by
  have hall : ∀ d < 10, digitValue (digitChar d) = d := by decide
  exact hall n h

theorem value_append (base : Nat) (ds : List Char) (c : Char) :
    value base (ds ++ [c]) = value base ds * base + digitValue c := by
  simp [value]

theorem digits_ne_nil (n : Nat) : digits n ≠ [] := by
  unfold digits
  split <;> simp

theorem isDigit_of_mem_digits {n : Nat} {c : Char} (h : c ∈ digits n) : c.isDigit = true := by
  fun_induction digits n with
  | case1 n hlt =>
    rw [List.mem_singleton] at h
    exact h ▸ isDigit_digitChar n
  | case2 n hge ih =>
    rcases List.mem_append.mp h with hmem | hmem
    · exact ih hmem
    · rw [List.mem_singleton] at hmem
      exact hmem ▸ isDigit_digitChar _

@[simp] theorem value_digits (n : Nat) : value 10 (digits n) = n := by
  fun_induction digits n with
  | case1 n hlt => simp [value, digitValue_digitChar hlt]
  | case2 n hge ih =>
    rw [value_append, ih, digitValue_digitChar (Nat.mod_lt n (by decide))]
    omega

/-- A number of several digits does not start with a zero. -/
theorem head?_digits_ne {n : Nat} (h : 10 ≤ n) : (digits n).head? ≠ some '0' := by
  fun_induction digits n with
  | case1 n hlt => omega
  | case2 n hge ih =>
    rw [List.head?_append, Option.or_of_isSome (by simp [digits_ne_nil])]
    by_cases hten : 10 ≤ n / 10
    · exact ih hten
    · have hall : ∀ d < 10, d ≠ 0 → digitChar d ≠ '0' := by decide
      rw [digits, if_pos (by omega), List.head?_singleton, ne_eq, Option.some_inj]
      exact hall (n / 10) (by omega) (by omega)

end HostScript.Decimal
