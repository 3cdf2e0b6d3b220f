import Mathlib.Data.Nat.Digits.Lemmas

namespace numeral

/-- The digits of a number to the base `b`, highest first. Zero has one digit. -/
def digits (b n : Nat) : List Nat := if n = 0 then [0] else (Nat.digits b n).reverse

/-- The number that digits to the base `b` stand for, highest first. -/
def value (b : Nat) (ds : List Nat) : Nat := Nat.ofDigits b ds.reverse

section Digits

variable {b n : Nat}

/-- The digits of a number stand for it. This needs a base of two at least. -/
theorem value_digits : value b (digits b n) = n := by
  rw [digits, value]
  split
  · rename_i hzero
    simp [hzero]
  · rw [List.reverse_reverse, Nat.ofDigits_digits]

theorem digits_ne_nil : digits b n ≠ [] := by
  rw [digits]
  split
  · exact List.cons_ne_nil 0 []
  · rename_i hzero
    rw [ne_eq, List.reverse_eq_nil_iff]
    exact Nat.digits_ne_nil_iff_ne_zero.mpr hzero

/-- Only zero starts with the digit zero. -/
theorem digits_of_head_zero (hhead : (digits b n).head? = some 0) : digits b n = [0] := by
  rw [digits] at hhead ⊢
  split
  · rfl
  · rename_i hzero
    have hne : Nat.digits b n ≠ [] := Nat.digits_ne_nil_iff_ne_zero.mpr hzero
    rw [if_neg hzero, List.head?_reverse, List.getLast?_eq_some_getLast hne] at hhead
    exact absurd (Option.some.inj hhead) (Nat.getLast_digit_ne_zero b hzero)

/-- Leading zeros do not change the value. -/
theorem value_replicate_append (k : Nat) (ds : List Nat) : value b (List.replicate k 0 ++ ds) = value b ds := by
  rw [value, value, List.reverse_append, List.reverse_replicate, Nat.ofDigits_append_replicate_zero]

variable (hb : 1 < b)
include hb

/-- Every digit is one of the base. -/
theorem digits_lt {d : Nat} (hd : d ∈ digits b n) : d < b := by
  rw [digits] at hd
  split at hd
  · rw [List.mem_singleton] at hd
    omega
  · exact Nat.digits_lt_base hb (List.mem_reverse.mp hd)

/-- A number below a power of the base has no more digits than the exponent. -/
theorem length_digits_le {k : Nat} (hk : 0 < k) (hn : n < b ^ k) : (digits b n).length ≤ k := by
  rw [digits]
  split
  · exact hk
  · rw [List.length_reverse]
    exact (Nat.digits_length_le_iff hb n).mpr hn

end Digits

end numeral
