import Mathlib.Data.Nat.Bitwise
import Mathlib.Data.Nat.Count
import Mathlib.Data.Nat.Digits.Defs

open Nat (ofDigits)

namespace lanes

section Cons

variable {w x y : Nat} (hx : x < 2 ^ w)
include hx

/-- The bits of a number in lanes are those of its lowest lane, then those of the rest. -/
theorem testBit_cons (X i : Nat) : (x + 2 ^ w * X).testBit i = if i < w then x.testBit i else X.testBit (i - w) := by
  rw [Nat.add_comm, Nat.testBit_two_pow_mul_add X hx]

/-- Masking works lane by lane. Only the mask of the lowest lane need fit it. -/
theorem and_cons (hy : y < 2 ^ w) (X Y : Nat) :
    (x + 2 ^ w * X) &&& (y + 2 ^ w * Y) = (x &&& y) + 2 ^ w * (X &&& Y) := by
  apply Nat.eq_of_testBit_eq
  intro i
  rw [Nat.testBit_and, testBit_cons hx, testBit_cons hy, testBit_cons (Nat.and_lt_two_pow x hy), Nat.testBit_and,
    Nat.testBit_and]
  split <;> rfl

/-- What a shift brings down from the next lane is cut off by a mask for the bits that the
    lane itself leaves. -/
theorem shift_and_cons {k mask : Nat} (hk : k ≤ w) (hmask : mask < 2 ^ (w - k)) (X masks : Nat) :
    (x + 2 ^ w * X) / 2 ^ k &&& (mask + 2 ^ w * masks) = (x / 2 ^ k &&& mask) + 2 ^ w * (X / 2 ^ k &&& masks) := by
  have hw : 2 ^ w = 2 ^ k * 2 ^ (w - k) := by rw [← Nat.pow_add, Nat.add_sub_cancel' hk]
  have hlow : x / 2 ^ k < 2 ^ (w - k) := by
    apply Nat.div_lt_of_lt_mul
    rwa [← hw]
  have hsmall : mask < 2 ^ w := Nat.lt_of_lt_of_le hmask (Nat.pow_le_pow_right (by decide) (Nat.sub_le w k))
  have hmod : X % 2 ^ k < 2 ^ k := Nat.mod_lt X (Nat.two_pow_pos k)
  have hlane : x / 2 ^ k + 2 ^ (w - k) * (X % 2 ^ k) < 2 ^ w := by
    calc x / 2 ^ k + 2 ^ (w - k) * (X % 2 ^ k)
        < 2 ^ (w - k) + 2 ^ (w - k) * (X % 2 ^ k) := Nat.add_lt_add_right hlow _
      _ = 2 ^ (w - k) * (X % 2 ^ k + 1) := by rw [Nat.mul_succ, Nat.add_comm]
      _ ≤ 2 ^ (w - k) * 2 ^ k := Nat.mul_le_mul_left _ hmod
      _ = 2 ^ w := by rw [hw, Nat.mul_comm]
  have hshift : (x + 2 ^ w * X) / 2 ^ k =
      (x / 2 ^ k + 2 ^ (w - k) * (X % 2 ^ k)) + 2 ^ w * (X / 2 ^ k) := by
    have hsplit : 2 ^ (w - k) * X = 2 ^ (w - k) * (X % 2 ^ k) + 2 ^ w * (X / 2 ^ k) := by
      rw [hw, Nat.mul_comm (2 ^ k), Nat.mul_assoc, ← Nat.mul_add, Nat.mod_add_div]
    rw [Nat.add_assoc, ← hsplit, hw, Nat.mul_assoc, Nat.add_mul_div_left _ _ (Nat.two_pow_pos k)]
  have hcut : (x / 2 ^ k + 2 ^ (w - k) * (X % 2 ^ k)) &&& mask = x / 2 ^ k &&& mask := by
    have hand := and_cons hlow hmask (X % 2 ^ k) 0
    rwa [Nat.and_zero, Nat.mul_zero, Nat.add_zero, Nat.add_zero] at hand
  rw [hshift, and_cons hlane hsmall, hcut]

end Cons

section List

variable {w : Nat} {xs : List Nat} (hxs : ∀ x ∈ xs, x < 2 ^ w)
include hxs

/-- Shifting and masking all lanes of a number at once. -/
theorem ofDigits_shift_and {k mask : Nat} (hk : k ≤ w) (hmask : mask < 2 ^ (w - k)) :
    ofDigits (2 ^ w) xs / 2 ^ k &&& ofDigits (2 ^ w) (List.replicate xs.length mask) =
      ofDigits (2 ^ w) (xs.map fun x => x / 2 ^ k &&& mask) := by
  induction xs with
  | nil => simp [Nat.ofDigits_nil]
  | cons x xs ih =>
    have hx := hxs x List.mem_cons_self
    have hrest := ih fun y hy => hxs y (List.mem_cons_of_mem x hy)
    rw [List.length_cons, List.replicate_succ, List.map_cons, Nat.ofDigits_cons, Nat.ofDigits_cons, Nat.ofDigits_cons,
      ← hrest]
    exact shift_and_cons hx hk hmask _ _

/-- The set bits of a number are those of its lanes. -/
theorem count_testBit_ofDigits : Nat.count (fun i => (ofDigits (2 ^ w) xs).testBit i) (w * xs.length) =
    (xs.map fun x => Nat.count (fun i => x.testBit i) w).sum := by
  induction xs with
  | nil => simp
  | cons x xs ih =>
    have hx := hxs x List.mem_cons_self
    have hrest := ih fun y hy => hxs y (List.mem_cons_of_mem x hy)
    have hbits := testBit_cons hx (ofDigits (2 ^ w) xs)
    rw [List.length_cons, List.map_cons, List.sum_cons, ← hrest, Nat.mul_succ, Nat.add_comm (w * xs.length),
      Nat.count_add, Nat.ofDigits_cons]
    congr 1
    · refine List.countP_congr fun i hi => ?_
      simp only [decide_eq_true_eq]
      rw [hbits, if_pos (List.mem_range.mp hi)]
    · refine List.countP_congr fun i _ => ?_
      simp only [decide_eq_true_eq]
      rw [hbits, if_neg (Nat.not_lt.mpr (Nat.le_add_right w i)), Nat.add_sub_cancel_left]

end List

section Map

variable (b : Nat) (xs : List Nat) {f g : Nat → Nat}

/-- Numbers in lanes are added lane by lane. A lane may overflow into the next one on both sides.
    -/
theorem ofDigits_add_map : ofDigits b (xs.map f) + ofDigits b (xs.map g) = ofDigits b (xs.map fun x => f x + g x) := by
  induction xs with
  | nil => rfl
  | cons x xs ih =>
    simp only [List.map_cons, Nat.ofDigits_cons, ← ih, Nat.mul_add]
    omega

/-- Lanes that are no larger make a number that is no larger. -/
theorem ofDigits_le_map (hle : ∀ x ∈ xs, g x ≤ f x) : ofDigits b (xs.map g) ≤ ofDigits b (xs.map f) := by
  induction xs with
  | nil => exact Nat.le_refl _
  | cons x xs ih =>
    simp only [List.map_cons, Nat.ofDigits_cons]
    have hx := hle x List.mem_cons_self
    have hrest := Nat.mul_le_mul_left b (ih fun y hy => hle y (List.mem_cons_of_mem x hy))
    exact Nat.add_le_add hx hrest

/-- No lane borrows from the next one if none has to. -/
theorem ofDigits_sub_map (hle : ∀ x ∈ xs, g x ≤ f x) :
    ofDigits b (xs.map f) - ofDigits b (xs.map g) = ofDigits b (xs.map fun x => f x - g x) := by
  have hsum : ofDigits b (xs.map g) + ofDigits b (xs.map fun x => f x - g x) = ofDigits b (xs.map f) := by
    rw [ofDigits_add_map]
    congr 1
    exact List.map_congr_left fun x hx => Nat.add_sub_cancel' (hle x hx)
  omega

end Map

end lanes
