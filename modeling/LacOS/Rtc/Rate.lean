import LacOS.Rtc

namespace lacos.rtc

/-- The frequencies that can be asked for. -/
def IsRate (freq : UInt32) : Prop := freq.toNat.isPowerOfTwo ∧ 2 ≤ freq.toNat ∧ freq.toNat ≤ 1024

/-- Register A of the RTC, whose low four bits are the divider. -/
def regA (k : Kernel) : UInt8 := k.cmos_reg 0x0A

def divider (reg : UInt8) : Nat := (reg &&& 0x0F).toNat

/-- `frequency = 32768 >> (new_freq - 1)`, as the RTC calculates it. -/
def frequency (reg : UInt8) : Nat := 32768 >>> (divider reg - 1)

/-- `rtc_write` reports all bytes as written, however many there are. -/
def Accepts (k : Kernel) (freq : UInt32) : Prop := ∀ nbytes, (rtc_write k freq nbytes).1 = nbytes

/-- `rtc_freq` and the frequency the RTC calculates from register A are the given one. -/
structure Programmed (k : Kernel) (freq : UInt32) : Prop where
  rtc_freq : k.rtc_freq = freq
  divider : 0 < divider (regA k)
  frequency : frequency (regA k) = freq.toNat

/-- The test of `rtc_write`, with 0 and the values above 1024 among those it turns away. -/
theorem isRate_iff (freq : UInt32) : IsRate freq ↔ ¬ (freq &&& (freq - 1) ≠ 0 ∨ freq > 1024 ∨ freq < 2) := by
  have hlimit : (1024 : UInt32).toNat = 1024 := rfl
  have htwo : (2 : UInt32).toNat = 2 := rfl
  rw [IsRate, not_or, not_or, not_not, gt_iff_lt, UInt32.lt_iff_toNat_lt, UInt32.lt_iff_toNat_lt, hlimit, htwo,
    Nat.not_lt, Nat.not_lt]
  by_cases hfreq : 2 ≤ freq.toNat
  · have hpred : (freq - 1).toNat = freq.toNat - 1 := by
      rw [UInt32.toNat_sub_of_le _ _ (by rw [UInt32.le_iff_toNat_le, UInt32.toNat_one]; omega), UInt32.toNat_one]
    have hbits : freq &&& (freq - 1) = 0 ↔ freq.toNat &&& (freq.toNat - 1) = 0 := by
      rw [← UInt32.toNat_inj, UInt32.toNat_and, hpred, UInt32.toNat_zero]
    rw [hbits, Nat.and_sub_one_eq_zero_iff_isPowerOfTwo (by omega), and_comm (a := 2 ≤ _)]
  · simp [hfreq]

instance (freq : UInt32) : Decidable (IsRate freq) := decidable_of_iff _ (isRate_iff freq).symm

/-- The loop counts how often a power of two can be halved. -/
theorem pow2freq_loop_eq {n fuel : Nat} (hfuel : n < fuel) {new_freq : UInt32} (hfreq : new_freq.toNat = 2 ^ (n + 1))
    (pow2freq : UInt32) : pow2freq_loop fuel new_freq pow2freq = pow2freq + UInt32.ofNat (n + 1) := by
  induction n generalizing fuel new_freq pow2freq with
  | zero =>
    obtain ⟨fuel, rfl⟩ := Nat.exists_eq_succ_of_ne_zero (Nat.ne_of_gt hfuel)
    have htwo : new_freq = 2 := UInt32.toNat_inj.mp hfreq
    rw [pow2freq_loop, htwo]
    rfl
  | succ n ih =>
    obtain ⟨fuel, rfl⟩ := Nat.exists_eq_succ_of_ne_zero (Nat.ne_zero_of_lt hfuel)
    have hhalf : (new_freq >>> (1 : UInt32)).toNat = 2 ^ (n + 1) := by
      have hone : (1 : UInt32).toNat % 32 = 1 := rfl
      rw [UInt32.toNat_shiftRight, hone, hfreq, Nat.shiftRight_eq_div_pow, Nat.pow_div (by omega) (by decide)]
      rfl
    have hmore : new_freq >>> (1 : UInt32) > 1 := by
      rw [gt_iff_lt, UInt32.lt_iff_toNat_lt, hhalf, UInt32.toNat_one]
      exact Nat.one_lt_two_pow (Nat.succ_ne_zero n)
    have hcount : pow2freq + 1 + UInt32.ofNat (n + 1) = pow2freq + UInt32.ofNat (n + 1 + 1) := by
      rw [UInt32.ofNat_add (n + 1), UInt32.add_assoc, UInt32.add_comm 1]
      rfl
    simp only [pow2freq_loop]
    rw [if_pos hmore, ih (Nat.lt_of_succ_lt_succ hfuel) hhalf, hcount]

/-- A rate, as the exponent it stands for. -/
theorem IsRate.exists_log {freq : UInt32} (hrate : IsRate freq) : ∃ n < 10, freq.toNat = 2 ^ (n + 1) := by
  obtain ⟨⟨n, hn⟩, hlow, hhigh⟩ := hrate
  rw [hn] at hlow hhigh
  cases n with
  | zero => exact absurd hlow (by decide)
  | succ n =>
    have hle : n + 1 ≤ 10 := (Nat.pow_le_pow_iff_right (by decide)).mp hhigh
    exact ⟨n, hle, hn⟩

theorem set_int_freq_regA (k : Kernel) (new_freq : UInt32) :
    regA (set_int_freq k new_freq) = new_freq.toUInt8 ||| (regA k &&& 0xF0) := rfl

/-- A divider goes into the low half of the register, and only there. -/
theorem divider_or (new_divider : UInt8) (prev : UInt8) (hlow : new_divider.toNat < 16) :
    divider (new_divider ||| (prev &&& 0xF0)) = new_divider.toNat ∧
      (new_divider ||| (prev &&& 0xF0)) &&& 0xF0 = prev &&& 0xF0 := by
  have hhalves : ∀ d : Fin 16, d.val &&& 15 = d.val ∧ d.val &&& 240 = 0 := by decide
  obtain ⟨hkept, hcut⟩ := hhalves ⟨new_divider.toNat, hlow⟩
  have hmask : (0x0F : UInt8).toNat = 15 ∧ (0xF0 : UInt8).toNat = 240 := ⟨rfl, rfl⟩
  constructor
  · rw [divider, UInt8.toNat_and, UInt8.toNat_or, UInt8.toNat_and, hmask.1, hmask.2, Nat.and_or_distrib_right, hkept,
      Nat.and_assoc, show 240 &&& 15 = 0 from rfl, Nat.and_zero, Nat.or_zero]
  · apply UInt8.toNat_inj.mp
    rw [UInt8.toNat_and, UInt8.toNat_or, UInt8.toNat_and, hmask.2, Nat.and_or_distrib_right, hcut, Nat.and_assoc,
      Nat.and_self, Nat.zero_or]

/-- The divider `rtc_write` computes for a power of two. -/
theorem divider_of_log {n : Nat} (hn : n < 10) :
    (0x10 - UInt32.ofNat (n + 1)).toUInt8.toNat = 15 - n ∧ 32768 >>> (15 - n - 1) = 2 ^ (n + 1) := by
  have hall : ∀ n : Fin 10,
      (0x10 - UInt32.ofNat (n + 1)).toUInt8.toNat = 15 - n.val ∧ 32768 >>> (15 - n.val - 1) = 2 ^ (n.val + 1) := by
    decide
  exact hall ⟨n, hn⟩

section Write

variable (k : Kernel) {freq : UInt32} (nbytes : Int)

/-- A frequency that the clock cannot have is refused, and nothing changes. -/
theorem rtc_write_of_not_isRate (hrate : ¬ IsRate freq) : rtc_write k freq nbytes = (FAILURE, k) := by
  rw [isRate_iff, not_not] at hrate
  rw [rtc_write, if_pos hrate]

variable (hrate : IsRate freq)
include hrate

/-- Any other one is stored and programmed. The result is the size that was passed. -/
theorem rtc_write_of_isRate : rtc_write k freq nbytes =
    (nbytes, set_int_freq { k with rtc_freq := freq } (0x10 - pow2freq_loop 32 freq 0)) := by
  rw [isRate_iff] at hrate
  rw [rtc_write, if_neg hrate]

/-- The register gets the rate of the frequency and keeps its upper half. -/
theorem programmed_rtc_write : Programmed (rtc_write k freq nbytes).2 freq ∧
    regA (rtc_write k freq nbytes).2 &&& 0xF0 = regA k &&& 0xF0 := by
  obtain ⟨n, hn, hfreq⟩ := hrate.exists_log
  obtain ⟨hvalue, hshift⟩ := divider_of_log hn
  have hloop := @pow2freq_loop_eq n 32 (by omega) freq hfreq 0
  rw [UInt32.zero_add] at hloop
  rw [rtc_write_of_isRate k nbytes hrate, hloop]
  obtain ⟨hdivider, hkept⟩ := divider_or (0x10 - UInt32.ofNat (n + 1)).toUInt8 (regA k) (by omega)
  refine ⟨⟨rfl, ?_, ?_⟩, ?_⟩
  · rw [set_int_freq_regA]
    change 0 < divider ((0x10 - UInt32.ofNat (n + 1)).toUInt8 ||| (regA k &&& 0xF0))
    omega
  · rw [set_int_freq_regA, frequency]
    change 32768 >>> (divider ((0x10 - UInt32.ofNat (n + 1)).toUInt8 ||| (regA k &&& 0xF0)) - 1) = _
    rw [hdivider, hvalue, hshift, hfreq]
  · rw [set_int_freq_regA]
    exact hkept

end Write

/-- Which frequencies are accepted does not depend on the state. -/
theorem accepts_iff (k : Kernel) (freq : UInt32) : Accepts k freq ↔ IsRate freq := by
  constructor
  · intro haccepts
    by_contra hrate
    have hzero := haccepts 0
    rw [rtc_write_of_not_isRate k 0 hrate] at hzero
    exact absurd (show (-1 : Int) = 0 from hzero) (by decide)
  · intro hrate nbytes
    rw [rtc_write_of_isRate k nbytes hrate]

/-- `rtc_write` takes exactly the powers of two from 2 to 1024. It programs the device with the
    one it takes and leaves the upper half of register A alone, and it changes nothing when it
    refuses. What the device was programmed to before does not matter, and `nbytes` is not looked
    at. -/
theorem rtc_write_programs (k : Kernel) (freq : UInt32) (nbytes : Int) :
    (Accepts k freq ↔ IsRate freq) ∧
    (IsRate freq → Programmed (rtc_write k freq nbytes).2 freq ∧
      regA (rtc_write k freq nbytes).2 &&& 0xF0 = regA k &&& 0xF0) ∧
    (¬ IsRate freq → rtc_write k freq nbytes = (-1, k)) :=
  ⟨accepts_iff k freq, programmed_rtc_write k nbytes, rtc_write_of_not_isRate k nbytes⟩

end lacos.rtc
