import Mathlib.Data.Nat.Bitwise
import LacOS.State

namespace lacos.pcb

abbrev END_OF_KERNEL_PAGE : UInt32 := 0x800000
abbrev PCB_PLUS_STACK : UInt32 := 0x2000

/-- The parallel-sum Hamming weight; all operations are on `uint32_t`. -/
def our_popcount (value : UInt32) : UInt32 :=
  let result : UInt32 := value - ((value >>> (1 : UInt32)) &&& (0x55555555 : UInt32))
  let result : UInt32 := (result &&& (0x33333333 : UInt32)) + ((result >>> (2 : UInt32)) &&& (0x33333333 : UInt32))
  (((result + (result >>> (4 : UInt32))) &&& (0x0F0F0F0F : UInt32)) * (0x01010101 : UInt32)) >>> (24 : UInt32)

/-- `while(temp_pcb_status & 0x1)`. Each turn shifts one bit out, so the loop
    runs at most 32 times. -/
def find_empty_loop : Nat → UInt32 → UInt32 → UInt32
  | 0, _, offset => offset
  | fuel + 1, temp_pcb_status, offset =>
    if temp_pcb_status &&& 0x1 ≠ 0 then find_empty_loop fuel (temp_pcb_status >>> 1) (offset + 1)
    else offset

/-- The offset of the next empty block, and the status with its bit set. -/
def find_empty_pcb (pcb_status : UInt32) : UInt32 × UInt32 :=
  let offset := find_empty_loop 32 pcb_status 0
  (offset, pcb_status ||| (1 <<< offset))

/-- The loop stops at the first clear bit, or past the last bit. -/
theorem find_empty_loop_spec (pcb_status : UInt32) (fuel i : Nat) (temp_pcb_status : UInt32) (hfuel : i + fuel = 32)
    (htemp : temp_pcb_status.toNat = pcb_status.toNat >>> i) :
    ∃ j, j ≤ 32 ∧ find_empty_loop fuel temp_pcb_status (UInt32.ofNat i) = UInt32.ofNat j ∧
      (∀ l, i ≤ l → l < j → pcb_status.toNat.testBit l = true) ∧ (j < 32 → pcb_status.toNat.testBit j = false) := by
  induction fuel generalizing i temp_pcb_status with
  | zero => exact ⟨i, by omega, rfl, fun l hil hlj => by omega, by omega⟩
  | succ fuel ih =>
    have hbit : temp_pcb_status &&& 0x1 ≠ 0 ↔ pcb_status.toNat.testBit i = true := by
      rw [ne_eq, ← UInt32.toNat_inj, UInt32.toNat_and, htemp, Nat.testBit]
      simp [Nat.and_comm]
    rw [find_empty_loop]
    by_cases hset : pcb_status.toNat.testBit i = true
    · rw [if_pos (hbit.mpr hset)]
      have hshift : (temp_pcb_status >>> 1).toNat = pcb_status.toNat >>> (i + 1) := by
        rw [UInt32.toNat_shiftRight, htemp, Nat.shiftRight_add]
        rfl
      have hnext : UInt32.ofNat i + 1 = UInt32.ofNat (i + 1) := (UInt32.ofNat_add i 1).symm
      obtain ⟨j, hj, hloop, hbefore, hat⟩ := ih (i + 1) (temp_pcb_status >>> 1) (by omega) hshift
      refine ⟨j, hj, by rw [hnext, hloop], ?_, hat⟩
      intro l hil hlj
      by_cases hl : l = i
      · rw [hl]
        exact hset
      · exact hbefore l (by omega) hlj
    · rw [if_neg (mt hbit.mp hset)]
      exact ⟨i, by omega, rfl, fun l hil hlj => by omega, fun _ => by simpa using hset⟩

/-- The search takes the first free slot. If there is none, it ends behind the last one. -/
theorem find_empty_pcb_spec (pcb_status : UInt32) :
    ∃ j, j ≤ 32 ∧ find_empty_pcb pcb_status = (UInt32.ofNat j, pcb_status ||| (1 <<< UInt32.ofNat j)) ∧
      (∀ l < j, pcb_status.toNat.testBit l = true) ∧ (j < 32 → pcb_status.toNat.testBit j = false) := by
  obtain ⟨j, hj, hloop, hbefore, hat⟩ := find_empty_loop_spec pcb_status 32 0 pcb_status rfl rfl
  have hloop' : find_empty_loop 32 pcb_status 0 = UInt32.ofNat j := hloop
  exact ⟨j, hj, by rw [find_empty_pcb, hloop'], fun l hl => hbefore l (Nat.zero_le l) hl, hat⟩

/-- The word with bit `j` set. -/
theorem toNat_one_shiftLeft {j : Nat} (hj : j < 32) : ((1 : UInt32) <<< UInt32.ofNat j).toNat = 2 ^ j := by
  have hlt : 2 ^ j < 2 ^ 32 := Nat.pow_lt_pow_right (by decide) hj
  rw [UInt32.toNat_shiftLeft, UInt32.toNat_ofNat']
  have hmod : j % 2 ^ 32 % 32 = j := by omega
  rw [hmod, UInt32.toNat_one, Nat.one_shiftLeft, Nat.mod_eq_of_lt hlt]

/-- The status marks a slot as taken. -/
def Taken (pcb_status : UInt32) (n : Nat) : Prop := pcb_status.toNat.testBit n = true

instance (pcb_status : UInt32) (n : Nat) : Decidable (Taken pcb_status n) := by
  unfold Taken
  infer_instance

theorem not_taken_iff {pcb_status : UInt32} {n : Nat} : ¬ Taken pcb_status n ↔ pcb_status.toNat.testBit n = false := by
  simp [Taken]

/-- Setting its bit takes a slot. -/
theorem taken_or {n : Nat} (hn : n < 32) (pcb_status : UInt32) (m : Nat) :
    Taken (pcb_status ||| (1 <<< UInt32.ofNat n)) m ↔ m = n ∨ Taken pcb_status m := by
  rw [Taken, Taken, UInt32.toNat_or, toNat_one_shiftLeft hn, Nat.testBit_or, Nat.testBit_two_pow, Bool.or_eq_true,
    decide_eq_true_eq, or_comm, eq_comm]

/-- Clearing its bit frees a slot. -/
theorem taken_clear {n : Nat} (hn : n < 32) (pcb_status : UInt32) (m : Nat) :
    Taken (pcb_status &&& ~~~(1 <<< UInt32.ofNat n)) m ↔ m ≠ n ∧ Taken pcb_status m := by
  have hlt := pcb_status.toNat_lt
  rw [Taken, Taken, UInt32.toNat_and, UInt32.toNat_not, toNat_one_shiftLeft hn, Nat.testBit_and]
  by_cases hm : m < 32
  · have hsub : UInt32.size - 1 - 2 ^ n = 2 ^ 32 - (2 ^ n + 1) := by
      rw [UInt32.size]
      omega
    rw [hsub, Nat.testBit_two_pow_sub_succ (Nat.pow_lt_pow_right (by decide) hn), Nat.testBit_two_pow,
      Bool.and_eq_true, Bool.and_eq_true, decide_eq_true_eq, Bool.not_eq_true', decide_eq_false_iff_not]
    exact ⟨fun h => ⟨fun heq => h.2.2 heq.symm, h.1⟩, fun h => ⟨h.2, hm, fun heq => h.1 heq.symm⟩⟩
  · have hclear : pcb_status.toNat.testBit m = false :=
      Nat.testBit_lt_two_pow (Nat.lt_of_lt_of_le hlt (Nat.pow_le_pow_right (by decide) (by omega)))
    simp [hclear]

/-- The map is given by the slots that are taken. -/
theorem status_eq_of_taken {pcb_status other : UInt32} (htaken : ∀ n, Taken pcb_status n ↔ Taken other n) :
    pcb_status = other := by
  apply UInt32.toNat_inj.mp
  apply Nat.eq_of_testBit_eq
  intro n
  exact Bool.eq_iff_iff.mpr (htaken n)

/-- Slots 0 to 5 are the only ones taken. -/
def SixSlots (pcb_status : UInt32) : Prop := ∀ n, Taken pcb_status n → n < 6

/-- Only the six lowest bits of the map are used. -/
theorem sixSlots_iff (pcb_status : UInt32) : SixSlots pcb_status ↔ pcb_status.toNat < 2 ^ 6 := by
  constructor
  · intro hsix
    refine Nat.lt_pow_two_of_testBit _ fun n hn => ?_
    exact not_taken_iff.mp fun htaken => absurd (hsix n htaken) (by omega)
  · intro hlt n htaken
    by_contra hn
    rw [Taken, Nat.testBit_lt_two_pow (Nat.lt_of_lt_of_le hlt (Nat.pow_le_pow_right (by decide) (by omega)))] at htaken
    cases htaken

/-- Looking for a slot takes one, unless all bits of the status are set. -/
theorem find_empty_pcb_same_iff (pcb_status : UInt32) :
    (find_empty_pcb pcb_status).2 = pcb_status ↔ pcb_status = 0xFFFFFFFF := by
  obtain ⟨j, hj, hfind, hbefore, hat⟩ := find_empty_pcb_spec pcb_status
  rw [hfind]
  constructor
  · intro hsame
    have hlast : j = 32 := by
      by_contra hne
      have hlt : j < 32 := by omega
      have hbits := congrArg (fun s : UInt32 => s.toNat.testBit j) hsame
      simp only [UInt32.toNat_or, toNat_one_shiftLeft hlt, Nat.testBit_or, Nat.testBit_two_pow_self, Bool.or_true,
        hat hlt] at hbits
      cases hbits
    apply UInt32.toNat_inj.mp
    apply Nat.eq_of_testBit_eq
    intro l
    change pcb_status.toNat.testBit l = (2 ^ 32 - 1).testBit l
    rw [Nat.testBit_two_pow_sub_one]
    by_cases hl : l < 32
    · rw [hbefore l (by omega), decide_eq_true hl]
    · rw [decide_eq_false hl]
      apply Nat.testBit_lt_two_pow
      exact Nat.lt_of_lt_of_le pcb_status.toNat_lt (Nat.pow_le_pow_right (by decide) (by omega))
  · rintro rfl
    have hlast : j = 32 := by
      by_contra hne
      have hclear := hat (by omega)
      change (2 ^ 32 - 1).testBit j = false at hclear
      rw [Nat.testBit_two_pow_sub_one, decide_eq_true (by omega)] at hclear
      cases hclear
    rw [hlast]
    decide

end lacos.pcb
