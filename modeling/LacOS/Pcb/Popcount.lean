import LacOS.Base.Lanes
import LacOS.Pcb.Slots

open Nat (ofDigits)
open lanes

namespace lacos.pcb

/-- The weights of the pairs of bits of a byte, each in the place of its pair. -/
def pairSums (x : Nat) : Nat := x - (x / 2 &&& 0x55)

/-- The weights of the halves of a byte, from those of its pairs. -/
def halfSums (x : Nat) : Nat := (x &&& 0x33) + (x / 4 &&& 0x33)

/-- The weight of a byte, from those of its halves. -/
def byteSum (x : Nat) : Nat := x % 16 + x / 16

/-- The three sums count the bits of a byte. -/
theorem byte_weight {x : Nat} (hx : x < 2 ^ 8) :
    byteSum (halfSums (pairSums x)) = Nat.count (fun i => x.testBit i) 8 := by
  have hall : ∀ x : Fin 256, byteSum (halfSums (pairSums x)) = Nat.count (fun i => x.val.testBit i) 8 := by
    decide +kernel
  exact hall ⟨x, hx⟩

/-- The weight of half a byte is at most four, so that two of them fit into four bits. -/
theorem halfSums_small {x : Nat} (hx : x < 2 ^ 8) :
    halfSums (pairSums x) % 16 ≤ 4 ∧ halfSums (pairSums x) / 16 ≤ 4 := by
  have hall : ∀ x : Fin 256, halfSums (pairSums x) % 16 ≤ 4 ∧ halfSums (pairSums x) / 16 ≤ 4 := by
    decide +kernel
  exact hall ⟨x, hx⟩

/-- The four bytes of a word, lowest first. -/
structure Bytes (word : UInt32) (xs : List Nat) : Prop where
  length : xs.length = 4
  lt : ∀ x ∈ xs, x < 2 ^ 8
  toNat : word.toNat = ofDigits (2 ^ 8) xs

/-- A word is four bytes. -/
theorem exists_bytes (word : UInt32) : ∃ xs, Bytes word xs := by
  have hword := word.toNat_lt
  generalize hn : word.toNat = n at hword
  refine ⟨[n % 256, n / 256 % 256, n / 65536 % 256, n / 16777216], rfl, ?_, ?_⟩
  · simp only [List.mem_cons, List.not_mem_nil, or_false]
    omega
  · simp only [hn, Nat.ofDigits_cons, Nat.ofDigits_nil]
    omega

section Steps

variable {word : UInt32} {xs : List Nat} (hword : Bytes word xs)
include hword

/-- A mask that repeats one byte, after a shift that leaves the bits of the mask in their bytes. -/
theorem Bytes.shift_and (shift mask : UInt32) (k byte : Nat) (hshift : shift.toNat = k) (hk : k < 8)
    (hmask : mask.toNat = ofDigits (2 ^ 8) (List.replicate 4 byte)) (hbyte : byte < 2 ^ (8 - k)) :
    ((word >>> shift) &&& mask).toNat = ofDigits (2 ^ 8) (xs.map fun x => x / 2 ^ k &&& byte) := by
  rw [UInt32.toNat_and, UInt32.toNat_shiftRight, hshift, Nat.mod_eq_of_lt (by omega), Nat.shiftRight_eq_div_pow,
    hword.toNat, hmask, ← hword.length]
  exact ofDigits_shift_and hword.lt (Nat.le_of_lt hk) hbyte

/-- A mask of four equal bytes masks each byte. -/
theorem Bytes.and (mask : UInt32) (byte : Nat) (hmask : mask.toNat = ofDigits (2 ^ 8) (List.replicate 4 byte))
    (hbyte : byte < 2 ^ 8) : (word &&& mask).toNat = ofDigits (2 ^ 8) (xs.map fun x => x &&& byte) := by
  have hshift := hword.shift_and 0 mask 0 byte rfl (by decide) hmask hbyte
  rw [show word >>> 0 = word by simp] at hshift
  simpa using hshift

/-- Two words whose bytes are added without a carry. -/
theorem Bytes.of_add {f : Nat → Nat} {low high : UInt32} {g h : Nat → Nat} (hf : ∀ x < 2 ^ 8, f x < 2 ^ 8)
    (hsum : ∀ x, f x = g x + h x) (hlow : low.toNat = ofDigits (2 ^ 8) (xs.map g))
    (hhigh : high.toNat = ofDigits (2 ^ 8) (xs.map h)) : Bytes (low + high) (xs.map f) := by
  have hlength : (xs.map f).length = 4 := by rw [List.length_map, hword.length]
  have hlt : ∀ y ∈ xs.map f, y < 2 ^ 8 := by
    intro y hy
    obtain ⟨x, hx, rfl⟩ := List.mem_map.mp hy
    exact hf x (hword.lt x hx)
  have htotal : ofDigits (2 ^ 8) (xs.map g) + ofDigits (2 ^ 8) (xs.map h) = ofDigits (2 ^ 8) (xs.map f) := by
    rw [ofDigits_add_map]
    congr 1
    exact List.map_congr_left fun x _ => (hsum x).symm
  have hbound := Nat.ofDigits_lt_base_pow_length (by decide) hlt
  rw [hlength] at hbound
  refine ⟨hlength, hlt, ?_⟩
  rw [UInt32.toNat_add, hlow, hhigh, htotal]
  exact Nat.mod_eq_of_lt hbound

/-- The first step counts the bits of each pair, byte by byte: no borrow crosses a byte. -/
theorem Bytes.pairSums : Bytes (word - ((word >>> (1 : UInt32)) &&& (0x55555555 : UInt32))) (xs.map pairSums) := by
  have hmasked := hword.shift_and 1 0x55555555 1 0x55 rfl (by decide) rfl (by decide)
  have hid : ofDigits (2 ^ 8) (xs.map fun x => x) = word.toNat := by rw [List.map_id', hword.toNat]
  have hle (x : Nat) : (x / 2 ^ 1 &&& 0x55) ≤ x := Nat.le_trans Nat.and_le_left (Nat.div_le_self x 2)
  refine ⟨by rw [List.length_map, hword.length], ?_, ?_⟩
  · intro y hy
    obtain ⟨x, hx, rfl⟩ := List.mem_map.mp hy
    exact Nat.lt_of_le_of_lt (Nat.sub_le _ _) (hword.lt x hx)
  · rw [UInt32.toNat_sub_of_le]
    · rw [hmasked, ← hid, ofDigits_sub_map _ _ fun x _ => hle x]
      rfl
    · rw [UInt32.le_iff_toNat_le, hmasked, ← hid]
      exact ofDigits_le_map _ _ fun x _ => hle x

/-- The second step adds the pairs, byte by byte. -/
theorem Bytes.halfSums :
    Bytes ((word &&& (0x33333333 : UInt32)) + ((word >>> (2 : UInt32)) &&& (0x33333333 : UInt32)))
      (xs.map halfSums) := by
  have hhigh := hword.shift_and 2 0x33333333 2 0x33 rfl (by decide) rfl (by decide)
  have hlow := hword.and 0x33333333 0x33 rfl (by decide)
  refine hword.of_add (fun x _ => ?_) (fun x => rfl) hlow hhigh
  have hleft : x &&& 0x33 ≤ 0x33 := Nat.and_le_right
  have hright : x / 4 &&& 0x33 ≤ 0x33 := Nat.and_le_right
  rw [pcb.halfSums]
  omega

/-- The halves of a byte are added within it as long as both are small. -/
theorem Bytes.byteSum (hsmall : ∀ x ∈ xs, x % 16 ≤ 4 ∧ x / 16 ≤ 4) :
    Bytes ((word + (word >>> (4 : UInt32))) &&& (0x0F0F0F0F : UInt32)) (xs.map byteSum) := by
  obtain ⟨hlength, -, htoNat⟩ := hword
  match xs, hlength with
  | [a, b, c, d], _ =>
    simp only [List.mem_cons, List.not_mem_nil, or_false, forall_eq_or_imp, forall_eq] at hsmall
    obtain ⟨ha, hb, hc, hd⟩ := hsmall
    -- What the shift brings down from the byte above lands in the upper half, which is then masked.
    have hsum : Bytes (word + (word >>> (4 : UInt32)))
        [a + a / 16 + 16 * (b % 16), b + b / 16 + 16 * (c % 16), c + c / 16 + 16 * (d % 16), d + d / 16] := by
      refine ⟨rfl, ?_, ?_⟩
      · simp only [List.mem_cons, List.not_mem_nil, or_false, forall_eq_or_imp, forall_eq]
        omega
      · have hshift : (4 : UInt32).toNat % 32 = 4 := rfl
        rw [UInt32.toNat_add, UInt32.toNat_shiftRight, htoNat, hshift, Nat.shiftRight_eq_div_pow]
        simp only [Nat.ofDigits_cons, Nat.ofDigits_nil]
        omega
    have hmasked := hsum.and 0x0F0F0F0F 0x0F rfl (by decide)
    have hlow (x above : Nat) (hx : x % 16 ≤ 4 ∧ x / 16 ≤ 4) : x + x / 16 + 16 * above &&& 15 = x % 16 + x / 16 := by
      have hmod : x + x / 16 + 16 * above &&& 15 = (x + x / 16 + 16 * above) % 16 :=
        Nat.and_two_pow_sub_one_eq_mod _ 4
      omega
    have hlast := hlow d 0 hd
    rw [Nat.mul_zero, Nat.add_zero] at hlast
    refine ⟨rfl, ?_, ?_⟩
    · simp only [List.map_cons, List.map_nil, List.mem_cons, List.not_mem_nil, or_false, forall_eq_or_imp, forall_eq,
        pcb.byteSum]
      omega
    · rw [hmasked]
      simp only [List.map_cons, List.map_nil, pcb.byteSum, hlow a _ ha, hlow b _ hb, hlow c _ hc, hlast]

/-- The multiplication collects the sum of all bytes in the highest one. -/
theorem Bytes.collect (hsmall : ∀ x ∈ xs, x ≤ 8) :
    ((word * (0x01010101 : UInt32)) >>> (24 : UInt32)).toNat = xs.sum := by
  obtain ⟨hlength, -, htoNat⟩ := hword
  match xs, hlength with
  | [a, b, c, d], _ =>
    simp only [List.mem_cons, List.not_mem_nil, or_false, forall_eq_or_imp, forall_eq] at hsmall
    have hshift : (24 : UInt32).toNat % 32 = 24 := rfl
    have hfactor : (0x01010101 : UInt32).toNat = 0x01010101 := rfl
    have hproduct : ofDigits (2 ^ 8) [a, b, c, d] * 0x01010101 =
        a + 256 * (a + b) + 65536 * (a + b + c) + 2 ^ 24 * (a + b + c + d) +
          2 ^ 32 * (b + c + d + 256 * (c + d) + 65536 * d) := by
      simp only [Nat.ofDigits_cons, Nat.ofDigits_nil]
      omega
    have hlow : a + 256 * (a + b) + 65536 * (a + b + c) < 2 ^ 24 := by omega
    have hword : a + 256 * (a + b) + 65536 * (a + b + c) + 2 ^ 24 * (a + b + c + d) < 2 ^ 32 := by omega
    rw [UInt32.toNat_shiftRight, UInt32.toNat_mul, htoNat, hshift, hfactor, Nat.shiftRight_eq_div_pow, hproduct,
      Nat.add_mul_mod_self_left, Nat.mod_eq_of_lt hword, Nat.add_mul_div_left _ _ (by decide),
      Nat.div_eq_of_lt hlow]
    simp only [List.sum_cons, List.sum_nil]
    omega

end Steps

/-- The weight of a status is the number of slots it marks as taken. -/
theorem our_popcount_toNat (pcb_status : UInt32) : (our_popcount pcb_status).toNat = Nat.count (Taken pcb_status) 32 := by
  obtain ⟨xs, hvalue⟩ := exists_bytes pcb_status
  have hhalves := hvalue.pairSums.halfSums
  rw [List.map_map] at hhalves
  have hbytes := hhalves.byteSum fun y hy => by
    obtain ⟨x, hx, rfl⟩ := List.mem_map.mp hy
    exact halfSums_small (hvalue.lt x hx)
  have hweights : (xs.map (halfSums ∘ pairSums)).map byteSum =
      xs.map fun x => Nat.count (fun i => x.testBit i) 8 := by
    rw [List.map_map]
    exact List.map_congr_left fun x hx => byte_weight (hvalue.lt x hx)
  rw [hweights] at hbytes
  have hcount := count_testBit_ofDigits hvalue.lt
  rw [hvalue.length, ← hvalue.toNat] at hcount
  refine Eq.trans ?_ hcount.symm
  refine hbytes.collect fun y hy => ?_
  obtain ⟨x, -, rfl⟩ := List.mem_map.mp hy
  exact Nat.count_le _

/-- `our_popcount` counts the set bits of every word. They need not be among the six that the
    kernel uses. -/
theorem our_popcount_eq_count (value : UInt32) :
    (our_popcount value).toNat = Nat.count (fun i => value.toNat.testBit i) 32 := our_popcount_toNat value

section Six

variable {pcb_status : UInt32} (hsix : SixSlots pcb_status)
include hsix

/-- With the taken slots among the six, the count is that of the six. -/
theorem our_popcount_six : (our_popcount pcb_status).toNat = Nat.count (Taken pcb_status) 6 := by
  have hnone (i : Nat) (_ : i < 26) : ¬ Taken pcb_status (6 + i) := fun htaken => by
    have hlt := hsix _ htaken
    omega
  have hsplit := Nat.count_add (Taken pcb_status) 6 26
  rw [Nat.count_of_forall_not hnone, Nat.add_zero] at hsplit
  rw [our_popcount_toNat]
  exact hsplit

/-- Then it is at most the number of processes, so that the comparison with that number is enough.
    -/
theorem our_popcount_le : our_popcount pcb_status ≤ MAX_PROCESSES := by
  rw [UInt32.le_iff_toNat_le, our_popcount_six hsix]
  exact Nat.count_le _

/-- Only with all six slots taken the weight is six. -/
theorem our_popcount_eq_iff : our_popcount pcb_status = MAX_PROCESSES ↔ ∀ n < 6, Taken pcb_status n := by
  have hmax : MAX_PROCESSES.toNat = 6 := rfl
  rw [← UInt32.toNat_inj, our_popcount_six hsix, hmax]
  exact Nat.count_iff_forall

/-- While the weight is not six, one of the six slots is free and found. -/
theorem find_empty_pcb_free (hroom : our_popcount pcb_status ≠ MAX_PROCESSES) :
    ∃ n < 6, find_empty_pcb pcb_status = (UInt32.ofNat n, pcb_status ||| (1 <<< UInt32.ofNat n)) ∧
      ¬ Taken pcb_status n := by
  obtain ⟨n, hn, hfind, hbefore, hat⟩ := find_empty_pcb_spec pcb_status
  have hlt : n < 6 := by
    by_contra hge
    exact hroom ((our_popcount_eq_iff hsix).mpr fun l hl => hbefore l (by omega))
  exact ⟨n, hlt, hfind, not_taken_iff.mpr (hat (by omega))⟩

end Six

end lacos.pcb
