import Mathlib.Algebra.GroupWithZero.Nat
import Mathlib.Data.List.GetD
import Mathlib.Logic.Function.Basic
import Mathlib.Tactic.Common

namespace memory

/-- Byte memory over 32-bit addresses. Address arithmetic wraps, so a pointer
    into an object may run past either end of it. -/
abbrev Mem := UInt32 → UInt8

def store (m : Mem) (addr : UInt32) (value : UInt8) : Mem :=
  Function.update m addr value

/-- Byte `i` of a little-endian word. -/
def wordByte (word : UInt32) (i : Nat) : UInt8 :=
  UInt8.ofNat (word.toNat / 256 ^ i)

/-- The little-endian word stored at an address. -/
def load32 (m : Mem) (addr : UInt32) : UInt32 :=
  UInt32.ofNat ((m addr).toNat + 256 * (m (addr + 1)).toNat +
    256 ^ 2 * (m (addr + 2)).toNat + 256 ^ 3 * (m (addr + 3)).toNat)

/-- A word is read back from its four bytes, lowest first. -/
theorem load32_wordByte {m : Mem} {addr word : UInt32}
    (hbytes : ∀ i < 4, m (addr + UInt32.ofNat i) = wordByte word i) : load32 m addr = word := by
  have h0 : m addr = wordByte word 0 := by simpa using hbytes 0 (by omega)
  have h1 : m (addr + 1) = wordByte word 1 := hbytes 1 (by omega)
  have h2 : m (addr + 2) = wordByte word 2 := hbytes 2 (by omega)
  have h3 : m (addr + 3) = wordByte word 3 := hbytes 3 (by omega)
  have hword := word.toNat_lt
  apply UInt32.toNat_inj.mp
  simp only [load32, h0, h1, h2, h3, wordByte, UInt8.toNat_ofNat', UInt32.toNat_ofNat']
  omega

/-- Equal bytes make equal words. The addresses need not be equal. -/
theorem load32_congr {m m' : Mem} {addr addr' : UInt32}
    (hbytes : ∀ i < 4, m (addr + UInt32.ofNat i) = m' (addr' + UInt32.ofNat i)) : load32 m addr = load32 m' addr' := by
  have h0 : m addr = m' addr' := by simpa using hbytes 0 (by omega)
  have h1 : m (addr + 1) = m' (addr' + 1) := hbytes 1 (by omega)
  have h2 : m (addr + 2) = m' (addr' + 2) := hbytes 2 (by omega)
  have h3 : m (addr + 3) = m' (addr' + 3) := hbytes 3 (by omega)
  rw [load32, load32, h0, h1, h2, h3]

/-- Simultaneous copy of `n` bytes between two memories. Every byte is read
    from the source as it stands before the copy. -/
def blit (dst : Mem) (d : UInt32) (src : Mem) (s : UInt32) (n : Nat) : Mem :=
  fun a => if (a - d).toNat < n then src (s + (a - d)) else dst a

/-- Every byte of an `n`-byte range takes the value given by its index. -/
def fillWith (m : Mem) (d : UInt32) (f : Nat → UInt8) (n : Nat) : Mem :=
  fun a => if (a - d).toNat < n then f (a - d).toNat else m a

/-- Reading with a default behind the last element, in one case distinction. -/
theorem getD_snoc {α : Type*} (l : List α) (c d : α) (i : Nat) :
    (l ++ [c]).getD i d = if i = l.length then c else l.getD i d := by
  rcases Nat.lt_trichotomy i l.length with hlt | heq | hgt
  · rw [List.getD_append _ _ _ _ hlt, if_neg (Nat.ne_of_lt hlt)]
  · rw [List.getD_append_right _ _ _ _ (Nat.le_of_eq heq.symm), heq, Nat.sub_self, if_pos rfl]
    rfl
  · rw [if_neg (Nat.ne_of_gt hgt), List.getD_eq_default _ _ (Nat.le_of_lt hgt), List.getD_eq_default]
    rw [List.length_append]
    exact hgt

/-- The default at the end of a list does not show. -/
theorem getD_append_default {α : Type*} (l : List α) (d : α) (i : Nat) : (l ++ [d]).getD i d = l.getD i d := by
  rw [getD_snoc]
  split
  · rename_i hlast
    rw [List.getD_eq_default _ _ (Nat.le_of_eq hlast.symm)]
  · rfl

@[simp] theorem blit_zero (dst src : Mem) (d s : UInt32) : blit dst d src s 0 = dst := by
  funext a
  simp [blit]

@[simp] theorem fillWith_zero (m : Mem) (d : UInt32) (f : Nat → UInt8) : fillWith m d f 0 = m := by
  funext a
  simp [fillWith]

/-- The distance of an address from the pointer it was made from, around the end of memory too. -/
theorem offset_toNat (d : UInt32) {i : Nat} (hi : i < 2 ^ 32) :
    (d + UInt32.ofNat i - d).toNat = i := by
  have hcancel : d + UInt32.ofNat i - d = UInt32.ofNat i := by grind
  rw [hcancel, UInt32.toNat_ofNat', Nat.mod_eq_of_lt hi]

/-- The addresses of a range are those within its length of its start. -/
theorem offset_lt_iff (a d : UInt32) (n : Nat) (hn : n ≤ 2 ^ 32) :
    (a - d).toNat < n ↔ ∃ i < n, a = d + UInt32.ofNat i := by
  constructor
  · intro h
    refine ⟨(a - d).toNat, h, ?_⟩
    rw [UInt32.ofNat_toNat]
    grind
  · rintro ⟨i, hi, rfl⟩
    rw [offset_toNat d (by omega)]
    exact hi

/-- Being within `n` bytes of an address, where that range does not wrap. -/
theorem sub_toNat_lt_iff (a d : UInt32) {n : Nat} (hd : d.toNat + n ≤ 2 ^ 32) :
    (a - d).toNat < n ↔ d.toNat ≤ a.toNat ∧ a.toNat < d.toNat + n := by
  have ha := a.toNat_lt
  rw [UInt32.toNat_sub]
  by_cases hle : d.toNat ≤ a.toNat
  · omega
  · omega

/-- A byte in the range is the byte of the source at the same distance. -/
theorem blit_inside (dst src : Mem) (d s : UInt32) {n i : Nat} (hi : i < n) (hn : n ≤ 2 ^ 32) :
    blit dst d src s n (d + UInt32.ofNat i) = src (s + UInt32.ofNat i) := by
  have hoff := offset_toNat d (i := i) (by omega)
  have hcancel : d + UInt32.ofNat i - d = UInt32.ofNat i := by grind
  rw [hcancel] at hoff
  simp only [blit, hcancel, hoff, hi, if_true]

theorem blit_outside {dst : Mem} (src : Mem) {d : UInt32} (s : UInt32) {n : Nat} {a : UInt32}
    (ha : n ≤ (a - d).toNat) : blit dst d src s n a = dst a := by
  simp only [blit, Nat.not_lt.mpr ha, if_false]

/-- The offset of an address from an advanced pointer. -/
theorem sub_add_toNat (a d : UInt32) {n : Nat} (hn : n < 2 ^ 32) :
    (a - (d + UInt32.ofNat n)).toNat =
      if n ≤ (a - d).toNat then (a - d).toNat - n else (a - d).toNat + 2 ^ 32 - n := by
  simp only [UInt32.toNat_sub, UInt32.toNat_add, UInt32.toNat_ofNat']
  have ha := a.toNat_lt
  have hd := d.toNat_lt
  split <;> omega

/-- Two consecutive copies between separate memories make one longer copy. -/
theorem blit_append (dst src : Mem) (d s : UInt32) (n₁ n₂ : Nat) (hn : n₁ + n₂ < 2 ^ 32) :
    blit (blit dst d src s n₁) (d + UInt32.ofNat n₁) src (s + UInt32.ofNat n₁) n₂ =
      blit dst d src s (n₁ + n₂) := by
  funext a
  have hsub := sub_add_toNat a d (n := n₁) (by omega)
  have haddr : s + UInt32.ofNat n₁ + (a - (d + UInt32.ofNat n₁)) = s + (a - d) := by grind
  simp only [blit, haddr, hsub]
  by_cases hfirst : n₁ ≤ (a - d).toNat
  · have hnot : ¬ (a - d).toNat < n₁ := by omega
    have hiff : (a - d).toNat - n₁ < n₂ ↔ (a - d).toNat < n₁ + n₂ := by omega
    simp only [hfirst, if_true, hnot, if_false, hiff]
  · have hlt : (a - d).toNat < n₁ := by omega
    have hlong : (a - d).toNat < n₁ + n₂ := by omega
    have hover : ¬ (a - d).toNat + 2 ^ 32 - n₁ < n₂ := by omega
    simp only [hfirst, if_false, hover, hlt, hlong, if_true]

/-- Copying forward inside one memory: splitting the copy is harmless as long
    as the part written first covers no source byte still to be read. -/
theorem blit_self_append (m : Mem) (d s : UInt32) (n₁ n₂ : Nat)
    (hsafe : d = s ∨ n₁ + n₂ ≤ (d - s).toNat) (hn : n₁ + n₂ < 2 ^ 32) :
    blit (blit m d m s n₁) (d + UInt32.ofNat n₁) (blit m d m s n₁) (s + UInt32.ofNat n₁) n₂ =
      blit m d m s (n₁ + n₂) := by
  rw [← blit_append m m d s n₁ n₂ hn]
  funext a
  have hsub := sub_add_toNat a d (n := n₁) (by omega)
  have haddr : s + UInt32.ofNat n₁ + (a - (d + UInt32.ofNat n₁)) = s + (a - d) := by grind
  generalize hfirst : blit m d m s n₁ = first
  simp only [blit, haddr]
  by_cases hread : (a - (d + UInt32.ofNat n₁)).toNat < n₂
  · simp only [hread, if_true]
    subst first
    apply blit_outside
    rw [hsub] at hread
    have hlarge : n₁ ≤ (a - d).toNat := by
      by_contra hsmall
      rw [if_neg hsmall] at hread
      omega
    rw [if_pos hlarge] at hread
    rcases hsafe with rfl | hsafe
    · have hsame : d + (a - d) - d = a - d := by grind
      rw [hsame]
      exact hlarge
    · have hback : s + (a - d) - d = (a - d) - (d - s) := by grind
      rw [hback, UInt32.toNat_sub]
      have hx := (a - d).toNat_lt
      have hy := (d - s).toNat_lt
      omega
  · simp only [hread, if_false]

theorem store_eq_blit (dst src : Mem) (d s : UInt32) : store dst d (src s) = blit dst d src s 1 := by
  funext a
  by_cases ha : a = d
  · subst a
    simp [store, blit]
  · have hne : ¬ (a - d).toNat < 1 := by
      intro h
      apply ha
      have hzero : (a - d).toNat = (0 : UInt32).toNat := by simp; omega
      have := UInt32.toNat_inj.mp hzero
      grind
    simp [store, blit, ha, hne]

/-- A byte in the range is the one given for its index. -/
theorem fillWith_inside (m : Mem) (d : UInt32) (f : Nat → UInt8) {n i : Nat} (hi : i < n)
    (hn : n ≤ 2 ^ 32) : fillWith m d f n (d + UInt32.ofNat i) = f i := by
  have hoff := offset_toNat d (i := i) (by omega)
  simp only [fillWith, hoff, hi, if_true]

theorem fillWith_outside {m : Mem} {d : UInt32} (f : Nat → UInt8) {n : Nat} {a : UInt32}
    (ha : n ≤ (a - d).toNat) : fillWith m d f n a = m a := by
  simp only [fillWith, Nat.not_lt.mpr ha, if_false]

/-- A memory that agrees with `f` on a range and with `m` everywhere else. -/
theorem eq_fillWith {m m' : Mem} {d : UInt32} {f : Nat → UInt8} {n : Nat}
    (hinside : ∀ i < n, m' (d + UInt32.ofNat i) = f i)
    (houtside : ∀ a, n ≤ (a - d).toNat → m' a = m a) : m' = fillWith m d f n := by
  funext a
  by_cases ha : (a - d).toNat < n
  · have hbyte := hinside _ ha
    rw [UInt32.ofNat_toNat, show d + (a - d) = a by grind] at hbyte
    simp only [fillWith, ha, if_true, hbyte]
  · simp only [fillWith, ha, if_false, houtside a (by omega)]

/-- Two addresses of a range are the same only if their indices are. -/
theorem store_offset (m : Mem) (d : UInt32) (value : UInt8) {i j : Nat} (hi : i < 2 ^ 32) (hj : j < 2 ^ 32) :
    store m (d + UInt32.ofNat j) value (d + UInt32.ofNat i) =
      if i = j then value else m (d + UInt32.ofNat i) := by
  by_cases hij : i = j
  · subst i
    simp [store]
  · have hne : d + UInt32.ofNat i ≠ d + UInt32.ofNat j := by
      intro heq
      have hi' := offset_toNat d hi
      rw [heq, offset_toNat d hj] at hi'
      exact hij hi'.symm
    simp [store, hij, hne]

/-- A store inside a range does not change a byte outside of it. -/
theorem store_outside {m : Mem} {d : UInt32} (value : UInt8) {n j : Nat} {a : UInt32} (hj : j < n)
    (hn : n ≤ 2 ^ 32) (ha : n ≤ (a - d).toNat) : store m (d + UInt32.ofNat j) value a = m a := by
  have hne : a ≠ d + UInt32.ofNat j := by
    rintro rfl
    rw [offset_toNat d (by omega)] at ha
    omega
  simp [store, hne]

/-- A copy is determined by the bytes its source range holds. -/
theorem blit_eq_fillWith (dst src : Mem) (d s : UInt32) (f : Nat → UInt8) (n : Nat)
    (hbytes : ∀ i < n, src (s + UInt32.ofNat i) = f i) : blit dst d src s n = fillWith dst d f n := by
  funext a
  by_cases ha : (a - d).toNat < n
  · have hbyte := hbytes _ ha
    rw [UInt32.ofNat_toNat] at hbyte
    simp only [blit, fillWith, ha, if_true, hbyte]
  · simp only [blit, fillWith, ha, if_false]

/-- Filling on from where an earlier fill stopped extends that fill. -/
theorem fillWith_append (m : Mem) (d : UInt32) (f : Nat → UInt8) (n₁ n₂ : Nat) (hn : n₁ + n₂ < 2 ^ 32) :
    fillWith (fillWith m d f n₁) (d + UInt32.ofNat n₁) (fun i => f (n₁ + i)) n₂ =
      fillWith m d f (n₁ + n₂) := by
  funext a
  have hsub := sub_add_toNat a d (n := n₁) (by omega)
  simp only [fillWith, hsub]
  by_cases hfirst : n₁ ≤ (a - d).toNat
  · have hnot : ¬ (a - d).toNat < n₁ := by omega
    have hiff : (a - d).toNat - n₁ < n₂ ↔ (a - d).toNat < n₁ + n₂ := by omega
    have hindex : n₁ + ((a - d).toNat - n₁) = (a - d).toNat := by omega
    simp only [hfirst, if_true, hnot, if_false, hiff, hindex]
  · have hlt : (a - d).toNat < n₁ := by omega
    have hlong : (a - d).toNat < n₁ + n₂ := by omega
    have hover : ¬ (a - d).toNat + 2 ^ 32 - n₁ < n₂ := by omega
    simp only [hfirst, if_false, hover, hlt, hlong, if_true]

/-- Filling one byte more is a store behind the range. -/
theorem fillWith_succ (m : Mem) (d : UInt32) (f : Nat → UInt8) (n : Nat) (hn : n + 1 < 2 ^ 32) :
    fillWith m d f (n + 1) = store (fillWith m d f n) (d + UInt32.ofNat n) (f n) := by
  rw [← fillWith_append m d f n 1 hn]
  funext a
  by_cases ha : (a - (d + UInt32.ofNat n)).toNat < 1
  · have hzero : a - (d + UInt32.ofNat n) = 0 := UInt32.toNat_inj.mp (by simp; omega)
    have haddr : a = d + UInt32.ofNat n := by grind
    simp [haddr, fillWith, store]
  · have hne : a ≠ d + UInt32.ofNat n := by
      rintro rfl
      simp at ha
    rw [fillWith_outside _ (by omega), store, Function.update_of_ne hne]

theorem store_eq_fillWith (m : Mem) (d : UInt32) (f : Nat → UInt8) : store m d (f 0) = fillWith m d f 1 := by
  have hzero : d + UInt32.ofNat 0 = d := UInt32.add_zero d
  rw [fillWith_succ m d f 0 (by omega), fillWith_zero, hzero]

/-- A store into a filled range is a fill with another value at its index. -/
theorem store_fillWith (m : Mem) (d : UInt32) (f : Nat → UInt8) {n i : Nat} (hi : i < n) (hn : n ≤ 2 ^ 32)
    (value : UInt8) :
    store (fillWith m d f n) (d + UInt32.ofNat i) value = fillWith m d (Function.update f i value) n := by
  apply eq_fillWith
  · intro j hj
    rw [store_offset _ _ _ (by omega) (by omega), fillWith_inside _ _ _ hj hn, Function.update_apply]
  · intro a ha
    rw [store_outside value hi hn ha, fillWith_outside f ha]

/-- A fill, first byte first. -/
theorem fillWith_cons (m : Mem) (d : UInt32) (f : Nat → UInt8) (n : Nat) (hn : n + 1 < 2 ^ 32) :
    fillWith m d f (n + 1) = fillWith (store m d (f 0)) (d + 1) (fun i => f (i + 1)) n := by
  have hone : (1 : UInt32) = UInt32.ofNat 1 := rfl
  have hindex : (fun i => f (i + 1)) = fun i => f (1 + i) := by
    funext i
    rw [Nat.add_comm]
  rw [store_eq_fillWith, hone, hindex, fillWith_append _ _ _ _ _ (by omega), Nat.add_comm]

/-- Stepping a pointer and then counting on is counting one further. -/
theorem add_ofNat_succ (a : UInt32) (i : Nat) : a + UInt32.ofNat (i + 1) = a + 1 + UInt32.ofNat i := by
  have hone : UInt32.ofNat 1 = 1 := rfl
  rw [Nat.add_comm i 1, UInt32.ofNat_add, hone, UInt32.add_assoc]

end memory
