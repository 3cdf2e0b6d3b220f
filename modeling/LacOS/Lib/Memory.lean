import LacOS.Base.Memory
import LacOS.Types

open memory

namespace lacos.lib

/-- The byte moves of `memcpy`'s tail (`.memcpy_bottom`). `view` gives the memory
    in which the source pointer is read: the memory being written when both
    pointers lie in one object, another object's memory otherwise. -/
def memcpy_bottom (view : Mem → Mem) (m : Mem) (edi esi : UInt32) : Nat → Mem
  | 0 => m
  | edx + 1 => memcpy_bottom view (store m edi (view m esi)) (edi + 1) (esi + 1) edx

/-- `rep movsl`: each step moves the four bytes at `esi` to `edi` as one word. -/
def rep_movsl (view : Mem → Mem) (m : Mem) (edi esi : UInt32) : Nat → Mem
  | 0 => m
  | ecx + 1 => rep_movsl view (blit m edi (view m) esi 4) (edi + 4) (esi + 4) ecx

def memcpy_aligned (view : Mem → Mem) (m : Mem) (edi esi : UInt32) (ecx : Nat) : Mem :=
  let words := ecx / 4
  let m := rep_movsl view m edi esi words
  memcpy_bottom view m (edi + UInt32.ofNat (4 * words)) (esi + UInt32.ofNat (4 * words)) (ecx % 4)

/-- Bytes are moved singly until the destination is word aligned. -/
def memcpy_top (view : Mem → Mem) (m : Mem) (edi esi : UInt32) : Nat → Mem
  | 0 => m
  | ecx + 1 =>
    if edi &&& 0x3 = 0 then memcpy_aligned view m edi esi (ecx + 1)
    else memcpy_top view (store m edi (view m esi)) (edi + 1) (esi + 1) ecx

/-- `memcpy` with both pointers in one memory. -/
def memcpy (m : Mem) (dest src n : UInt32) : Mem :=
  memcpy_top id m dest src n.toNat

/-- `memcpy` whose source lies in another object than its destination. -/
def memcpy_from (m : Mem) (dest : UInt32) (source : Mem) (src n : UInt32) : Mem :=
  memcpy_top (fun _ => source) m dest src n.toNat

/-- What the copying loops need of a source view: moving `n₁` bytes and then
    the next `n₂` must amount to moving all of them at once. -/
private def Splits (view : Mem → Mem) (m : Mem) (d s : UInt32) (total : Nat) : Prop :=
  ∀ n₁ n₂, n₁ + n₂ ≤ total →
    blit (blit m d (view m) s n₁) (d + UInt32.ofNat n₁) (view (blit m d (view m) s n₁))
      (s + UInt32.ofNat n₁) n₂ = blit m d (view m) s (n₁ + n₂)

/-- A copy within one memory can be made in parts if the destination does not begin inside the
    source. -/
private theorem splits_id (m : Mem) (d s : UInt32) (total : Nat)
    (hsafe : d = s ∨ total ≤ (d - s).toNat) (htotal : total < 2 ^ 32) : Splits id m d s total := by
  intro n₁ n₂ hn
  apply blit_self_append m d s n₁ n₂ _ (by omega)
  rcases hsafe with h | h
  · exact Or.inl h
  · exact Or.inr (by omega)

/-- A copy from another memory can always be made in parts. -/
private theorem splits_const (source m : Mem) (d s : UInt32) (total : Nat) (htotal : total < 2 ^ 32) :
    Splits (fun _ => source) m d s total := by
  intro n₁ n₂ hn
  exact blit_append m source d s n₁ n₂ (by omega)

/-- The last loop of `memcpy` copies byte by byte what the words have left over. -/
private theorem memcpy_bottom_spec {view : Mem → Mem} {m : Mem} {d s : UInt32} {total : Nat}
    (hsplits : Splits view m d s total) (n done : Nat) (hn : done + n ≤ total) :
    memcpy_bottom view (blit m d (view m) s done) (d + UInt32.ofNat done) (s + UInt32.ofNat done) n =
      blit m d (view m) s (done + n) := by
  induction n generalizing done with
  | zero => simp [memcpy_bottom]
  | succ n ih =>
    have hstep := hsplits done 1 (by omega)
    rw [memcpy_bottom, store_eq_blit, hstep]
    have hnext := ih (done + 1) (by omega)
    rw [UInt32.ofNat_add, ← UInt32.add_assoc, ← UInt32.add_assoc] at hnext
    rw [show done + (n + 1) = done + 1 + n by omega]
    exact hnext

/-- `rep movsl` copies four bytes a round, without regard to alignment. -/
private theorem rep_movsl_spec {view : Mem → Mem} {m : Mem} {d s : UInt32} {total : Nat}
    (hsplits : Splits view m d s total) (n done : Nat) (hn : done + 4 * n ≤ total) :
    rep_movsl view (blit m d (view m) s done) (d + UInt32.ofNat done) (s + UInt32.ofNat done) n =
      blit m d (view m) s (done + 4 * n) := by
  induction n generalizing done with
  | zero => simp [rep_movsl]
  | succ n ih =>
    have hstep := hsplits done 4 (by omega)
    rw [rep_movsl, hstep]
    have hnext := ih (done + 4) (by omega)
    rw [UInt32.ofNat_add, ← UInt32.add_assoc, ← UInt32.add_assoc] at hnext
    rw [show done + 4 * (n + 1) = done + 4 + 4 * n by omega]
    exact hnext

/-- From an aligned destination on, `memcpy` copies words and then up to three bytes. -/
private theorem memcpy_aligned_spec {view : Mem → Mem} {m : Mem} {d s : UInt32} {total : Nat}
    (hsplits : Splits view m d s total) (n done : Nat) (hn : done + n ≤ total) :
    memcpy_aligned view (blit m d (view m) s done) (d + UInt32.ofNat done) (s + UInt32.ofNat done) n =
      blit m d (view m) s (done + n) := by
  simp only [memcpy_aligned]
  rw [rep_movsl_spec hsplits (n / 4) done (by omega)]
  have htail := memcpy_bottom_spec hsplits (n % 4) (done + 4 * (n / 4)) (by omega)
  rw [UInt32.ofNat_add, ← UInt32.add_assoc, ← UInt32.add_assoc] at htail
  rw [htail, show done + 4 * (n / 4) + n % 4 = done + n by omega]

/-- The first loop of `memcpy` copies bytes until the destination is aligned or nothing is left.
    -/
private theorem memcpy_top_spec {view : Mem → Mem} {m : Mem} {d s : UInt32} {total : Nat}
    (hsplits : Splits view m d s total) (n done : Nat) (hn : done + n ≤ total) :
    memcpy_top view (blit m d (view m) s done) (d + UInt32.ofNat done) (s + UInt32.ofNat done) n =
      blit m d (view m) s (done + n) := by
  induction n generalizing done with
  | zero => simp [memcpy_top]
  | succ n ih =>
    rw [memcpy_top]
    split
    · exact memcpy_aligned_spec hsplits (n + 1) done hn
    · have hstep := hsplits done 1 (by omega)
      rw [store_eq_blit, hstep]
      have hnext := ih (done + 1) (by omega)
      rw [UInt32.ofNat_add, ← UInt32.add_assoc, ← UInt32.add_assoc] at hnext
      rw [show done + (n + 1) = done + 1 + n by omega]
      exact hnext

/-- The word-wise copy moves every byte as it stood before the call, provided
    the copy runs forward or the ranges are disjoint. Alignment is irrelevant. -/
theorem memcpy_eq_blit (m : Mem) (dest src n : UInt32)
    (hsafe : dest = src ∨ n.toNat ≤ (dest - src).toNat) :
    memcpy m dest src n = blit m dest m src n.toNat := by
  have hspec := memcpy_top_spec (splits_id m dest src n.toNat hsafe n.toNat_lt) n.toNat 0 (by omega)
  simpa [memcpy] using hspec

/-- `memcpy` from another memory is one block copy, with no condition on the two pointers. -/
theorem memcpy_from_eq_blit (m : Mem) (dest : UInt32) (source : Mem) (src n : UInt32) :
    memcpy_from m dest source src n = blit m dest source src n.toNat := by
  have hspec := memcpy_top_spec (splits_const source m dest src n.toNat n.toNat_lt) n.toNat 0 (by omega)
  simpa [memcpy_from] using hspec

/-- Byte `k` of the destination is byte `k` of the source as it was, for all `n`
    bytes, and no other byte changes. -/
structure CopiesBytes (m m' : Mem) (dest src : UInt32) (n : Nat) : Prop where
  copied : ∀ k < n, m' (dest + UInt32.ofNat k) = m (src + UInt32.ofNat k)
  unchanged : ∀ a, (∀ k < n, a ≠ dest + UInt32.ofNat k) → m' a = m a

/-- Two ranges without a byte in common, or with the destination before the source. -/
def Forward (dest src n : UInt32) : Prop :=
  (dest.toNat + n.toNat ≤ src.toNat ∨ src.toNat + n.toNat ≤ dest.toNat) ∨ dest ≤ src

/-- A block copy within one memory is a copy byte for byte. -/
theorem copiesBytes_blit (m : Mem) (dest src : UInt32) {n : Nat} (hn : n ≤ 2 ^ 32) :
    CopiesBytes m (blit m dest m src n) dest src n where
  copied _ hk := blit_inside m m dest src hk hn
  unchanged a ha := by
    apply blit_outside
    by_contra hinside
    obtain ⟨k, hk, hak⟩ := (offset_lt_iff a dest n hn).mp (Nat.lt_of_not_le hinside)
    exact ha k hk hak

/-- No word store destroys a source byte that is still to be read: `memcpy` copies byte for byte,
    whatever the alignments of its pointers. They need not be aligned alike, and the destination
    may reach into the source from before it. -/
theorem memcpy_copiesBytes (m : Mem) (dest src n : UInt32) (hdest : dest.toNat + n.toNat ≤ 2 ^ 32)
    (hsrc : src.toNat + n.toNat ≤ 2 ^ 32) (hranges : Forward dest src n) :
    CopiesBytes m (memcpy m dest src n) dest src n.toNat := by
  have hsafe : dest = src ∨ n.toNat ≤ (dest - src).toNat := by
    by_cases hsame : dest = src
    · exact Or.inl hsame
    · have hne : dest.toNat ≠ src.toNat := fun h => hsame (UInt32.toNat_inj.mp h)
      have hlt := dest.toNat_lt
      right
      rw [Forward, UInt32.le_iff_toNat_le] at hranges
      rw [UInt32.toNat_sub]
      omega
  rw [memcpy_eq_blit m dest src n hsafe]
  exact copiesBytes_blit m dest src (Nat.le_of_lt n.toNat_lt)

/-- The copy of `scroll`: 24 rows, each one row up. -/
theorem memcpy_copiesBytes_scroll :
    Forward VIDEO_ADDR (VIDEO_ADDR + 160) 3840 ∧
      CopiesBytes (fun a => a.toUInt8) (memcpy (fun a => a.toUInt8) VIDEO_ADDR (VIDEO_ADDR + 160) 3840) VIDEO_ADDR
        (VIDEO_ADDR + 160) (3840 : UInt32).toNat := by
  have hforward : Forward VIDEO_ADDR (VIDEO_ADDR + 160) 3840 := Or.inr (by decide)
  exact ⟨hforward, memcpy_copiesBytes _ _ _ _ (by decide) (by decide) hforward⟩

/-- `memset` runs the loop of `memcpy` with the fill byte in place of a loaded
    one: single bytes up to alignment, `rep stosl`, and a byte tail. -/
def memset (m : Mem) (s : UInt32) (c : UInt8) (n : UInt32) : Mem :=
  memcpy_top (fun _ _ => c) m s s n.toNat

/-- `memset` fills the range with one byte. -/
theorem memset_eq_fillWith (m : Mem) (s : UInt32) (c : UInt8) (n : UInt32) :
    memset m s c n = fillWith m s (fun _ => c) n.toNat :=
  memcpy_from_eq_blit m s (fun _ => c) s n

/-- `rep stosw`: the low sixteen bits of `c` go to `n` consecutive halfwords. -/
def rep_stosw (m : Mem) (edi c : UInt32) : Nat → Mem
  | 0 => m
  | ecx + 1 => rep_stosw (store (store m edi (wordByte c 0)) (edi + 1) (wordByte c 1)) (edi + 2) c ecx

def memset_word (m : Mem) (s c n : UInt32) : Mem :=
  rep_stosw m s c n.toNat

/-- `rep stosw` stores the two bytes of the word in turn. -/
private theorem rep_stosw_spec (m : Mem) (d c : UInt32) (n done : Nat) (hn : 2 * (done + n) < 2 ^ 32) :
    rep_stosw (fillWith m d (fun i => wordByte c (i % 2)) (2 * done)) (d + UInt32.ofNat (2 * done)) c n =
      fillWith m d (fun i => wordByte c (i % 2)) (2 * (done + n)) := by
  induction n generalizing done with
  | zero => simp [rep_stosw]
  | succ n ih =>
    have hnext := ih (done + 1) (by omega)
    have hpair : store (store (fillWith m d (fun i => wordByte c (i % 2)) (2 * done))
        (d + UInt32.ofNat (2 * done)) (wordByte c 0)) (d + UInt32.ofNat (2 * done) + 1) (wordByte c 1) =
        fillWith m d (fun i => wordByte c (i % 2)) (2 * (done + 1)) := by
      rw [show 2 * (done + 1) = 2 * done + 1 + 1 by omega, fillWith_succ _ _ _ _ (by omega),
        fillWith_succ _ _ _ _ (by omega), UInt32.ofNat_add, ← UInt32.add_assoc]
      have heven : 2 * done % 2 = 0 := by omega
      have hodd : (2 * done + 1) % 2 = 1 := by omega
      simp only [heven, hodd]
      rfl
    rw [rep_stosw, hpair]
    rw [show 2 * (done + 1) = 2 * done + 2 by omega, UInt32.ofNat_add, ← UInt32.add_assoc] at hnext
    rw [show done + (n + 1) = done + 1 + n by omega]
    exact hnext

/-- `memset_word` fills the range with the two bytes of the word in turn. The upper half of the
    word it is given is ignored. -/
theorem memset_word_eq_fillWith (m : Mem) (s c n : UInt32) (hn : 2 * n.toNat < 2 ^ 32) :
    memset_word m s c n = fillWith m s (fun i => wordByte c (i % 2)) (2 * n.toNat) := by
  have hspec := rep_stosw_spec m s c n.toNat 0 (by omega)
  simpa [memset_word] using hspec

end lacos.lib
