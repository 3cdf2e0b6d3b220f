import LacOS.FileSystem.ReadData

open memory lacos.lib

namespace lacos.file_system

/-- How many bytes the call is to copy when every block is readable. -/
def readTotal (fs : Image) (inode offset length : UInt32) : Nat :=
  min length.toNat ((fs.file_length inode).toNat - offset.toNat)

/-- Loop invariant of `read_data`, which is to copy `total` bytes: the bytes copied so
    far are a prefix of the requested range, all from readable blocks, and while bytes
    remain the next one is `start_offset` bytes into block `cur_block_num`. -/
structure Reading (fs : Image) (inode offset : UInt32) (total : Nat) (buf : UInt32) (m : Mem) (st : ReadState) :
    Prop where
  position : 0 < st.remaining.toNat →
    4096 * st.cur_block_num.toNat + st.start_offset.toNat = offset.toNat + st.done_so_far.toNat
  inside : st.start_offset.toNat < 4096
  aligned : st.done_so_far ≠ 0 → st.start_offset = 0
  count : st.remaining.toNat + st.done_so_far.toNat = total
  readable : ∀ k < st.done_so_far.toNat, fs.Readable inode (offset.toNat + k)
  copied : st.buf = fillWith m buf (fun k => fs.fileByte inode (offset.toNat + k)) st.done_so_far.toNat

/-- A file that is read as a whole is what remains at the start. -/
theorem read_data_truncate_whole {length file_length : UInt32} (hlong : file_length ≤ length) :
    read_data_truncate 0 length file_length = file_length := by
  simp only [read_data_truncate, UInt32.zero_add, UInt32.sub_zero]
  split
  · rfl
  · rename_i hshort
    exact UInt32.le_antisymm (UInt32.not_lt.mp hshort) hlong

section Loop

variable {fs : Image} {inode offset length buf : UInt32} {total : Nat} {m : Mem} {st : ReadState}

/-- All four ways of choosing the chunk come to the same amount: what remains,
    cut at the end of the current block. -/
theorem read_data_chunk_spec {file_length : UInt32} (hinside : st.start_offset.toNat < 4096)
    (haligned : st.done_so_far ≠ 0 → st.start_offset = 0)
    (hsmall : st.start_offset.toNat + st.remaining.toNat < 2 ^ 32)
    (hwhole : st.done_so_far = 0 → offset = 0 → file_length ≤ length → st.remaining = file_length) :
    (read_data_chunk offset length file_length st).1.toNat =
        min st.remaining.toNat (4096 - st.start_offset.toNat) ∧
      (read_data_chunk offset length file_length st).2 = st.remaining := by
  have hsum : (st.start_offset + st.remaining).toNat = st.start_offset.toNat + st.remaining.toNat := by
    rw [UInt32.toNat_add]
    omega
  unfold read_data_chunk
  by_cases hfirst : st.done_so_far = 0
  · simp only [hfirst, if_true]
    by_cases hcross : st.start_offset + st.remaining > BLK_SIZE_BYTES
    · simp only [hcross, if_true, and_true]
      have hcross' : 4096 < st.start_offset.toNat + st.remaining.toNat := by
        simpa [UInt32.lt_iff_toNat_lt, hsum] using hcross
      rw [UInt32.toNat_sub_of_le]
      · simp only [blk_size_bytes_toNat]
        omega
      · rw [UInt32.le_iff_toNat_le, blk_size_bytes_toNat]
        omega
    · have hcross' : st.start_offset.toNat + st.remaining.toNat ≤ 4096 := by
        simpa [UInt32.le_iff_toNat_le, hsum] using hcross
      simp only [hcross, if_false]
      by_cases hshort : offset = 0 ∧ length ≥ file_length
      · simp only [hshort, and_self, if_true]
        rw [← hwhole hfirst hshort.1 hshort.2]
        exact ⟨by omega, rfl⟩
      · simp only [hshort, if_false, and_true]
        omega
  · simp only [hfirst, if_false]
    rw [haligned hfirst]
    by_cases hlast : st.remaining ≤ BLK_SIZE_BYTES
    · simp only [hlast, if_true, and_true]
      have hlast' : st.remaining.toNat ≤ 4096 := by simpa [UInt32.le_iff_toNat_le] using hlast
      simp only [UInt32.toNat_zero]
      omega
    · simp only [hlast, if_false, and_true]
      have hlast' : 4096 < st.remaining.toNat := by simpa [UInt32.le_iff_toNat_le] using hlast
      simp only [blk_size_bytes_toNat, UInt32.toNat_zero]
      omega

/-- What the counters of the loop come to after a chunk. -/
theorem read_data_chunk_counts {file_length : UInt32} (hinside : st.start_offset.toNat < 4096)
    (haligned : st.done_so_far ≠ 0 → st.start_offset = 0)
    (hsmall : st.start_offset.toNat + st.remaining.toNat < 2 ^ 32)
    (hwhole : st.done_so_far = 0 → offset = 0 → file_length ≤ length → st.remaining = file_length)
    (hfits : st.done_so_far.toNat + st.remaining.toNat < 2 ^ 32) :
    ∃ cur_to_do, read_data_chunk offset length file_length st = (cur_to_do, st.remaining) ∧
      cur_to_do.toNat = min st.remaining.toNat (4096 - st.start_offset.toNat) ∧
      (st.remaining - cur_to_do).toNat = st.remaining.toNat - cur_to_do.toNat ∧
      (st.done_so_far + cur_to_do).toNat = st.done_so_far.toNat + cur_to_do.toNat := by
  obtain ⟨hchunk, hrest⟩ := read_data_chunk_spec hinside haligned hsmall hwhole
  obtain ⟨cur_to_do, hcur⟩ : ∃ cur_to_do, (read_data_chunk offset length file_length st).1 = cur_to_do := ⟨_, rfl⟩
  rw [hcur] at hchunk
  refine ⟨cur_to_do, Prod.ext hcur hrest, hchunk, ?_, ?_⟩
  · apply UInt32.toNat_sub_of_le
    rw [UInt32.le_iff_toNat_le]
    omega
  · rw [UInt32.toNat_add]
    omega

/-- The loop starts with nothing copied. -/
theorem reading_start (fs : Image) (inode offset remaining buf : UInt32) (m : Mem) :
    Reading fs inode offset remaining.toNat buf m (ReadState.start offset remaining m) := by
  refine ⟨?_, ?_, ?_, ?_, ?_, ?_⟩
  · intro _
    simp only [ReadState.start, UInt32.toNat_div, UInt32.toNat_mod, blk_size_bytes_toNat, UInt32.toNat_zero]
    omega
  · simp only [ReadState.start, UInt32.toNat_mod, blk_size_bytes_toNat]
    omega
  · simp [ReadState.start]
  · simp [ReadState.start]
  · simp [ReadState.start]
  · simp [ReadState.start]

/-- What remains never wraps around with the offset into the block. -/
theorem Reading.small (hreading : Reading fs inode offset total buf m st) (hmore : 0 < st.remaining.toNat)
    (hsmall : offset.toNat % 4096 + total < 2 ^ 32) : st.start_offset.toNat + st.remaining.toNat < 2 ^ 32 := by
  have hposition := hreading.position hmore
  have hinside := hreading.inside
  have hcount := hreading.count
  by_cases hfirst : st.done_so_far = 0
  · rw [hfirst, UInt32.toNat_zero] at hposition hcount
    omega
  · rw [hreading.aligned hfirst, UInt32.toNat_zero]
    omega

/-- One turn of the loop extends the copied prefix by one chunk. -/
theorem read_data_step_reading (hreading : Reading fs inode offset total buf m st)
    (hsmall : offset.toNat % 4096 + total < 2 ^ 32)
    (hwhole : offset = 0 → fs.file_length inode ≤ length → total = (fs.file_length inode).toNat)
    (hmore : 0 < st.remaining.toNat) (hblock : fs.block inode st.cur_block_num.toNat < fs.num_blocks) :
    let next := read_data_step fs ((inode + 1) * BLK_SIZE_UINTS) offset length (fs.file_length inode) buf st
    Reading fs inode offset total buf m next ∧ next.remaining.toNat < st.remaining.toNat := by
  have hposition := hreading.position hmore
  have hinside := hreading.inside
  have hcount := hreading.count
  have hoffset := offset.toNat_lt
  have hstart : st.done_so_far = 0 → offset = 0 → fs.file_length inode ≤ length →
      st.remaining = fs.file_length inode := by
    intro hfirst hzero hlong
    rw [hwhole hzero hlong, hfirst, UInt32.toNat_zero, Nat.add_zero] at hcount
    exact UInt32.toNat_inj.mp hcount
  obtain ⟨cur_to_do, hpair, hchunk, hremaining, hdone⟩ :=
    read_data_chunk_counts hinside hreading.aligned (hreading.small hmore hsmall) hstart (by omega)
  have hnextBlock : (st.cur_block_num + 1).toNat = st.cur_block_num.toNat + 1 := by
    rw [UInt32.toNat_add, UInt32.toNat_one]
    omega
  -- the bytes of this chunk all lie in the current block
  have hindex : ∀ i < cur_to_do.toNat, (offset.toNat + (st.done_so_far.toNat + i)) / 4096 = st.cur_block_num.toNat ∧
      (offset.toNat + (st.done_so_far.toNat + i)) % 4096 = st.start_offset.toNat + i := by
    intro i hi
    omega
  simp only [read_data_step, hpair]
  refine ⟨⟨?_, ?_, ?_, ?_, ?_, ?_⟩, ?_⟩
  · intro hleft
    simp only [hremaining, hdone, hnextBlock, UInt32.toNat_zero] at hleft ⊢
    omega
  · simp
  · intro _
    rfl
  · simp only [hremaining, hdone]
    omega
  · intro k hk
    simp only [hdone] at hk
    by_cases hold : k < st.done_so_far.toNat
    · exact hreading.readable k hold
    · obtain ⟨hdiv, _⟩ := hindex (k - st.done_so_far.toNat) (by omega)
      have hk' : st.done_so_far.toNat + (k - st.done_so_far.toNat) = k := by omega
      rw [hk'] at hdiv
      rw [Image.Readable, hdiv]
      exact hblock
  · simp only [hdone]
    rw [memcpy_from_eq_blit, hreading.copied, ← fillWith_append _ _ _ _ _ (by omega), UInt32.ofNat_toNat]
    apply blit_eq_fillWith
    intro i hi
    obtain ⟨hdiv, hmod⟩ := hindex i hi
    simp only [Image.fileByte, hdiv, hmod, Image.block, Image.num_inodes, UInt32.ofNat_add,
      UInt32.ofNat_mul, UInt32.ofNat_toNat]
    congr 1
    exact UInt32.add_assoc _ _ _
  · simp only [hremaining]
    omega

/-- The loop ends with all bytes copied or in front of the first unreadable
    block, and `remaining` turns are enough to get there. -/
theorem read_data_loop_spec (hsmall : offset.toNat % 4096 + total < 2 ^ 32)
    (hwhole : offset = 0 → fs.file_length inode ≤ length → total = (fs.file_length inode).toNat)
    (fuel : Nat) (st : ReadState) (hreading : Reading fs inode offset total buf m st)
    (hfuel : st.remaining.toNat ≤ fuel) :
    let final := read_data_loop fs ((inode + 1) * BLK_SIZE_UINTS) offset length (fs.file_length inode) buf fuel st
    Reading fs inode offset total buf m final ∧
      (final.remaining = 0 ∨ ¬ fs.Readable inode (offset.toNat + final.done_so_far.toNat)) := by
  induction fuel generalizing st with
  | zero =>
    have hzero : st.remaining = 0 := UInt32.toNat_inj.mp (by simpa using hfuel)
    exact ⟨hreading, Or.inl hzero⟩
  | succ fuel ih =>
    rw [read_data_loop]
    by_cases hmore : st.remaining > 0
    · have hmore' : 0 < st.remaining.toNat := UInt32.lt_iff_toNat_lt.mp hmore
      have hcur : fs.word ((inode + 1) * BLK_SIZE_UINTS + (st.cur_block_num + 1)) =
          fs.block inode st.cur_block_num.toNat := by
        rw [Image.block, UInt32.ofNat_add, UInt32.ofNat_toNat]
        rfl
      have hposition := hreading.position hmore'
      have hinside := hreading.inside
      have hdiv : (offset.toNat + st.done_so_far.toNat) / 4096 = st.cur_block_num.toNat := by omega
      simp only [hmore, if_true]
      by_cases hbad : fs.word ((inode + 1) * BLK_SIZE_UINTS + (st.cur_block_num + 1)) ≥ fs.word 2
      · simp only [hbad, if_true]
        refine ⟨hreading, Or.inr ?_⟩
        rw [hcur] at hbad
        rw [Image.Readable, hdiv]
        exact UInt32.not_lt.mpr hbad
      · simp only [hbad, if_false]
        rw [hcur] at hbad
        obtain ⟨hnext, hsmaller⟩ := read_data_step_reading hreading hsmall hwhole hmore' (UInt32.not_le.mp hbad)
        exact ih _ hnext (by omega)
    · simp only [hmore, if_false]
      refine ⟨hreading, Or.inl ?_⟩
      rw [gt_iff_lt, UInt32.not_lt] at hmore
      exact UInt32.toNat_inj.mp (by simpa [UInt32.le_iff_toNat_le] using hmore)

end Loop

end lacos.file_system
