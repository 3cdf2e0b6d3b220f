import LacOS.FileSystem.ReadData.Loop

open memory lacos.lib

namespace lacos.file_system

/-- The loop of `read_data` stays within the requested length, whatever the image
    holds. -/
structure Within (offset length file_length buf : UInt32) (m : Mem) (st : ReadState) : Prop where
  inside : st.start_offset.toNat < 4096
  aligned : st.done_so_far ≠ 0 → st.start_offset = 0
  whole : st.done_so_far = 0 → offset = 0 → file_length ≤ length → st.remaining = file_length
  count : st.done_so_far.toNat + st.remaining.toNat ≤ length.toNat
  frame : ∀ a, st.done_so_far.toNat ≤ (a - buf).toNat → st.buf a = m a

/-- Truncation never asks for more, also where the sum overflows. -/
theorem read_data_truncate_le {offset file_length : UInt32} (length : UInt32) (hoffset : offset < file_length) :
    (read_data_truncate offset length file_length).toNat ≤ length.toNat := by
  rw [UInt32.lt_iff_toNat_lt] at hoffset
  rw [read_data_truncate]
  split
  · rename_i hlong
    rw [gt_iff_lt, UInt32.lt_iff_toNat_lt, UInt32.toNat_add] at hlong
    have hlt := offset.toNat_lt
    have hlt' := length.toNat_lt
    rw [UInt32.toNat_sub_of_le _ _ (UInt32.le_of_lt (UInt32.lt_iff_toNat_lt.mpr hoffset))]
    omega
  · exact Nat.le_refl _

/-- The loop starts within the requested length. -/
theorem within_start {offset length file_length : UInt32} (buf : UInt32) (m : Mem) (hoffset : offset < file_length) :
    Within offset length file_length buf m
      (ReadState.start offset (read_data_truncate offset length file_length) m) := by
  refine ⟨?_, fun hne => absurd rfl hne, fun _ hzero hlong => ?_, ?_, fun _ _ => rfl⟩
  · have hmod := Nat.mod_lt offset.toNat (y := 4096) (by omega)
    simpa [ReadState.start, UInt32.toNat_mod] using hmod
  · rw [hzero]
    exact read_data_truncate_whole hlong
  · simpa [ReadState.start] using read_data_truncate_le length hoffset

section Within

variable (fs : Image) {offset length file_length buf : UInt32} {m : Mem} {st : ReadState}
  (hlength : length.toNat < 2 ^ 31)
include hlength

theorem read_data_step_within (cur_inode : UInt32) (hst : Within offset length file_length buf m st)
    (hmore : 0 < st.remaining.toNat) :
    Within offset length file_length buf m (read_data_step fs cur_inode offset length file_length buf st) := by
  have hinside := hst.inside
  have hcount := hst.count
  obtain ⟨cur_to_do, hpair, hchunk, hremaining, hdone⟩ :=
    read_data_chunk_counts hinside hst.aligned (by omega) hst.whole (by omega)
  simp only [read_data_step, hpair]
  refine ⟨by simp, fun _ => rfl, fun hzero => ?_, ?_, fun a ha => ?_⟩
  · have hnone := congrArg UInt32.toNat hzero
    rw [hdone, UInt32.toNat_zero] at hnone
    omega
  · rw [hdone, hremaining]
    omega
  · rw [hdone] at ha
    have hsub := sub_add_toNat a buf st.done_so_far.toNat_lt
    rw [UInt32.ofNat_toNat, if_pos (by omega)] at hsub
    rw [memcpy_from_eq_blit]
    exact (blit_outside _ _ (by omega)).trans (hst.frame a (by omega))

theorem read_data_loop_within (cur_inode : UInt32) (fuel : Nat) (hst : Within offset length file_length buf m st) :
    Within offset length file_length buf m (read_data_loop fs cur_inode offset length file_length buf fuel st) := by
  induction fuel generalizing st with
  | zero => exact hst
  | succ fuel ih =>
    rw [read_data_loop]
    split
    · rename_i hmore
      split
      · exact hst
      · exact ih (read_data_step_within fs hlength cur_inode hst (UInt32.lt_iff_toNat_lt.mp hmore))
    · exact hst

end Within

/-- `read_data` returns at most the length it is given and writes nothing behind as
    many bytes of the buffer, for every image. -/
theorem read_data_within (fs : Image) (inode offset : UInt32) (m : Mem) (buf length : UInt32)
    (hlength : length.toNat < 2 ^ 31) :
    (read_data fs inode offset m buf length).1 ≤ length.toNat ∧
      ∀ a, length.toNat ≤ (a - buf).toNat → (read_data fs inode offset m buf length).2 a = m a := by
  simp only [read_data]
  split
  · exact ⟨by simp only [FAILURE]; omega, fun _ _ => rfl⟩
  split
  · exact ⟨by simp only [SUCCESS]; omega, fun _ _ => rfl⟩
  · rename_i hbefore
    split
    · exact ⟨by simp only [FAILURE]; omega, fun _ _ => rfl⟩
    · have hoffset := UInt32.not_le.mp hbefore
      generalize fs.word ((inode + 1) * BLK_SIZE_UINTS) = file_length at hoffset ⊢
      have hfinal := read_data_loop_within fs hlength ((inode + 1) * BLK_SIZE_UINTS)
        (read_data_truncate offset length file_length).toNat (within_start buf m hoffset)
      have hcount := hfinal.count
      refine ⟨?_, fun a ha => hfinal.frame a (by omega)⟩
      rw [toInt32_of_lt (by omega)]
      omega

end lacos.file_system
