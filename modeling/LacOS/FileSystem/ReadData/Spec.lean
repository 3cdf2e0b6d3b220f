import Mathlib.Order.Bounds.Basic
import LacOS.FileSystem.ReadData.Loop

open memory lacos.lib

namespace lacos.file_system

theorem first_block (fs : Image) (inode offset remaining : UInt32) (m : Mem) :
    fs.word ((inode + 1) * BLK_SIZE_UINTS + ((ReadState.start offset remaining m).cur_block_num + 1)) =
      fs.block inode (offset.toNat / 4096) := by
  have hdiv : UInt32.ofNat (offset.toNat / 4096) = offset / BLK_SIZE_BYTES := by
    apply UInt32.toNat_inj.mp
    have hlt := offset.toNat_lt
    rw [UInt32.toNat_ofNat', UInt32.toNat_div, blk_size_bytes_toNat]
    omega
  rw [Image.block, UInt32.ofNat_add, hdiv]
  rfl

theorem read_data_bad_inode {fs : Image} {inode : UInt32} (offset length buf : UInt32) (m : Mem)
    (hinode : fs.num_inodes ≤ inode) : read_data fs inode offset m buf length = (-1, m) := by
  have hbad : inode ≥ fs.word 1 := hinode
  simp only [read_data, hbad, if_true]

theorem read_data_at_end {fs : Image} {inode offset : UInt32} (length buf : UInt32) (m : Mem)
    (hinode : inode < fs.num_inodes) (hend : fs.file_length inode ≤ offset) :
    read_data fs inode offset m buf length = (0, m) := by
  have hvalid : ¬ inode ≥ fs.word 1 := UInt32.not_le.mpr hinode
  have hend' : offset ≥ fs.word ((inode + 1) * BLK_SIZE_UINTS) := hend
  simp only [read_data, hvalid, if_false, hend', if_true]

theorem read_data_bad_block {fs : Image} {inode offset : UInt32} (length buf : UInt32) (m : Mem)
    (hinode : inode < fs.num_inodes) (hoffset : offset < fs.file_length inode)
    (hblock : fs.num_blocks ≤ fs.block inode (offset.toNat / 4096)) :
    read_data fs inode offset m buf length = (-1, m) := by
  have hvalid : ¬ inode ≥ fs.word 1 := UInt32.not_le.mpr hinode
  have hbefore : ¬ offset ≥ fs.word ((inode + 1) * BLK_SIZE_UINTS) := UInt32.not_le.mpr hoffset
  have hbad : fs.block inode (offset.toNat / 4096) ≥ fs.word 2 := hblock
  simp only [read_data, hvalid, hbefore, if_false, first_block, hbad, if_true]

/-- No read goes past the end of a file. -/
theorem readTotal_le {fs : Image} {inode offset : UInt32} (length : UInt32) {size : Nat}
    (hlength : (fs.file_length inode).toNat ≤ size) (hoffset : offset < fs.file_length inode) :
    offset.toNat + readTotal fs inode offset length ≤ size := by
  rw [UInt32.lt_iff_toNat_lt] at hoffset
  unfold readTotal
  omega

/-- A call that passes its checks copies the longest readable prefix of what the
    truncation leaves, as long as that does not wrap around with the offset into the
    first block. -/
theorem read_data_copies (fs : Image) (inode offset length buf : UInt32) (m : Mem)
    (hsmall : offset.toNat % 4096 + (read_data_truncate offset length (fs.file_length inode)).toNat < 2 ^ 32)
    (hinode : inode < fs.num_inodes) (hoffset : offset < fs.file_length inode)
    (hblock : fs.Readable inode offset.toNat) :
    ∃ count : Nat,
      IsGreatest {n | n ≤ (read_data_truncate offset length (fs.file_length inode)).toNat ∧
        ∀ k < n, fs.Readable inode (offset.toNat + k)} count ∧
      read_data fs inode offset m buf length =
        (toInt32 (UInt32.ofNat count), fillWith m buf (fun k => fs.fileByte inode (offset.toNat + k)) count) := by
  have hwhole (hzero : offset = 0) (hlong : fs.file_length inode ≤ length) :
      (read_data_truncate offset length (fs.file_length inode)).toNat = (fs.file_length inode).toNat := by
    rw [hzero, read_data_truncate_whole hlong]
  generalize hstart : read_data_truncate offset length (fs.file_length inode) = remaining at *
  obtain ⟨hfinal, hstop⟩ := read_data_loop_spec hsmall hwhole remaining.toNat _
    (reading_start fs inode offset remaining buf m) (Nat.le_refl _)
  generalize hloop : read_data_loop fs ((inode + 1) * BLK_SIZE_UINTS) offset length (fs.file_length inode) buf
    remaining.toNat (ReadState.start offset remaining m) = final at hfinal hstop
  have hcount := hfinal.count
  refine ⟨final.done_so_far.toNat, ⟨⟨by omega, hfinal.readable⟩, ?_⟩, ?_⟩
  · rintro n ⟨hn, hreadable⟩
    rcases hstop with hzero | hunreadable
    · rw [hzero, UInt32.toNat_zero] at hcount
      omega
    · by_contra hmore
      exact hunreadable (hreadable _ (by omega))
  · have hvalid : ¬ inode ≥ fs.word 1 := UInt32.not_le.mpr hinode
    have hbefore : ¬ offset ≥ fs.word ((inode + 1) * BLK_SIZE_UINTS) := UInt32.not_le.mpr hoffset
    have hfirst : ¬ fs.block inode (offset.toNat / 4096) ≥ fs.word 2 := UInt32.not_le.mpr hblock
    simp only [Image.file_length] at hstart hloop
    simp only [read_data, hvalid, hbefore, if_false, first_block, hfirst]
    rw [hstart, hloop, UInt32.ofNat_toNat, hfinal.copied]

/-- A range whose end is representable is cut at the end of the file. -/
theorem read_data_truncate_toNat {fs : Image} {inode offset length : UInt32}
    (hsum : offset.toNat + length.toNat < 2 ^ 32) (hoffset : offset < fs.file_length inode) :
    (read_data_truncate offset length (fs.file_length inode)).toNat = readTotal fs inode offset length := by
  have hoffset' := UInt32.lt_iff_toNat_lt.mp hoffset
  have hadd : (offset + length).toNat = offset.toNat + length.toNat := by
    rw [UInt32.toNat_add]
    omega
  unfold readTotal read_data_truncate
  split
  · rename_i hlong
    rw [gt_iff_lt, UInt32.lt_iff_toNat_lt, hadd] at hlong
    rw [UInt32.toNat_sub_of_le _ _ (UInt32.le_of_lt hoffset)]
    omega
  · rename_i hshort
    rw [gt_iff_lt, UInt32.lt_iff_toNat_lt, hadd] at hshort
    omega

/-- A call that passes its checks copies the longest readable prefix of the
    requested range, cut at the end of the file. -/
theorem read_data_success (fs : Image) (inode offset length buf : UInt32) (m : Mem)
    (hsum : offset.toNat + length.toNat < 2 ^ 32)
    (hend : offset.toNat + readTotal fs inode offset length ≤ 1023 * 4096)
    (hinode : inode < fs.num_inodes) (hoffset : offset < fs.file_length inode)
    (hblock : fs.Readable inode offset.toNat) :
    ∃ count : Nat,
      IsGreatest {n | n ≤ readTotal fs inode offset length ∧
        ∀ k < n, fs.Readable inode (offset.toNat + k)} count ∧
      read_data fs inode offset m buf length =
        ((count : Int), fillWith m buf (fun k => fs.fileByte inode (offset.toNat + k)) count) := by
  have htotal := read_data_truncate_toNat hsum hoffset
  obtain ⟨count, hgreatest, hread⟩ := read_data_copies fs inode offset length buf m (by omega) hinode hoffset hblock
  rw [htotal] at hgreatest
  refine ⟨count, hgreatest, ?_⟩
  have hle := hgreatest.1.1
  have hcount : (UInt32.ofNat count).toNat = count := UInt32.toNat_ofNat_of_lt' (by simp only [UInt32.size]; omega)
  rw [hread, toInt32_of_lt (by omega), hcount]

/-- What `read_data` is for, in terms of files: it fails exactly on a bad inode
    or a bad first block, reports the end of the file as zero, and otherwise
    copies the longest readable part of the requested range to the buffer. -/
structure ReadsFile (fs : Image) (inode offset length buf : UInt32) (m : Mem) (result : Int × Mem) : Prop where
  fails : result.1 = -1 ↔ fs.num_inodes ≤ inode ∨
    (offset < fs.file_length inode ∧ fs.num_blocks ≤ fs.block inode (offset.toNat / 4096))
  at_end : inode < fs.num_inodes → fs.file_length inode ≤ offset → result.1 = 0
  untouched : result.1 ≤ 0 → result.2 = m
  delivers : inode < fs.num_inodes → offset < fs.file_length inode →
    fs.block inode (offset.toNat / 4096) < fs.num_blocks →
    ∃ count : Nat, result.1 = count ∧
      IsGreatest {n | n ≤ min length.toNat ((fs.file_length inode).toNat - offset.toNat) ∧
        ∀ k < n, fs.block inode ((offset.toNat + k) / 4096) < fs.num_blocks} count ∧
      (∀ k < count, result.2 (buf + UInt32.ofNat k) = fs.fileByte inode (offset.toNat + k)) ∧
      ∀ a, (∀ k < count, a ≠ buf + UInt32.ofNat k) → result.2 a = m a

/-- `read_data` meets its file-level specification for every image, inode and range whose end is
    representable. The inode need not be valid, the blocks it names need not exist, and the offset
    may lie behind the end. -/
theorem read_data_readsFile (fs : Image) (inode offset length buf : UInt32) (m : Mem)
    (hsum : offset.toNat + length.toNat < 2 ^ 32)
    (hlength : inode < fs.num_inodes → (fs.file_length inode).toNat ≤ 1023 * 4096) :
    ReadsFile fs inode offset length buf m (read_data fs inode offset m buf length) := by
  rcases UInt32.lt_or_le inode fs.num_inodes with hinode | hinode
  swap
  · rw [read_data_bad_inode offset length buf m hinode]
    have hnot := UInt32.not_lt.mpr hinode
    exact ⟨⟨fun _ => Or.inl hinode, fun _ => rfl⟩, fun h => absurd h hnot, fun _ => rfl, fun h => absurd h hnot⟩
  rcases UInt32.lt_or_le offset (fs.file_length inode) with hoffset | hend
  swap
  · rw [read_data_at_end length buf m hinode hend]
    have hnot := UInt32.not_lt.mpr hend
    refine ⟨⟨fun h => by simp at h, ?_⟩, fun _ _ => rfl, fun _ => rfl, fun _ h => absurd h hnot⟩
    rintro (hbad | ⟨hbefore, _⟩)
    · exact absurd hinode (UInt32.not_lt.mpr hbad)
    · exact absurd hbefore hnot
  rcases UInt32.lt_or_le (fs.block inode (offset.toNat / 4096)) fs.num_blocks with hblock | hbad
  swap
  · rw [read_data_bad_block length buf m hinode hoffset hbad]
    refine ⟨⟨fun _ => Or.inr ⟨hoffset, hbad⟩, fun _ => rfl⟩, ?_, fun _ => rfl, ?_⟩
    · intro _ hend
      exact absurd hoffset (UInt32.not_lt.mpr hend)
    · intro _ _ hblock
      exact absurd hblock (UInt32.not_lt.mpr hbad)
  obtain ⟨count, hgreatest, hread⟩ := read_data_success fs inode offset length buf m hsum
    (readTotal_le length (hlength hinode) hoffset) hinode hoffset hblock
  have hcount : count < 2 ^ 32 := by
    have hle := hgreatest.1.1
    have hlt := length.toNat_lt
    simp only [readTotal] at hle
    omega
  rw [hread]
  refine ⟨⟨fun hneg => by simp only at hneg; omega, ?_⟩, ?_, ?_, ?_⟩
  · rintro (hbad | ⟨_, hbad⟩)
    · exact absurd hinode (UInt32.not_lt.mpr hbad)
    · exact absurd hblock (UInt32.not_lt.mpr hbad)
  · intro _ hend
    exact absurd hoffset (UInt32.not_lt.mpr hend)
  · intro hnone
    have hzero : count = 0 := by
      simp only at hnone
      omega
    simp [hzero]
  · intro _ _ _
    refine ⟨count, rfl, hgreatest, ?_, ?_⟩
    · intro k hk
      exact fillWith_inside m buf (fun k => fs.fileByte inode (offset.toNat + k)) hk (by omega)
    · intro a ha
      refine fillWith_outside (m := m) (d := buf) (fun k => fs.fileByte inode (offset.toNat + k)) ?_
      by_contra hinside
      obtain ⟨k, hk, heq⟩ := (offset_lt_iff a buf count (by omega)).mp (by omega)
      exact ha k hk heq

/-- One inode of five bytes, whose single data block follows it. -/
def fiveBytes : Image where
  bytes a :=
    if a = 4 ∨ a = 8 then 1
    else if a = 4096 then 5
    else if 8192 ≤ a ∧ a < 8197 then (a - 8191).toUInt8
    else 0

theorem read_data_readsFile_five_bytes :
    ReadsFile fiveBytes 0 1 9 100 (fun _ => 7) (read_data fiveBytes 0 1 (fun _ => 7) 100 9) :=
  read_data_readsFile fiveBytes 0 1 9 100 (fun _ => 7) (by decide) (fun _ => by decide)

example : (read_data fiveBytes 0 1 (fun _ => 7) 100 9).1 = 4 ∧
    (read_data fiveBytes 0 1 (fun _ => 7) 100 9).2 103 = 5 := by decide +kernel

end lacos.file_system
