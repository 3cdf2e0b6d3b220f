import LacOS.FileSystem.ReadData.Spec

open memory lacos.lib

namespace lacos.file_system

/-- How many bytes of a file follow a position in it. -/
def Image.left (fs : Image) (inode offset : UInt32) : Nat := (fs.file_length inode).toNat - offset.toNat

/-- `read_data` returns no more than is left of the file, and copies nothing from behind its
    end to the buffer. -/
def StaysInFile (fs : Image) (inode offset length buf : UInt32) : Prop :=
  ∀ m, (read_data fs inode offset m buf length).1 ≤ fs.left inode offset ∧
    ∀ a, fs.left inode offset ≤ (a - buf).toNat → (read_data fs inode offset m buf length).2 a = m a

theorem read_data_loop_done (fs : Image) (cur_inode offset length file_length buf : UInt32) (fuel : Nat)
    {st : ReadState} (hdone : st.remaining = 0) :
    read_data_loop fs cur_inode offset length file_length buf fuel st = st := by
  cases fuel with
  | zero => rfl
  | succ fuel => rw [read_data_loop, if_neg (by rw [hdone]; decide)]

section Copy

variable {fs : Image} {inode offset length buf : UInt32}

/-- A call that copies the same bytes whatever the buffer holds stays in the file only if
    it copies no more than is left. -/
theorem StaysInFile.copied_le (hstays : StaysInFile fs inode offset length buf) {f : Nat → UInt8} {n : Nat}
    (hn : n ≤ 2 ^ 32) (hread : ∀ m, (read_data fs inode offset m buf length).2 = fillWith m buf f n) :
    n ≤ fs.left inode offset := by
  by_contra hlong
  have hlt := Nat.not_le.mp hlong
  have hkept := (hstays fun _ => f (fs.left inode offset) + 1).2 (buf + UInt32.ofNat (fs.left inode offset))
    (by rw [offset_toNat buf (by omega)])
  rw [hread, fillWith_inside _ _ _ hlt hn] at hkept
  simp at hkept

variable (hoffset : offset < fs.file_length inode)
include hoffset

/-- Where the sum of offset and length overflows it is below the offset, and nothing is cut
    off. -/
theorem read_data_truncate_overflow (hover : 2 ^ 32 ≤ offset.toNat + length.toNat) :
    read_data_truncate offset length (fs.file_length inode) = length := by
  have hoffset' := UInt32.lt_iff_toNat_lt.mp hoffset
  have hlength := length.toNat_lt
  rw [read_data_truncate, if_neg]
  rw [gt_iff_lt, UInt32.lt_iff_toNat_lt, UInt32.toNat_add]
  omega

variable (buf) in
/-- If the sum wraps around to the first block or beyond, all of the bytes asked for are
    copied from there at once. -/
theorem read_data_one_block (hinode : inode < fs.num_inodes) (hblock : fs.Readable inode offset.toNat)
    (hover : 2 ^ 32 ≤ offset.toNat + length.toNat)
    (hwrap : 4096 * (offset.toNat / 4096) ≤ offset.toNat + length.toNat - 2 ^ 32) :
    ∃ f : Nat → UInt8, ∀ m, (read_data fs inode offset m buf length).2 = fillWith m buf f length.toNat := by
  have hoff := offset.toNat_lt
  have hlen := length.toNat_lt
  have hzero : offset ≠ 0 := by
    rintro rfl
    rw [UInt32.toNat_zero] at hover
    omega
  have hshort : ¬ offset % BLK_SIZE_BYTES + length > BLK_SIZE_BYTES := by
    rw [gt_iff_lt, UInt32.lt_iff_toNat_lt, UInt32.toNat_add, UInt32.toNat_mod, blk_size_bytes_toNat]
    omega
  have hchunk (m : Mem) : read_data_chunk offset length (fs.file_length inode) (ReadState.start offset length m) =
      (length, length) := by
    simp only [read_data_chunk, ReadState.start, if_true, if_neg hshort, hzero, false_and, if_false]
  obtain ⟨n, hn⟩ : ∃ n, length.toNat = n + 1 := Nat.exists_eq_succ_of_ne_zero (by omega)
  have hmore (m : Mem) : (ReadState.start offset length m).remaining > 0 := by
    rw [gt_iff_lt, UInt32.lt_iff_toNat_lt, UInt32.toNat_zero]
    exact Nat.lt_of_lt_of_eq (Nat.succ_pos n) hn.symm
  have hvalid : ¬ inode ≥ fs.word 1 := UInt32.not_le.mpr hinode
  have hbefore : ¬ offset ≥ fs.word ((inode + 1) * BLK_SIZE_UINTS) := UInt32.not_le.mpr hoffset
  have hfirst : ¬ fs.block inode (offset.toNat / 4096) ≥ fs.word 2 := UInt32.not_le.mpr hblock
  have htruncate := read_data_truncate_overflow hoffset hover
  -- The first turn of the loop copies everything, and there is no second one.
  have hloop (m : Mem) : read_data_loop fs ((inode + 1) * BLK_SIZE_UINTS) offset length (fs.file_length inode) buf
      length.toNat (ReadState.start offset length m) =
      read_data_step fs ((inode + 1) * BLK_SIZE_UINTS) offset length (fs.file_length inode) buf
        (ReadState.start offset length m) := by
    rw [hn, read_data_loop, if_pos (hmore m), first_block, if_neg hfirst, read_data_loop_done]
    simp only [read_data_step, hchunk, UInt32.sub_self]
  refine ⟨fun i => fs.bytes ((fs.word 1 + fs.block inode (offset.toNat / 4096) + 1) * BLK_SIZE_BYTES +
    offset % BLK_SIZE_BYTES + UInt32.ofNat i), fun m => ?_⟩
  simp only [Image.file_length] at htruncate hloop hchunk
  simp only [read_data, hvalid, hbefore, if_false, first_block, hfirst, htruncate, hloop]
  simp only [read_data_step, hchunk, first_block, memcpy_from_eq_blit]
  simp only [ReadState.start, UInt32.add_zero]
  exact blit_eq_fillWith _ _ _ _ _ _ fun i _ => rfl

end Copy

section WellFormed

variable {fs : Image} {inode offset length buf : UInt32} (hfile : fs.WellFormed inode)
  (hoffset : offset < fs.file_length inode)
include hfile hoffset

variable (buf) in
/-- Unless it wraps around in the first block, `read_data` copies the same bytes of the file
    whatever the buffer holds, and stays in the file exactly if they are no more than are
    left. -/
theorem stays_in_file_iff_count_le
    (hsmall : offset.toNat % 4096 + (read_data_truncate offset length (fs.file_length inode)).toNat < 2 ^ 32) :
    ∃ count : Nat,
      IsGreatest {n | n ≤ (read_data_truncate offset length (fs.file_length inode)).toNat ∧
        ∀ k < n, fs.Readable inode (offset.toNat + k)} count ∧
      (StaysInFile fs inode offset length buf ↔ count ≤ fs.left inode offset) := by
  have hlength := hfile.length
  have hcopies := fun m => read_data_copies fs inode offset length buf m hsmall hfile.valid hoffset
    (hfile.blocks _ (UInt32.lt_iff_toNat_lt.mp hoffset))
  obtain ⟨count, hgreatest, -⟩ := hcopies fun _ => 0
  have hread (m : Mem) : read_data fs inode offset m buf length = (toInt32 (UInt32.ofNat count),
      fillWith m buf (fun k => fs.fileByte inode (offset.toNat + k)) count) := by
    obtain ⟨count', hgreatest', hread⟩ := hcopies m
    rw [hread, hgreatest'.unique hgreatest]
  have hle := hgreatest.1.1
  refine ⟨count, hgreatest, fun hstays => hstays.copied_le (by omega) fun m => by rw [hread], fun hcount m => ?_⟩
  have hsize : count < 2 ^ 31 := by
    rw [Image.left] at hcount
    omega
  have hvalue : (UInt32.ofNat count).toNat = count := UInt32.toNat_ofNat_of_lt' (by simp only [UInt32.size]; omega)
  rw [hread, toInt32_of_lt (by omega), hvalue]
  refine ⟨Int.ofNat_le.mpr hcount, fun a ha => ?_⟩
  simp only
  exact fillWith_outside _ (Nat.le_trans hcount ha)

omit hoffset in
/-- The byte behind a file is readable unless the file ends with a block and the next word is
    not the number of one. -/
theorem not_readable_end_iff : ¬ fs.Readable inode (fs.file_length inode).toNat ↔
    (fs.file_length inode).toNat % 4096 = 0 ∧ fs.num_blocks ≤ fs.block inode ((fs.file_length inode).toNat / 4096) := by
  rw [Image.Readable, UInt32.not_lt]
  refine ⟨fun hend => ⟨?_, hend⟩, fun h => h.2⟩
  by_contra hmod
  have hlast := hfile.blocks ((fs.file_length inode).toNat - 1) (by omega)
  have hsame : ((fs.file_length inode).toNat - 1) / 4096 = (fs.file_length inode).toNat / 4096 := by omega
  rw [Image.Readable, hsame] at hlast
  exact absurd hlast (UInt32.not_lt.mpr hend)

end WellFormed

/-- Nothing is cut off if the sum of offset and length overflows. Then the loop still ends
    with the file if it goes through the file's blocks one by one, if the file ends with a block
    and if the word that follows its list of blocks is not the number of one. -/
def StopsAtEnd (fs : Image) (inode offset length : UInt32) : Prop :=
  offset.toNat + length.toNat - 2 ^ 32 < 4096 * (offset.toNat / 4096) ∧
    (fs.file_length inode).toNat % 4096 = 0 ∧
    fs.num_blocks ≤ fs.block inode ((fs.file_length inode).toNat / 4096)

/-- `read_data` never runs past the end of a file, exactly if the sum of offset and length does
    not overflow or the image happens to stop it there. Where the buffer lies and what it holds
    does not matter. -/
theorem stays_in_file_iff (fs : Image) (inode offset length buf : UInt32) (hfile : fs.WellFormed inode)
    (hoffset : offset < fs.file_length inode) :
    StaysInFile fs inode offset length buf ↔
      (2 ^ 32 ≤ offset.toNat + length.toNat → StopsAtEnd fs inode offset length) := by
  have hoffset' := UInt32.lt_iff_toNat_lt.mp hoffset
  have hlength := hfile.length
  have hlen := length.toNat_lt
  have hleft : offset.toNat + fs.left inode offset = (fs.file_length inode).toNat := by
    rw [Image.left]
    omega
  by_cases hover : 2 ^ 32 ≤ offset.toNat + length.toNat
  · have htruncate := read_data_truncate_overflow hoffset hover
    simp only [hover, forall_const]
    by_cases hwrap : offset.toNat + length.toNat - 2 ^ 32 < 4096 * (offset.toNat / 4096)
    · obtain ⟨count, ⟨⟨-, hreadable⟩, hgreatest⟩, hiff⟩ :=
        stays_in_file_iff_count_le buf hfile hoffset (by rw [htruncate]; omega)
      rw [hiff, StopsAtEnd, and_iff_right hwrap, ← not_readable_end_iff hfile, htruncate] at *
      constructor
      · intro hcount hend
        have hmore : fs.left inode offset + 1 ≤ count := by
          refine hgreatest ⟨by omega, fun k hk => ?_⟩
          rcases Nat.lt_or_eq_of_le (Nat.le_of_lt_succ hk) with hlt | rfl
          · exact hfile.blocks _ (by omega)
          · rwa [hleft]
        omega
      · intro hend
        by_contra hcount
        have hlast := hreadable (fs.left inode offset) (Nat.not_le.mp hcount)
        rw [hleft] at hlast
        exact hend hlast
    · refine iff_of_false (fun hstays => ?_) fun hstops => hwrap hstops.1
      obtain ⟨f, hread⟩ := read_data_one_block buf hoffset hfile.valid (hfile.blocks _ hoffset') hover
        (Nat.not_lt.mp hwrap)
      have hle := hstays.copied_le (by omega) hread
      omega
  · have htruncate := read_data_truncate_toNat (Nat.not_le.mp hover) hoffset
    have htotal := readTotal_le length hlength hoffset
    obtain ⟨count, ⟨⟨hcount, -⟩, -⟩, hiff⟩ :=
      stays_in_file_iff_count_le buf hfile hoffset (by rw [htruncate]; omega)
    refine iff_of_true (hiff.mpr ?_) fun h => absurd h hover
    rw [htruncate, readTotal] at hcount
    exact Nat.le_trans hcount (Nat.min_le_right _ _)

/-- A file of 5000 bytes in two blocks. The word behind its list of blocks is no number of a
    block. -/
def twoBlocks : Image where
  bytes a :=
    if a = 4 then 1 else if a = 8 then 2
    else if a = 4096 then 0x88 else if a = 4097 then 0x13
    else if a = 4104 then 1 else if a = 4108 then 9
    else 0

theorem twoBlocks_wellFormed : twoBlocks.WellFormed 0 := by
  have hlength : (twoBlocks.file_length 0).toNat = 5000 := by decide +kernel
  refine ⟨by decide +kernel, by decide +kernel, fun pos hpos => ?_⟩
  rw [hlength] at hpos
  have hblocks : ∀ b < 2, twoBlocks.block 0 b < twoBlocks.num_blocks := by decide +kernel
  exact hblocks (pos / 4096) (by omega)

theorem stays_in_file_iff_two_blocks : StaysInFile twoBlocks 0 4097 9000 100 := by
  rw [stays_in_file_iff twoBlocks 0 4097 9000 100 twoBlocks_wellFormed (by decide +kernel)]
  exact fun hover => absurd hover (by decide)

/-- With a length that makes the sum overflow the last block is copied to its end, 4095 bytes
    where 903 are left of the file. -/
theorem overflow_runs_past_end :
    twoBlocks.WellFormed 0 ∧ twoBlocks.left 0 4097 = 903 ∧
      (read_data twoBlocks 0 4097 (fun _ => 7) 100 0xFFFFEFFF).1 = 4095 ∧
      ¬ StaysInFile twoBlocks 0 4097 0xFFFFEFFF 100 := by
  have hleft : twoBlocks.left 0 4097 = 903 := by decide +kernel
  have hread : (read_data twoBlocks 0 4097 (fun _ => 7) 100 0xFFFFEFFF).1 = 4095 := by decide +kernel
  refine ⟨twoBlocks_wellFormed, hleft, hread, fun hstays => ?_⟩
  have hle := (hstays fun _ => 7).1
  rw [hread, hleft] at hle
  exact absurd hle (by decide)

end lacos.file_system
