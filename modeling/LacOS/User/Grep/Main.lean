import Mathlib.Algebra.Order.BigOperators.Group.List
import Mathlib.Algebra.Order.Group.Nat
import LacOS.User.Grep.File
import LacOS.User.Ls

open memory program stream lacos.lib lacos.file_system lacos.pcb lacos.syscalls

namespace lacos.user.grep

/-- Where the arrays of `grep` lie: none of them overlaps another. -/
structure Arrays (buf search data : UInt32) : Prop where
  data_ne : data ≠ NULL
  data_fits : data.toNat + BUFSIZE + 1 ≤ 2 ^ 32
  buf_ne : buf ≠ NULL
  buf_apart : ∀ j ≤ FILENAME_LEN, BUFSIZE + 1 ≤ (buf + UInt32.ofNat j - data).toNat
  search_ne : search ≠ NULL
  search_apart : ∀ j < BUFSIZE, BUFSIZE + 1 ≤ (search + UInt32.ofNat j - data).toNat
  search_buf : ∀ j < BUFSIZE, FILENAME_LEN + 1 ≤ (search + UInt32.ofNat j - buf).toNat

/-- The name of a directory entry is skipped: that of the directory itself begins so. -/
def Hidden (name : List UInt8) : Prop := name.head? = some '.'.toUInt8

instance (name : List UInt8) : Decidable (Hidden name) := inferInstanceAs (Decidable (_ = _))

/-- A directory in which every entry has a name of its own, and every file that `grep`
    opens can be searched. -/
structure Directory (fs : Image) : Prop where
  named : ls.Named fs
  first : ∀ n < fs.numEntries, fs.First (fs.name (UInt32.ofNat n)) n
  searchable : ∀ n < fs.numEntries, ¬ Hidden (fs.name (UInt32.ofNat n)) →
    Searchable fs (fs.name (UInt32.ofNat n)) (fs.dentry (UInt32.ofNat n))

/-- What `grep` prints for a directory entry. -/
def entryReport (fs : Image) (pattern : List UInt8) (n : Nat) : List UInt8 :=
  if Hidden (fs.name (UInt32.ofNat n)) then []
  else reports pattern (fs.name (UInt32.ofNat n)) (fs.text (fs.dentry (UInt32.ofNat n)))

/-- Between two directory entries: the pattern is in its array, and there is a slot for the
    next file. -/
structure Ready (search : UInt32) (pattern : List UInt8) (idx : Fin MAX_DESC) (s : Task) : Prop where
  pattern : IsText s.mem search pattern
  directory : (s.kernel.desc s.kernel.cur_pcb idx).file_ops = .dir_jt
  free : ∃ j, (s.kernel.desc s.kernel.cur_pcb j).flags = .NOT_USED

section Entry

variable {fs : Image} {buf search data : UInt32} (harrays : Arrays buf search data) {pattern : List UInt8}
  (hpattern : pattern ≠ []) (hpnonzero : 0 ∉ pattern) (hplength : pattern.length < BUFSIZE) {idx : Fin MAX_DESC}
include harrays hplength

/-- Reading the next entry leaves all that ready. -/
theorem Ready.fetched {s s' : Task} (hready : Ready search pattern idx s) (hs : TableSound s.kernel)
    (hfetched : Fetched s s' idx buf 32) : Ready search pattern idx s' := by
  have hcur := hfetched.wrote.cur_pcb
  refine ⟨fun j hj => ?_, ?_, ?_⟩
  · have hapart := harrays.search_buf j (Nat.lt_of_le_of_lt hj hplength)
    rw [hfetched.mem _ (Nat.le_of_succ_le hapart)]
    exact hready.pattern j hj
  · rw [hcur, hfetched.file_ops]
    exact hready.directory
  · obtain ⟨j, hj⟩ := hready.free
    have hne : j ≠ idx := by
      rintro rfl
      have huse := (hs.in_use j).mpr (by rw [hready.directory]; decide)
      rw [hj] at huse
      cases huse
    exact ⟨j, by rw [hcur, hfetched.others j hne]; exact hj⟩

omit harrays hplength in
/-- A slot in use is the same after another file has been opened and closed. -/
theorem same_of_restored {k k' : Kernel} (hrestored : Restored k k') (hcur : k'.cur_pcb = k.cur_pcb) (hk : TableSound k)
    (hops : (k.desc k.cur_pcb idx).file_ops ≠ .empty_f_ops_tab) : SameFile k k' idx := by
  refine ⟨hcur, (hrestored idx).resolve_right fun hfree => ?_⟩
  have huse := (hk.in_use idx).mpr hops
  rw [hfree.1] at huse
  cases huse

omit harrays hplength in
/-- A byte of a name that has been read into the buffer. -/
theorem byte_of_bytesAt {m : Mem} {name : List UInt8} (hbytes : bytesAt m buf name.length = name) {j : Nat}
    (hj : j < name.length) : m (buf + UInt32.ofNat j) = name.getD j 0 := by
  rw [List.getD_eq_getElem _ _ hj, ← List.getElem_of_eq hbytes (by simpa [bytesAt] using hj)]
  simp [bytesAt]

omit harrays hplength in
/-- The name is hidden if there is a dot at the beginning of the buffer. -/
theorem hidden_iff {m : Mem} {name : List UInt8} (hne : name ≠ []) (hbytes : bytesAt m buf name.length = name) :
    '.'.toUInt8 = m buf ↔ Hidden name := by
  obtain ⟨c, rest, rfl⟩ := List.exists_cons_of_ne_nil hne
  have hfirst : m (buf + UInt32.ofNat 0) = c := byte_of_bytesAt hbytes (Nat.succ_pos _)
  rw [Hidden, List.head?_cons, Option.some.injEq, ← hfirst, eq_comm]
  simp

omit harrays hplength in
/-- A name is a string once a zero is put behind it. -/
theorem isText_ended {m : Mem} {name : List UInt8} (hlength : name.length < 2 ^ 32)
    (hbytes : bytesAt m buf name.length = name) : IsText (store m (buf + UInt32.ofNat name.length) 0) buf name := by
  intro j hj
  rw [store_offset _ _ _ (by omega) hlength]
  split
  · rename_i hlast
    rw [hlast, List.getD_eq_default _ _ (Nat.le_refl _)]
  · exact byte_of_bytesAt hbytes (by omega)

/-- Searching a file leaves all that ready. -/
theorem Ready.searched {s ended s' : Task} (hready : Ready search pattern idx s)
    (hpattern' : IsText ended.mem search pattern) (hmem : ∀ a, BUFSIZE + 1 ≤ (a - data).toNat → s'.mem a = ended.mem a)
    (hcur : s'.kernel.cur_pcb = s.kernel.cur_pcb) (hrestored : Restored s.kernel s'.kernel)
    (hsame : SameFile s.kernel s'.kernel idx) : Ready search pattern idx s' := by
  refine ⟨?_, hsame.current ▸ hready.directory, ?_⟩
  · exact isText_apart hpattern' (fun j hj => harrays.search_apart j (Nat.lt_of_le_of_lt hj hplength)) hmem
  · obtain ⟨j, hj⟩ := hready.free
    refine ⟨j, ?_⟩
    rw [hcur]
    rcases hrestored j with hdesc | hfree
    · rw [hdesc]
      exact hj
    · exact hfree.2

include hpattern hpnonzero

theorem Arrays.layout {name : List UInt8} (hnonzero : 0 ∉ name) (hlength : name.length ≤ FILENAME_LEN) :
    Layout data search buf pattern name where
  data_ne := harrays.data_ne
  data_fits := harrays.data_fits
  pattern_ne := hpattern
  pattern_nonzero := hpnonzero
  pattern_apart j hj := harrays.search_apart j (Nat.lt_of_le_of_lt hj hplength)
  name_nonzero := hnonzero
  name_length := by
    simp only [FILENAME_LEN] at hlength
    omega
  name_apart j hj := harrays.buf_apart j (Nat.le_trans hj hlength)
  fname_ne := harrays.buf_ne

/-- What the loop does with an entry. -/
theorem searchFile_handles (hdirectory : Directory fs) {found : Task → Nat → UInt8}
    (hfound : ∀ t, found t BUFSIZE ≠ '\n'.toUInt8) {n : Nat} (hn : n < fs.numEntries) {fuel : Nat}
    (hbuffer : BUFSIZE < fuel) (hfuel : (fs.text (fs.dentry (UInt32.ofNat n))).length < fuel) :
    Handles (Ready search pattern idx) buf (searchFile fs buf search data found fuel) idx (fs.name (UInt32.ofNat n))
      (entryReport fs pattern n) := by
  have hne := (hdirectory.named n hn).1
  have hnonzero := fs.zero_notMem_name (UInt32.ofNat n)
  have hnlength := fs.name_length_le (UInt32.ofNat n)
  have hsearchable := hdirectory.searchable n hn
  rw [entryReport]
  generalize fs.name (UInt32.ofNat n) = name at *
  intro s hs hready hbytes
  refine wp_bind (wp_memory ?_)
  simp only [hidden_iff hne hbytes]
  split
  · exact wp_pure ⟨rfl, hs, hready, .nothing rfl rfl, .refl⟩
  · rename_i hshown
    have hlayout := harrays.layout hpattern hpnonzero hplength hnonzero hnlength
    simp only [FILENAME_LEN] at hnlength
    let ended : Task := ⟨s.kernel, store s.mem (buf + UInt32.ofNat name.length) 0⟩
    have hkept (a : UInt32) (ha : FILENAME_LEN + 1 ≤ (a - buf).toNat) : ended.mem a = s.mem a :=
      store_outside 0 (Nat.lt_succ_of_le hnlength) (by decide) ha
    have hpattern' : IsText ended.mem search pattern := by
      intro j hj
      rw [hkept _ (harrays.search_buf j (Nat.lt_of_le_of_lt hj hplength))]
      exact hready.pattern j hj
    have hfile := @do_one_file_spec fs data search buf pattern name hlayout found ended hs hpattern'
      (isText_ended (by omega) hbytes) (hfound ended) _ (hsearchable hshown) hready.free fuel hbuffer hfuel
    rw [ofInt_natCast (by omega)]
    refine wp_bind ⟨(), ended, rfl, wp_bind (wp_mono hfile ?_)⟩
    rintro value s' ⟨rfl, hs', hwrote, hrestored, hmem⟩
    have hcur : s'.kernel.cur_pcb = s.kernel.cur_pcb := hwrote.cur_pcb
    have hsame : SameFile s.kernel s'.kernel idx :=
      same_of_restored hrestored hcur hs (by rw [hready.directory]; decide)
    rw [if_neg (by decide)]
    exact wp_pure ⟨rfl, hs', hready.searched harrays hplength hpattern' hmem hcur hrestored hsame, hwrote, hsame⟩

end Entry

/-- How many rounds the loops of `grep` may need. -/
def rounds (fs : Image) : Nat :=
  BUFSIZE + fs.numEntries + ((List.range fs.numEntries).map fun n => (fs.text (fs.dentry (UInt32.ofNat n))).length).sum

/-- The fuel of the model is enough for every entry. -/
theorem text_length_le_rounds {fs : Image} {n : Nat} (hn : n < fs.numEntries) :
    BUFSIZE ≤ rounds fs ∧ (fs.text (fs.dentry (UInt32.ofNat n))).length ≤ rounds fs := by
  have hmem : (fs.text (fs.dentry (UInt32.ofNat n))).length ∈
      (List.range fs.numEntries).map fun n => (fs.text (fs.dentry (UInt32.ofNat n))).length :=
    List.mem_map_of_mem (List.mem_range.mpr hn)
  have hle := List.le_sum_of_mem hmem
  rw [rounds]
  omega

/-- An image with the directory itself, an executable `.g` and a file `t` of two lines, `ab`
    and `cb`. -/
def twoLines : Image where
  bytes a :=
    if a = 0 then 3 else if a = 4 ∨ a = 8 then 2 else if a = 64 ∨ a = 128 then 46 else if a = 96 then 1
    else if a = 129 then 103 else if a = 160 ∨ a = 224 then 2 else if a = 192 then 116 else if a = 228 then 1
    else if a = 4096 then 30 else if a = 8192 then 6 else if a = 8196 then 1
    else if a < 16384 then magic (a - 12288) else [97, 98, 10, 99, 98, 10].getD (a - 16384).toNat 0

/-- The command `.g b`. -/
def hiddenCommand : CString := ⟨[46, 103, 0x20, 98], by decide⟩

theorem twoLines_directory : Directory twoLines := by
  have hthree : twoLines.numEntries = 3 := by decide
  have hcases {n : Nat} (hn : n < twoLines.numEntries) : n = 0 ∨ n = 1 ∨ n = 2 := by omega
  refine ⟨fun n hn => ?_, fun n hn => ?_, fun n hn hshown => ?_⟩
  · rcases hcases hn with rfl | rfl | rfl
    · exact ⟨by decide, by decide⟩
    · exact ⟨by decide, by decide⟩
    · exact ⟨by decide, by decide⟩
  · rcases hcases hn with rfl | rfl | rfl
    · exact ⟨hn, rfl, by decide⟩
    · exact ⟨hn, rfl, by decide⟩
    · exact ⟨hn, rfl, by decide⟩
  · rcases hcases hn with rfl | rfl | rfl
    · exact absurd (by decide) hshown
    · exact absurd (by decide) hshown
    · refine ⟨by decide, ⟨2, ⟨hn, rfl, by decide⟩, rfl, by decide⟩, by decide, fun _ => ?_, by decide⟩
      refine ⟨by decide, by decide, fun pos hpos => ?_⟩
      have hlength : (twoLines.file_length (twoLines.dentry 2).inode_num).toNat = 6 := by decide
      have hblock : pos / 4096 = 0 := Nat.div_eq_of_lt (Nat.lt_trans (hlength ▸ hpos) (by decide))
      rw [Image.Readable, hblock]
      decide

end lacos.user.grep
