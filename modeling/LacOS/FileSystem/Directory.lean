import LacOS.Base.Search
import LacOS.FileSystem.Files
import LacOS.Lib.BoundedString

open memory lacos.lib

namespace lacos.file_system

/-- How many entries the directory has. -/
def Image.numEntries (fs : Image) : Nat := (fs.word 0).toNat

/-- The name of a directory entry: its first 32 bytes, up to a zero byte. -/
def Image.name (fs : Image) (i : UInt32) : List UInt8 := nstring fs.bytes FILENAME_LEN (cur_dentry i)

/-- The last byte that a name can have. -/
def Image.lastByte (fs : Image) (i : UInt32) : UInt8 :=
  fs.bytes (cur_dentry i + UInt32.ofNat (FILENAME_LEN - 1))

/-- The number of bytes `fsys_read_dir` returns for an entry: it takes a name whose
    last byte is not zero for one without a zero byte. -/
def Image.nameCount (fs : Image) (i : UInt32) : Nat :=
  if fs.lastByte i ≠ 0 then FILENAME_LEN else (fs.name i).length

/-- What read number `n` of the directory delivers: the number of bytes it returns
    and the name it leaves in the buffer. -/
def Image.listing (fs : Image) (n : Nat) : Nat × List UInt8 :=
  if n < fs.numEntries then (fs.nameCount (UInt32.ofNat n), fs.name (UInt32.ofNat n)) else (0, [])

/-- The caller's memory with all 64 bytes of directory entry `i` in it. -/
def Image.copied (fs : Image) (i : UInt32) (d : Mem) (dentry : UInt32) : Mem :=
  blit d dentry fs.bytes (cur_dentry i) 64

section Name

variable (fs : Image) (i : UInt32)

/-- No name is longer than its field. -/
theorem Image.name_length_le : (fs.name i).length ≤ FILENAME_LEN := nstring_length_le _ _ _

theorem Image.zero_notMem_name : 0 ∉ fs.name i := zero_notMem_nstring _ _ _

/-- What a directory read returns covers the name. -/
theorem Image.name_length_le_nameCount : (fs.name i).length ≤ fs.nameCount i := by
  rw [Image.nameCount]
  split
  · exact fs.name_length_le i
  · exact Nat.le_refl _

theorem Image.nameCount_le : fs.nameCount i ≤ FILENAME_LEN := by
  rw [Image.nameCount]
  split
  · exact Nat.le_refl _
  · exact fs.name_length_le i

/-- What a directory read returns fits if the name does, and the whole field where its last byte
    is not zero. -/
theorem Image.nameCount_le_iff {n : Nat} :
    fs.nameCount i ≤ n ↔ (fs.name i).length ≤ n ∧ (fs.lastByte i ≠ 0 → FILENAME_LEN ≤ n) := by
  have hlength := fs.name_length_le i
  rw [Image.nameCount]
  by_cases hlast : fs.lastByte i = 0
  · simp [hlast]
  · simp only [ne_eq, hlast, not_false_eq_true, if_true, forall_const]
    exact ⟨fun hle => ⟨Nat.le_trans hlength hle, hle⟩, And.right⟩

/-- A name with a zero in its last byte ends before that. -/
theorem Image.name_length_lt (hlast : fs.lastByte i = 0) : (fs.name i).length < FILENAME_LEN := by
  refine Nat.lt_of_le_of_ne (fs.name_length_le i) fun hfull => ?_
  have hlt : FILENAME_LEN - 1 < (fs.name i).length := by
    rw [hfull]
    decide
  have hbyte : (fs.name i).getD (FILENAME_LEN - 1) 0 = fs.lastByte i := nstring_getD (by decide) (Nat.le_of_lt hlt)
  rw [hlast, List.getD_eq_getElem _ _ hlt] at hbyte
  exact fs.zero_notMem_name i (hbyte ▸ List.getElem_mem hlt)

/-- A directory read returns the length of the name, or of the whole field if that ends in another
    byte than zero. -/
theorem Image.nameCount_eq :
    fs.nameCount i =
      if fs.lastByte i = 0 ∨ (fs.name i).length = FILENAME_LEN then (fs.name i).length else FILENAME_LEN := by
  rw [Image.nameCount]
  by_cases hlast : fs.lastByte i = 0
  · rw [if_neg (not_not.mpr hlast), if_pos (.inl hlast)]
  · rw [if_pos hlast]
    split
    · rename_i hfull
      exact (hfull.resolve_left hlast).symm
    · rfl

/-- The copy that `read_dentry_by_name` makes of a name to compare it. -/
theorem nstring_poss_name : nstring (poss_name fs i) FILENAME_LEN 0 = fs.name i := by
  refine nstring_eq (fs.name_length_le i) (fs.zero_notMem_name i) fun j hj _ => ?_
  rw [poss_name, strncpy_from_eq]
  exact fillWith_inside _ _ _ hj (by decide)

end Name

section Lookup

variable {fs : Image} {m : Mem} {fname : UInt32}

/-- The test of `read_dentry_by_name` compares names. -/
theorem strncmp_poss_name (i : UInt32) :
    strncmp (poss_name fs i) 0 m fname (UInt32.ofNat FILENAME_LEN) = 0 ↔
      fs.name i = nstring m FILENAME_LEN fname := by
  have hnames := strncmp_eq_zero_iff_nstring (poss_name fs i) m 0 fname (UInt32.ofNat FILENAME_LEN)
  rw [← nstring_poss_name]
  exact hnames

/-- Copying an entry copies its 64 bytes. -/
theorem memcpy_from_dentry (i : UInt32) (d : Mem) (dentry : UInt32) :
    memcpy_from d dentry fs.bytes (cur_dentry i) ENTRY_SIZE_BYTES = fs.copied i d dentry :=
  memcpy_from_eq_blit _ _ _ _ _

/-- The loop over the directory searches for a name. -/
theorem read_dentry_loop_eq_search (d : Mem) (dentry : UInt32) (n : Nat) (i : UInt32) :
    read_dentry_loop fs m fname d dentry n i =
      search (fun i => fs.name i = nstring m FILENAME_LEN fname) (fun i => (SUCCESS, fs.copied i d dentry))
        (FAILURE, d) n i := by
  induction n generalizing i with
  | zero => rfl
  | succ n ih =>
    rw [read_dentry_loop, search, ih, memcpy_from_dentry]
    simp only [strncmp_poss_name]

/-- The copy in the caller's memory is the entry. -/
theorem dentry_at_copied (i : UInt32) (d : Mem) (dentry : UInt32) :
    dentry_t.at (fs.copied i d dentry) dentry = fs.dentry i := by
  have hbyte (j : Nat) (hj : j < 64) :
      fs.copied i d dentry (dentry + UInt32.ofNat j) = fs.bytes (cur_dentry i + UInt32.ofNat j) :=
    blit_inside _ _ _ _ hj (by decide)
  have hword (j : Nat) (hj : j + 4 ≤ 64) :
      load32 (fs.copied i d dentry) (dentry + UInt32.ofNat j) = load32 fs.bytes (cur_dentry i + UInt32.ofNat j) := by
    refine load32_congr fun l hl => ?_
    rw [UInt32.add_assoc, UInt32.add_assoc, ← UInt32.ofNat_add]
    exact hbyte (j + l) (by omega)
  rw [Image.dentry, dentry_t.at, dentry_t.at, dentry_t.mk.injEq]
  exact ⟨funext fun j => hbyte j (Nat.lt_trans j.isLt (by decide)), hword 32 (by decide), hword 36 (by decide)⟩

/-- The caller's entry is the one that the search finds. -/
theorem namedDentry_eq (fs : Image) (m : Mem) (fname : UInt32) :
    fs.namedDentry m fname =
      if (strlen m fname).toNat > FILENAME_LEN then none
      else search (fun i => fs.name i = nstring m FILENAME_LEN fname) (fun i => some (fs.dentry i)) none
        fs.numEntries 0 := by
  rw [Image.namedDentry, read_dentry_by_name]
  by_cases hlong : (strlen m fname).toNat > FILENAME_LEN
  · rw [if_pos hlong, if_pos hlong]
    rfl
  · have hmap := search_map (fun i => fs.name i = nstring m FILENAME_LEN fname)
      (fun i => (SUCCESS, fs.copied i (fun _ => 0) 0)) (FAILURE, fun _ => 0)
      (fun result => if result.1 = FAILURE then none else some (dentry_t.at result.2 0)) fs.numEntries 0
    simp only [dentry_at_copied] at hmap
    rw [if_neg hlong, if_neg hlong, read_dentry_loop_eq_search]
    exact hmap

/-- The name of an entry leads to the first entry of that name. -/
theorem namedDentry_first {i : Nat} (hi : i < fs.numEntries)
    (hname : IsText m fname (fs.name (UInt32.ofNat i))) :
    ∃ first ≤ i, fs.name (UInt32.ofNat first) = fs.name (UInt32.ofNat i) ∧
      (∀ j < first, fs.name (UInt32.ofNat j) ≠ fs.name (UInt32.ofNat i)) ∧
      fs.namedDentry m fname = some (fs.dentry (UInt32.ofNat first)) := by
  have hlength := fs.name_length_le (UInt32.ofNat i)
  have hnonzero := fs.zero_notMem_name (UInt32.ofNat i)
  have hstring := strlen_eq (isString_of_isText hname hnonzero (Nat.lt_of_le_of_lt hlength (by decide)))
  have hshort : ¬ (strlen m fname).toNat > FILENAME_LEN := by
    rw [hstring, UInt32.toNat_ofNat']
    exact Nat.not_lt.mpr (Nat.le_trans (Nat.mod_le _ _) hlength)
  have hsame : nstring m FILENAME_LEN fname = fs.name (UInt32.ofNat i) := nstring_of_isText hname hlength hnonzero
  have hexists : ∃ j, fs.name (UInt32.ofNat j) = fs.name (UInt32.ofNat i) := ⟨i, rfl⟩
  have hfirst := Nat.find_spec hexists
  have hle : Nat.find hexists ≤ i := Nat.find_min' hexists rfl
  refine ⟨Nat.find hexists, hle, hfirst, fun j hj => Nat.find_min hexists hj, ?_⟩
  rw [namedDentry_eq, if_neg hshort, ← UInt32.zero_add (UInt32.ofNat (Nat.find hexists))]
  refine search_hit (fun i => some (fs.dentry i)) none (Nat.lt_of_le_of_lt hle hi) ?_ fun l hl => ?_
  · rw [UInt32.zero_add, hsame, hfirst]
  · rw [UInt32.zero_add, hsame]
    exact Nat.find_min hexists hl

end Lookup

section ReadDir

variable {fs : Image} {k : Kernel} {fd : Fin MAX_DESC} {desc : fdesc_t}
  (hdesc : k.desc k.cur_pcb fd = desc) (m : Mem) (buf : UInt32)
include hdesc

/-- `fsys_read_dir` at an entry fills 32 bytes with its name and zeros, and goes on
    to the next entry. -/
theorem fsys_read_dir_entry (hpos : desc.file_pos < fs.word 0) :
    fsys_read_dir fs k fd m buf =
      ((fs.nameCount desc.file_pos : Int),
        fillWith m buf (fun j => (fs.name desc.file_pos).getD j 0) FILENAME_LEN,
        k.setDesc k.cur_pcb fd { desc with file_pos := desc.file_pos + 1 }) := by
  have hend : ¬ desc.file_pos ≥ fs.word 0 := UInt32.not_le.mpr hpos
  have hbytes : (if fs.bytes (cur_dentry desc.file_pos + UInt32.ofNat (FILENAME_LEN - 1)) ≠ 0 then
      UInt32.ofNat FILENAME_LEN else strlen fs.bytes (cur_dentry desc.file_pos)) =
      UInt32.ofNat (fs.nameCount desc.file_pos) := by
    rw [Image.nameCount, Image.lastByte]
    split
    · rfl
    · rename_i hlast
      have hlength := fs.name_length_lt desc.file_pos (not_not.mp hlast)
      exact strlen_eq (isString_of_isText (isText_nstring hlength) (fs.zero_notMem_name _)
        (Nat.lt_trans hlength (by decide)))
  have hcount := fs.nameCount_le desc.file_pos
  have hlength := fs.name_length_le_nameCount desc.file_pos
  have htoNat : (UInt32.ofNat (fs.nameCount desc.file_pos)).toNat = fs.nameCount desc.file_pos :=
    UInt32.toNat_ofNat_of_lt' (Nat.lt_of_le_of_lt hcount (by decide))
  have hname : nstring fs.bytes (fs.nameCount desc.file_pos) (cur_dentry desc.file_pos) = fs.name desc.file_pos :=
    nstring_eq hlength (fs.zero_notMem_name _) fun j hj hjlen => (nstring_getD (by omega) hjlen).symm
  have hvalue : toInt32 (UInt32.ofNat (fs.nameCount desc.file_pos)) = fs.nameCount desc.file_pos := by
    have hsmall : (UInt32.ofNat (fs.nameCount desc.file_pos)).toNat < 2 ^ 31 := by
      rw [htoNat]
      exact Nat.lt_of_le_of_lt hcount (by decide)
    rw [toInt32_of_lt hsmall, htoNat]
  simp only [fsys_read_dir, hdesc, if_neg hend, hbytes, hvalue, strncpy_from_eq, htoNat, hname,
    memset_eq_fillWith]
  congr 2
  exact fillWith_text m buf hlength hcount

/-- At the end of the directory `fsys_read_dir` only clears the buffer. -/
theorem fsys_read_dir_end (hpos : fs.word 0 ≤ desc.file_pos) :
    fsys_read_dir fs k fd m buf = (0, fillWith m buf (fun _ => 0) FILENAME_LEN, k) := by
  simp only [fsys_read_dir, hdesc, if_pos hpos, memset_eq_fillWith]
  rfl

end ReadDir

end lacos.file_system
