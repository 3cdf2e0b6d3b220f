import LacOS.Paging.Translate

open memory

namespace lacos.paging

/-- The entries that the MMU goes through for an address. -/
inductive Walk where
  | absent
  | large (dir : UInt32)
  | small (dir table : UInt32)
  deriving DecidableEq

def walk (pg : Paging) (virt_addr : UInt32) : Walk :=
  if dirEntry pg virt_addr &&& PRESENT_BIT = 0 then .absent
  else if dirEntry pg virt_addr &&& PAGE_SIZE_BIT ≠ 0 then .large (dirEntry pg virt_addr)
  else if tableEntry pg virt_addr &&& PRESENT_BIT = 0 then .absent
  else .small (dirEntry pg virt_addr) (tableEntry pg virt_addr)

def Walk.address (virt_addr : UInt32) : Walk → UInt32
  | .absent => NULL
  | .large dir => (dir &&& TOP_10_BITS) + (virt_addr &&& LAST_22_BITS)
  | .small _ table => (table &&& ALL_BUT_LAST_12_BITS) + (virt_addr &&& LAST_12_BITS)

/-- A right is there when every entry on the way grants it. -/
def Walk.grants (bit : UInt32) : Walk → Bool
  | .absent => false
  | .large dir => dir &&& bit ≠ 0
  | .small dir table => dir &&& bit ≠ 0 ∧ table &&& bit ≠ 0

/-- `resolve_virt_addr` gives the address that the entries on the way make. -/
theorem resolve_virt_addr_walk (pg : Paging) (virt_addr : UInt32) :
    resolve_virt_addr pg virt_addr = (walk pg virt_addr).address virt_addr := by
  rw [resolve_virt_addr_eq, walk]
  split
  · rfl
  · split
    · rfl
    · split <;> rfl

/-- An address is in the same region of four megabytes, and in the same small page. -/
def SameRegion (virtual_addr virt_addr : UInt32) : Prop :=
  virt_addr.toNat / 2 ^ 22 = virtual_addr.toNat / 2 ^ 22

def SameSmall (virtual_addr virt_addr : UInt32) : Prop :=
  virt_addr.toNat / 2 ^ 12 = virtual_addr.toNat / 2 ^ 12

instance (virtual_addr virt_addr : UInt32) : Decidable (SameRegion virtual_addr virt_addr) :=
  inferInstanceAs (Decidable (_ = _))

instance (virtual_addr virt_addr : UInt32) : Decidable (SameSmall virtual_addr virt_addr) :=
  inferInstanceAs (Decidable (_ = _))

/-- A small page lies in one region. -/
theorem SameSmall.region {virtual_addr virt_addr : UInt32} (hsame : SameSmall virtual_addr virt_addr) :
    SameRegion virtual_addr virt_addr := by
  rw [SameSmall] at hsame
  rw [SameRegion]
  omega

/-- The present small directory entries point to the tables that `map_page` places for them. -/
def WellFormed (pg : Paging) : Prop :=
  ∀ index : UInt32, index.toNat < 1024 → pg.page_directory index &&& PRESENT_BIT ≠ 0 →
    pg.page_directory index &&& PAGE_SIZE_BIT = 0 →
    pg.page_directory index &&& ALL_BUT_LAST_12_BITS = PAGE_TABLE_STARTADDR + SIZEOFDIR * index

section Mask

variable {a : UInt32}

/-- A mask of high bits rounds an address down. -/
theorem high_bits_toNat {mask : UInt32} {n : Nat} (hlow : mask.toNat % 2 ^ n = 0)
    (hhigh : mask.toNat / 2 ^ n = 2 ^ (32 - n) - 1) (hn : n ≤ 32) :
    (a &&& mask).toNat = 2 ^ n * (a.toNat / 2 ^ n) := by
  have hdiv : (a.toNat &&& mask.toNat) / 2 ^ n = a.toNat / 2 ^ n := by
    have hlt : a.toNat / 2 ^ n < 2 ^ (32 - n) := by
      rw [Nat.div_lt_iff_lt_mul (Nat.two_pow_pos n), ← Nat.pow_add, Nat.sub_add_cancel hn]
      exact a.toNat_lt
    rw [Nat.and_div_two_pow, hhigh, Nat.and_two_pow_sub_one_eq_mod, Nat.mod_eq_of_lt hlt]
  have hmod : (a.toNat &&& mask.toNat) % 2 ^ n = 0 := by
    rw [Nat.and_mod_two_pow, hlow, Nat.and_zero]
  rw [UInt32.toNat_and, ← Nat.div_add_mod (a.toNat &&& mask.toNat) (2 ^ n), hdiv, hmod, Nat.add_zero]

theorem small_frame_toNat : (a &&& ALL_BUT_LAST_12_BITS).toNat = 2 ^ 12 * (a.toNat / 2 ^ 12) :=
  high_bits_toNat (by decide) (by decide) (by decide)

theorem large_frame_toNat : (a &&& TOP_10_BITS).toNat = 2 ^ 22 * (a.toNat / 2 ^ 22) :=
  high_bits_toNat (by decide) (by decide) (by decide)

theorem small_frame_aligned (a : UInt32) : (a &&& ALL_BUT_LAST_12_BITS).toNat % 2 ^ 12 = 0 := by
  rw [small_frame_toNat]
  omega

/-- The flags below an aligned address leave it alone. -/
theorem add_flags_toNat {base flags : UInt32} (hbase : base.toNat % 2 ^ 12 = 0) (hflags : flags.toNat < 2 ^ 12) :
    (base + flags).toNat = base.toNat + flags.toNat := by
  have hlt := base.toNat_lt
  rw [UInt32.toNat_add]
  omega

/-- The flags of an entry do not reach into the address of its frame. -/
theorem add_flags_frame {base flags : UInt32} (hbase : base.toNat % 2 ^ 12 = 0) (hflags : flags.toNat < 2 ^ 12) :
    (base + flags) &&& ALL_BUT_LAST_12_BITS = base := by
  apply UInt32.toNat_inj.mp
  rw [small_frame_toNat, add_flags_toNat hbase hflags]
  omega

/-- A flag of an entry can be read whatever its frame is. -/
theorem add_flags_bit {base flags bit : UInt32} (hbase : base.toNat % 2 ^ 12 = 0) (hflags : flags.toNat < 2 ^ 12)
    (hbit : LAST_12_BITS &&& bit = bit) : (base + flags) &&& bit = flags &&& bit := by
  have hlow : (base + flags) &&& LAST_12_BITS = flags := by
    apply UInt32.toNat_inj.mp
    rw [small_offset_toNat, add_flags_toNat hbase hflags]
    omega
  rw [← hbit, ← UInt32.and_assoc, hlow, hbit]

end Mask

section Rights

variable (privileges write : Bool)

theorem rights_lt : (rights privileges write).toNat < 2 ^ 12 := by
  cases privileges <;> cases write <;> decide

/-- The flags of a small entry: it is present and small, and grants what was asked for. -/
theorem rights_bits : rights privileges write &&& PRESENT_BIT ≠ 0 ∧ rights privileges write &&& PAGE_SIZE_BIT = 0 ∧
    decide (rights privileges write &&& US_BIT ≠ 0) = privileges ∧
    decide (rights privileges write &&& RW_BIT ≠ 0) = write := by
  cases privileges <;> cases write <;> decide

theorem large_rights_lt : (PAGE_SIZE_BIT + rights privileges write).toNat < 2 ^ 12 := by
  cases privileges <;> cases write <;> decide

/-- The flags of a large entry: it is present and large, and grants what was asked for. -/
theorem large_rights_bits : (PAGE_SIZE_BIT + rights privileges write) &&& PRESENT_BIT ≠ 0 ∧
    (PAGE_SIZE_BIT + rights privileges write) &&& PAGE_SIZE_BIT ≠ 0 ∧
    decide ((PAGE_SIZE_BIT + rights privileges write) &&& US_BIT ≠ 0) = privileges ∧
    decide ((PAGE_SIZE_BIT + rights privileges write) &&& RW_BIT ≠ 0) = write := by
  cases privileges <;> cases write <;> decide

end Rights

section Index

variable (virtual_addr virt_addr : UInt32)

theorem region_index_toNat : (virtual_addr >>> SHIFT_FOR_DIRENTRY).toNat = virtual_addr.toNat / 2 ^ 22 := by
  rw [UInt32.toNat_shiftRight, Nat.shiftRight_eq_div_pow]
  rfl

theorem small_index_toNat :
    ((virtual_addr >>> SHIFT_FOR_TABLEENTRY) &&& LAST_10_BITS).toNat = virtual_addr.toNat / 2 ^ 12 % 2 ^ 10 := by
  have hmask : (LAST_10_BITS : UInt32).toNat = 2 ^ 10 - 1 := by decide
  rw [UInt32.toNat_and, hmask, Nat.and_two_pow_sub_one_eq_mod, UInt32.toNat_shiftRight, Nat.shiftRight_eq_div_pow]
  rfl

variable {virtual_addr virt_addr}

/-- Addresses of one region have the same directory index, however it is computed. -/
theorem sameRegion_iff : SameRegion virtual_addr virt_addr ↔
    (virt_addr &&& TOP_10_BITS) >>> SHIFT_FOR_DIRENTRY = virtual_addr >>> SHIFT_FOR_DIRENTRY := by
  rw [dir_index_eq_iff, region_index_toNat, SameRegion]

/-- Addresses of one small page have the same two indices. -/
theorem sameSmall_iff : SameSmall virtual_addr virt_addr ↔ SameRegion virtual_addr virt_addr ∧
    (virt_addr &&& MIDDLE_10_BITS) >>> SHIFT_FOR_TABLEENTRY =
      (virtual_addr >>> SHIFT_FOR_TABLEENTRY) &&& LAST_10_BITS := by
  rw [← UInt32.toNat_inj, table_index_toNat, small_index_toNat, SameRegion, SameSmall]
  omega

theorem region_index_lt : (virtual_addr >>> SHIFT_FOR_DIRENTRY).toNat < 1024 := by
  have hlt := virtual_addr.toNat_lt
  rw [region_index_toNat]
  omega

end Index

/-- The table that `map_page` places for a directory entry. -/
theorem table_addr_toNat {index : UInt32} (hindex : index.toNat < 1024) :
    (PAGE_TABLE_STARTADDR + SIZEOFDIR * index).toNat = 0xC000000 + 2 ^ 12 * index.toNat := by
  have hstart : (PAGE_TABLE_STARTADDR : UInt32).toNat = 0xC000000 := rfl
  have hsize : (SIZEOFDIR : UInt32).toNat = 2 ^ 12 := rfl
  rw [UInt32.toNat_add, UInt32.toNat_mul, hstart, hsize]
  omega

/-- The address of a table entry as a number: tables do not overlap, and none reaches the end of
    memory. -/
theorem table_word_toNat {index word : UInt32} (hindex : index.toNat < 1024) (hword : word.toNat < 1024) :
    (PAGE_TABLE_STARTADDR + SIZEOFDIR * index + 4 * word).toNat =
      0xC000000 + 2 ^ 12 * index.toNat + 4 * word.toNat := by
  have hfour : (4 : UInt32).toNat = 4 := rfl
  rw [UInt32.toNat_add, table_addr_toNat hindex, UInt32.toNat_mul, hfour]
  omega

section Map

variable (pg : Paging) (phys_addr virtual_addr : UInt32) (privileges write : Bool)

/-- What `map_page` leaves for a large page, for a small page in a new table and for a
    small page in a table that is there. -/
def withLarge : Paging :=
  { pg with
    page_directory := Function.update pg.page_directory (virtual_addr >>> SHIFT_FOR_DIRENTRY)
      ((phys_addr &&& ALL_BUT_LAST_12_BITS) + PAGE_SIZE_BIT + rights privileges write) }

def withNewTable : Paging :=
  let table := PAGE_TABLE_STARTADDR + SIZEOFDIR * (virtual_addr >>> SHIFT_FOR_DIRENTRY)
  setTableEntry { pg with
    page_tables := clearTable pg.page_tables table
    page_directory := Function.update pg.page_directory (virtual_addr >>> SHIFT_FOR_DIRENTRY)
      (table + rights privileges write) } table phys_addr virtual_addr privileges write

def withOldTable : Paging :=
  setTableEntry pg (pg.page_directory (virtual_addr >>> SHIFT_FOR_DIRENTRY) &&& ALL_BUT_LAST_12_BITS) phys_addr
    virtual_addr privileges write

/-- The slot that a request without `remap` needs. -/
def SlotFree (page_size : Bool) : Prop :=
  dirEntry pg virtual_addr &&& PRESENT_BIT = 0 ∨
    page_size = false ∧ dirEntry pg virtual_addr &&& PAGE_SIZE_BIT = 0 ∧
      tableEntry pg virtual_addr &&& PRESENT_BIT = 0

instance (page_size : Bool) : Decidable (SlotFree pg virtual_addr page_size) :=
  inferInstanceAs (Decidable (_ ∨ _))

/-- `map_page` and the walk compute the same directory index. -/
theorem dirEntry_self : dirEntry pg virtual_addr = pg.page_directory (virtual_addr >>> SHIFT_FOR_DIRENTRY) := by
  rw [dirEntry, sameRegion_iff.mp rfl]

/-- `map_page` and the walk compute the same table index. -/
theorem tableEntry_self : tableEntry pg virtual_addr =
    pg.page_tables ((pg.page_directory (virtual_addr >>> SHIFT_FOR_DIRENTRY) &&& ALL_BUT_LAST_12_BITS) +
      4 * ((virtual_addr >>> SHIFT_FOR_TABLEENTRY) &&& LAST_10_BITS)) := by
  rw [tableEntry, dirEntry_self, (sameSmall_iff.mp rfl).2]

variable {phys_addr virtual_addr}

/-- Everything `map_page` does. -/
theorem map_page_cases (page_size remap : Bool) (hphys : phys_addr ≠ NULL) (hvirtual : virtual_addr ≠ NULL) :
    (remap = false ∧ ¬ SlotFree pg virtual_addr page_size ∧
      map_page pg phys_addr virtual_addr page_size privileges write remap = (-1, pg)) ∨
    ((dirEntry pg virtual_addr &&& PRESENT_BIT = 0 ∨ remap = true) ∧ page_size = true ∧
      map_page pg phys_addr virtual_addr page_size privileges write remap =
        (0, withLarge pg phys_addr virtual_addr privileges write)) ∨
    ((dirEntry pg virtual_addr &&& PRESENT_BIT = 0 ∨ remap = true) ∧ page_size = false ∧
      map_page pg phys_addr virtual_addr page_size privileges write remap =
        (0, withNewTable pg phys_addr virtual_addr privileges write)) ∨
    (dirEntry pg virtual_addr &&& PRESENT_BIT ≠ 0 ∧ remap = false ∧ page_size = false ∧
      SlotFree pg virtual_addr page_size ∧
      map_page pg phys_addr virtual_addr page_size privileges write remap =
        (0, withOldTable pg phys_addr virtual_addr privileges write)) := by
  have hnull : ¬ (phys_addr = NULL ∨ virtual_addr = NULL) := fun h => h.elim hphys hvirtual
  simp only [SlotFree, tableEntry_self, dirEntry_self]
  rw [map_page, if_neg hnull]
  simp only
  by_cases hnew : pg.page_directory (virtual_addr >>> SHIFT_FOR_DIRENTRY) &&& PRESENT_BIT = 0 ∨ remap = true
  · rw [if_pos hnew]
    cases page_size with
    | true => exact .inr (.inl ⟨hnew, rfl, rfl⟩)
    | false => exact .inr (.inr (.inl ⟨hnew, rfl, rfl⟩))
  · rw [if_neg hnew]
    obtain ⟨hpresent, hremap⟩ := not_or.mp hnew
    rw [Bool.not_eq_true] at hremap
    cases page_size with
    | true => exact .inl ⟨hremap, by simp [hpresent], rfl⟩
    | false =>
      by_cases hlarge : pg.page_directory (virtual_addr >>> SHIFT_FOR_DIRENTRY) &&& PAGE_SIZE_BIT ≠ 0
      · rw [if_pos (.inr hlarge)]
        exact .inl ⟨hremap, by simp [hpresent, hlarge], rfl⟩
      · rw [if_neg (by simpa using hlarge)]
        split
        · rename_i hused
          exact .inl ⟨hremap, by simp [hpresent, hused], rfl⟩
        · rename_i hfree
          exact .inr (.inr (.inr ⟨hpresent, hremap, rfl, .inr ⟨rfl, not_not.mp hlarge, not_not.mp hfree⟩, rfl⟩))

end Map

section Effect

variable {pg : Paging} {phys_addr virtual_addr virt_addr : UInt32} {privileges write : Bool}

/-- Only the entries on the way matter. The table entry counts if there is a table. -/
theorem walk_congr {pg' : Paging} (hdir : dirEntry pg' virt_addr = dirEntry pg virt_addr)
    (htable : dirEntry pg virt_addr &&& PRESENT_BIT ≠ 0 → dirEntry pg virt_addr &&& PAGE_SIZE_BIT = 0 →
      tableEntry pg' virt_addr = tableEntry pg virt_addr) :
    walk pg' virt_addr = walk pg virt_addr := by
  rw [walk, walk, hdir]
  by_cases habsent : dirEntry pg virt_addr &&& PRESENT_BIT = 0
  · rw [if_pos habsent, if_pos habsent]
  · by_cases hlarge : dirEntry pg virt_addr &&& PAGE_SIZE_BIT ≠ 0
    · rw [if_neg habsent, if_neg habsent, if_pos hlarge, if_pos hlarge]
    · rw [htable habsent (not_not.mp hlarge)]

theorem walk_large {dir : UInt32} (hdir : dirEntry pg virt_addr = dir) (hpresent : dir &&& PRESENT_BIT ≠ 0)
    (hlarge : dir &&& PAGE_SIZE_BIT ≠ 0) : walk pg virt_addr = .large dir := by
  rw [walk, hdir, if_neg hpresent, if_pos hlarge]

theorem walk_small {dir table : UInt32} (hdir : dirEntry pg virt_addr = dir) (hpresent : dir &&& PRESENT_BIT ≠ 0)
    (hsmall : dir &&& PAGE_SIZE_BIT = 0) (htable : tableEntry pg virt_addr = table) :
    walk pg virt_addr = if table &&& PRESENT_BIT = 0 then .absent else .small dir table := by
  rw [walk, hdir, htable, if_neg hpresent, if_neg (not_not.mpr hsmall)]

/-- After a large page is mapped, the addresses of its region lead through its entry, and all
    others go the old way. -/
theorem walk_withLarge : walk (withLarge pg phys_addr virtual_addr privileges write) virt_addr =
    if SameRegion virtual_addr virt_addr then
      .large ((phys_addr &&& ALL_BUT_LAST_12_BITS) + (PAGE_SIZE_BIT + rights privileges write))
    else walk pg virt_addr := by
  have hframe := small_frame_aligned phys_addr
  have hflags := large_rights_lt privileges write
  obtain ⟨hpresent, hlarge, -⟩ := large_rights_bits privileges write
  split
  · rename_i hsame
    apply walk_large
    · rw [dirEntry, sameRegion_iff.mp hsame, ← UInt32.add_assoc]
      exact Function.update_self ..
    · rwa [add_flags_bit hframe hflags (by decide)]
    · rwa [add_flags_bit hframe hflags (by decide)]
  · rename_i hother
    have hdir : dirEntry (withLarge pg phys_addr virtual_addr privileges write) virt_addr =
        dirEntry pg virt_addr := Function.update_of_ne (fun heq => hother (sameRegion_iff.mpr heq)) ..
    refine walk_congr hdir fun _ _ => ?_
    rw [tableEntry, tableEntry, hdir]
    rfl

/-- The word of a table that belongs to an address, and how it relates to the word that
    `map_page` writes. -/
theorem table_word_eq_iff {index : UInt32} (hindex : index.toNat < 1024) :
    PAGE_TABLE_STARTADDR + SIZEOFDIR * index + 4 * ((virt_addr &&& MIDDLE_10_BITS) >>> SHIFT_FOR_TABLEENTRY) =
        PAGE_TABLE_STARTADDR + SIZEOFDIR * (virtual_addr >>> SHIFT_FOR_DIRENTRY) +
          4 * ((virtual_addr >>> SHIFT_FOR_TABLEENTRY) &&& LAST_10_BITS) ↔
      index = virtual_addr >>> SHIFT_FOR_DIRENTRY ∧ (virt_addr &&& MIDDLE_10_BITS) >>> SHIFT_FOR_TABLEENTRY =
        (virtual_addr >>> SHIFT_FOR_TABLEENTRY) &&& LAST_10_BITS := by
  have hword : ((virt_addr &&& MIDDLE_10_BITS) >>> SHIFT_FOR_TABLEENTRY).toNat < 1024 := by
    rw [table_index_toNat]
    omega
  have hother : ((virtual_addr >>> SHIFT_FOR_TABLEENTRY) &&& LAST_10_BITS).toNat < 1024 := by
    rw [small_index_toNat]
    omega
  rw [← UInt32.toNat_inj, table_word_toNat hindex hword, table_word_toNat region_index_lt hother,
    ← UInt32.toNat_inj, ← UInt32.toNat_inj]
  omega

/-- Clearing a table clears its own entries and those of no other table. -/
theorem clearTable_word {page_tables : UInt32 → UInt32} {index : UInt32} (hindex : index.toNat < 1024) :
    clearTable page_tables (PAGE_TABLE_STARTADDR + SIZEOFDIR * (virtual_addr >>> SHIFT_FOR_DIRENTRY))
        (PAGE_TABLE_STARTADDR + SIZEOFDIR * index + 4 * ((virt_addr &&& MIDDLE_10_BITS) >>> SHIFT_FOR_TABLEENTRY)) =
      if index = virtual_addr >>> SHIFT_FOR_DIRENTRY then 0
      else page_tables
        (PAGE_TABLE_STARTADDR + SIZEOFDIR * index + 4 * ((virt_addr &&& MIDDLE_10_BITS) >>> SHIFT_FOR_TABLEENTRY)) := by
  have hword : ((virt_addr &&& MIDDLE_10_BITS) >>> SHIFT_FOR_TABLEENTRY).toNat < 1024 := by
    rw [table_index_toNat]
    omega
  have hregion : (virtual_addr >>> SHIFT_FOR_DIRENTRY).toNat < 1024 := region_index_lt
  have htable := table_addr_toNat hregion
  have hslot := table_word_toNat hindex hword
  rw [clearTable]
  congr 1
  rw [← UInt32.toNat_inj, UInt32.toNat_sub, hslot, htable, eq_iff_iff]
  omega

theorem table_frame :
    (PAGE_TABLE_STARTADDR + SIZEOFDIR * (virtual_addr >>> SHIFT_FOR_DIRENTRY)).toNat % 2 ^ 12 = 0 := by
  rw [table_addr_toNat region_index_lt]
  omega

theorem dir_index_lt : ((virt_addr &&& TOP_10_BITS) >>> SHIFT_FOR_DIRENTRY).toNat < 1024 := by
  have hlt := virt_addr.toNat_lt
  rw [dir_index_toNat]
  omega

/-- The table word of an address in a well-formed state. -/
theorem WellFormed.tableEntry_eq (hwf : WellFormed pg) (hpresent : dirEntry pg virt_addr &&& PRESENT_BIT ≠ 0)
    (hsmall : dirEntry pg virt_addr &&& PAGE_SIZE_BIT = 0) :
    dirEntry pg virt_addr &&& ALL_BUT_LAST_12_BITS =
      PAGE_TABLE_STARTADDR + SIZEOFDIR * ((virt_addr &&& TOP_10_BITS) >>> SHIFT_FOR_DIRENTRY) :=
  hwf _ dir_index_lt hpresent hsmall

/-- After a small page is mapped in a new table, its addresses lead through the new entries. The
    rest of the region is absent, and all others go the old way. -/
theorem walk_withNewTable (hwf : WellFormed pg) :
    walk (withNewTable pg phys_addr virtual_addr privileges write) virt_addr =
      if SameSmall virtual_addr virt_addr then
        .small (PAGE_TABLE_STARTADDR + SIZEOFDIR * (virtual_addr >>> SHIFT_FOR_DIRENTRY) + rights privileges write)
          ((phys_addr &&& ALL_BUT_LAST_12_BITS) + rights privileges write)
      else if SameRegion virtual_addr virt_addr then .absent
      else walk pg virt_addr := by
  have hframe := small_frame_aligned phys_addr
  have hflags := rights_lt privileges write
  obtain ⟨hpresent, hsmall, -⟩ := rights_bits privileges write
  by_cases hregion : SameRegion virtual_addr virt_addr
  · have hindex := sameRegion_iff.mp hregion
    have hdir : dirEntry (withNewTable pg phys_addr virtual_addr privileges write) virt_addr =
        PAGE_TABLE_STARTADDR + SIZEOFDIR * (virtual_addr >>> SHIFT_FOR_DIRENTRY) + rights privileges write := by
      rw [dirEntry, hindex]
      exact Function.update_self ..
    have htable : tableEntry (withNewTable pg phys_addr virtual_addr privileges write) virt_addr =
        if SameSmall virtual_addr virt_addr then (phys_addr &&& ALL_BUT_LAST_12_BITS) + rights privileges write
        else 0 := by
      rw [tableEntry, hdir, add_flags_frame table_frame hflags]
      split
      · rename_i hsame
        rw [(sameSmall_iff.mp hsame).2]
        exact Function.update_self ..
      · rename_i hother
        refine (Function.update_of_ne ?_ ..).trans ?_
        · rw [Ne, table_word_eq_iff region_index_lt]
          exact fun h => hother (sameSmall_iff.mpr ⟨hregion, h.2⟩)
        · exact (clearTable_word region_index_lt).trans (if_pos rfl)
    rw [walk_small hdir (by rwa [add_flags_bit table_frame hflags (by decide)])
      (by rwa [add_flags_bit table_frame hflags (by decide)]) htable, if_pos hregion]
    split
    · rw [add_flags_bit hframe hflags (by decide), if_neg hpresent]
    · rfl
  · have hne : ¬ (virt_addr &&& TOP_10_BITS) >>> SHIFT_FOR_DIRENTRY = virtual_addr >>> SHIFT_FOR_DIRENTRY :=
      fun heq => hregion (sameRegion_iff.mpr heq)
    have hdir : dirEntry (withNewTable pg phys_addr virtual_addr privileges write) virt_addr =
        dirEntry pg virt_addr := Function.update_of_ne hne ..
    rw [if_neg fun hsame : SameSmall virtual_addr virt_addr => hregion hsame.region, if_neg hregion]
    refine walk_congr hdir fun hpresent hsmall => ?_
    rw [tableEntry, tableEntry, hdir, hwf.tableEntry_eq hpresent hsmall]
    refine (Function.update_of_ne ?_ ..).trans ?_
    · rw [Ne, table_word_eq_iff dir_index_lt]
      exact fun h => hne h.1
    · exact (clearTable_word dir_index_lt).trans (if_neg hne)

/-- After a small page is mapped in a table that is there, its addresses lead through the new
    table entry and the old directory entry. All others go the old way. -/
theorem walk_withOldTable (hwf : WellFormed pg) (hpresent : dirEntry pg virtual_addr &&& PRESENT_BIT ≠ 0)
    (hsmall : dirEntry pg virtual_addr &&& PAGE_SIZE_BIT = 0) :
    walk (withOldTable pg phys_addr virtual_addr privileges write) virt_addr =
      if SameSmall virtual_addr virt_addr then
        .small (dirEntry pg virtual_addr) ((phys_addr &&& ALL_BUT_LAST_12_BITS) + rights privileges write)
      else walk pg virt_addr := by
  have hframe := small_frame_aligned phys_addr
  have hflags := rights_lt privileges write
  have hdir : dirEntry (withOldTable pg phys_addr virtual_addr privileges write) virt_addr =
      dirEntry pg virt_addr := rfl
  have htable := hwf.tableEntry_eq hpresent hsmall
  rw [dirEntry_self, sameRegion_iff.mp rfl] at htable
  split
  · rename_i hsame
    obtain ⟨hregion, hslot⟩ := sameSmall_iff.mp hsame
    have hentry : dirEntry pg virt_addr = dirEntry pg virtual_addr := by
      rw [dirEntry, sameRegion_iff.mp hregion, dirEntry_self]
    have htentry : tableEntry (withOldTable pg phys_addr virtual_addr privileges write) virt_addr =
        (phys_addr &&& ALL_BUT_LAST_12_BITS) + rights privileges write := by
      rw [tableEntry, hdir, hentry, hslot, dirEntry_self]
      exact Function.update_self ..
    rw [walk_small (hdir.trans hentry) hpresent hsmall htentry, add_flags_bit hframe hflags (by decide),
      if_neg (rights_bits privileges write).1]
  · rename_i hother
    refine walk_congr hdir fun hpresent hsmall => ?_
    rw [tableEntry, tableEntry, hdir, hwf.tableEntry_eq hpresent hsmall]
    refine Function.update_of_ne ?_ ..
    rw [htable, Ne, table_word_eq_iff dir_index_lt]
    exact fun h => hother (sameSmall_iff.mpr ⟨sameRegion_iff.mpr h.1, h.2⟩)

end Effect

end lacos.paging
