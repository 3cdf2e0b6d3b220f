import Mathlib.Data.Nat.Bitwise
import LacOS.MultiTerm.Placement
import LacOS.Paging.Init
import LacOS.Syscalls.Slots

open memory lacos.multi_term lacos.syscalls

namespace lacos.paging

/-- The directory entry of a virtual address. -/
def dirEntry (pg : Paging) (virt_addr : UInt32) : UInt32 :=
  pg.page_directory ((virt_addr &&& TOP_10_BITS) >>> SHIFT_FOR_DIRENTRY)

/-- The table entry of a virtual address in a small page. -/
def tableEntry (pg : Paging) (virt_addr : UInt32) : UInt32 :=
  pg.page_tables ((dirEntry pg virt_addr &&& ALL_BUT_LAST_12_BITS) +
    4 * ((virt_addr &&& MIDDLE_10_BITS) >>> SHIFT_FOR_TABLEENTRY))

/-- A user program can reach the address: the directory and, for a small page, the
    table have an entry that is present and grants it. -/
def userAccess (pg : Paging) (virt_addr : UInt32) : Prop :=
  dirEntry pg virt_addr &&& PRESENT_BIT ≠ 0 ∧ dirEntry pg virt_addr &&& US_BIT ≠ 0 ∧
    (dirEntry pg virt_addr &&& PAGE_SIZE_BIT ≠ 0 ∨
      tableEntry pg virt_addr &&& PRESENT_BIT ≠ 0 ∧ tableEntry pg virt_addr &&& US_BIT ≠ 0)

section Index

variable (virt_addr : UInt32)

/-- The directory index of an address is the number of its region of four megabytes. -/
theorem dir_index_toNat : ((virt_addr &&& TOP_10_BITS) >>> SHIFT_FOR_DIRENTRY).toNat = virt_addr.toNat / 2 ^ 22 := by
  have hlt := virt_addr.toNat_lt
  have hmask : (TOP_10_BITS : UInt32).toNat >>> 22 = 2 ^ 10 - 1 := by decide
  have hshift : (SHIFT_FOR_DIRENTRY : UInt32).toNat % 32 = 22 := by decide
  rw [UInt32.toNat_shiftRight, hshift, UInt32.toNat_and, Nat.shiftRight_and_distrib, hmask,
    Nat.and_two_pow_sub_one_eq_mod, Nat.shiftRight_eq_div_pow]
  omega

/-- The table index of an address is the number of its page in the region. -/
theorem table_index_toNat :
    ((virt_addr &&& MIDDLE_10_BITS) >>> SHIFT_FOR_TABLEENTRY).toNat = virt_addr.toNat / 2 ^ 12 % 2 ^ 10 := by
  have hmask : (MIDDLE_10_BITS : UInt32).toNat >>> 12 = 2 ^ 10 - 1 := by decide
  have hshift : (SHIFT_FOR_TABLEENTRY : UInt32).toNat % 32 = 12 := by decide
  rw [UInt32.toNat_shiftRight, hshift, UInt32.toNat_and, Nat.shiftRight_and_distrib, hmask,
    Nat.and_two_pow_sub_one_eq_mod, Nat.shiftRight_eq_div_pow]

theorem large_offset_toNat : (virt_addr &&& LAST_22_BITS).toNat = virt_addr.toNat % 2 ^ 22 := by
  have hmask : (LAST_22_BITS : UInt32).toNat = 2 ^ 22 - 1 := by decide
  rw [UInt32.toNat_and, hmask, Nat.and_two_pow_sub_one_eq_mod]

theorem small_offset_toNat : (virt_addr &&& LAST_12_BITS).toNat = virt_addr.toNat % 2 ^ 12 := by
  have hmask : (LAST_12_BITS : UInt32).toNat = 2 ^ 12 - 1 := by decide
  rw [UInt32.toNat_and, hmask, Nat.and_two_pow_sub_one_eq_mod]

/-- The four megabytes that a directory entry covers. -/
theorem dir_index_eq_iff {index : UInt32} : (virt_addr &&& TOP_10_BITS) >>> SHIFT_FOR_DIRENTRY = index ↔
    virt_addr.toNat / 2 ^ 22 = index.toNat := by
  rw [← UInt32.toNat_inj, dir_index_toNat]

end Index

/-- The addresses of the program's page and of the page that `sys_vidmap` gives out. -/
def InProgram (virt_addr : UInt32) : Prop :=
  PROGRAM_VIRT.toNat ≤ virt_addr.toNat ∧ virt_addr.toNat < PROGRAM_VIRT.toNat + 0x400000

def InVidmap (virt_addr : UInt32) : Prop :=
  VIDMAP_VIRT_ADDR.toNat ≤ virt_addr.toNat ∧ virt_addr.toNat < VIDMAP_VIRT_ADDR.toNat + 0x1000

/-- The program's page is the one of directory entry 32. -/
theorem inProgram_iff {virt_addr : UInt32} : InProgram virt_addr ↔ virt_addr.toNat / 2 ^ 22 = 32 := by
  have haddr : PROGRAM_VIRT.toNat = 0x8000000 := rfl
  rw [InProgram, haddr]
  omega

/-- The video page of a program is the first small page of directory entry 34. -/
theorem inVidmap_iff {virt_addr : UInt32} : InVidmap virt_addr ↔
    virt_addr.toNat / 2 ^ 22 = 34 ∧ virt_addr.toNat / 2 ^ 12 % 2 ^ 10 = 0 := by
  have haddr : VIDMAP_VIRT_ADDR.toNat = 0x8800000 := rfl
  rw [InVidmap, haddr]
  omega

/-- The paging of a kernel whose memory held `page_tables` before `paging_init`: of
    what it set up, only the program's page and the video page have been changed. -/
structure Confined (page_tables : UInt32 → UInt32) (pg : Paging) : Prop where
  directory : pg.page_directory = initDirectory ∨
    ∃ n < 6, pg.page_directory = Function.update initDirectory 32 (programPage n + 0x87)
  tables : ∃ p ≤ 3, pg.page_tables = Function.update (initTables page_tables) 0xC022000 (videoPage p + 7)

/-- The directory entry for a program's page: it is present, large and open to the program, and
    leads to the page. -/
theorem programPage_entry {n : Nat} (hn : n < 6) :
    programPage n ≠ NULL ∧
      (programPage n &&& ALL_BUT_LAST_12_BITS) + PAGE_SIZE_BIT + rights true true = programPage n + 0x87 ∧
      (programPage n + 0x87) &&& PRESENT_BIT ≠ 0 ∧ (programPage n + 0x87) &&& PAGE_SIZE_BIT ≠ 0 ∧
      (programPage n + 0x87) &&& TOP_10_BITS = programPage n := by
  interval_cases n <;> decide

/-- The table entry for a video page: it is present and leads to the page. -/
theorem videoPage_entry {p : Nat} (hp : p ≤ 3) :
    videoPage p ≠ NULL ∧ (videoPage p &&& ALL_BUT_LAST_12_BITS) + rights true true = videoPage p + 7 ∧
      (videoPage p + 7) &&& PRESENT_BIT ≠ 0 ∧ (videoPage p + 7) &&& ALL_BUT_LAST_12_BITS = videoPage p := by
  interval_cases p <;> decide

/-- The paging that `paging_init` sets up has no page of a program yet. -/
theorem confined_paging_init (pg : Paging) : Confined pg.page_tables (paging_init pg) := by
  rw [paging_init_eq]
  refine ⟨.inl rfl, 0, by decide, ?_⟩
  have hentry : videoPage 0 + 7 = 0xB8007 := by decide
  rw [hentry, initTables, Function.update_idem]

/-- Mapping the page of a slot at `PROGRAM_VIRT`. -/
theorem mapProgram_eq {pg : Paging} {n : Nat} (hn : n < 6) :
    (map_page pg (programPage n) PROGRAM_VIRT true true true true).2 =
      ⟨Function.update pg.page_directory 32 (programPage n + 0x87), pg.page_tables, pg.pages⟩ := by
  obtain ⟨hnull, hentry, -⟩ := programPage_entry hn
  exact map_page_large hnull (by decide) (by decide) hentry (.inr rfl)

section Map

variable {page_tables : UInt32 → UInt32} {pg : Paging} (hpg : Confined page_tables pg)
include hpg

/-- Mapping a program's page replaces directory entry 32 and nothing else, whatever page was
    there. -/
theorem mapProgram_directory {n : Nat} (hn : n < 6) :
    (map_page pg (programPage n) PROGRAM_VIRT true true true true).2 =
      ⟨Function.update initDirectory 32 (programPage n + 0x87), pg.page_tables, pg.pages⟩ := by
  rw [mapProgram_eq hn]
  obtain hdir | ⟨m, -, hdir⟩ := hpg.directory
  · rw [hdir]
  · rw [hdir, Function.update_idem]

/-- The page of any of the six programs can be mapped. -/
theorem Confined.mapProgram {n : Nat} (hn : n < 6) :
    Confined page_tables (map_page pg (programPage n) PROGRAM_VIRT true true true true).2 := by
  rw [mapProgram_directory hpg hn]
  exact ⟨.inr ⟨n, hn, rfl⟩, hpg.tables⟩

/-- The contents of the pages do not matter for the paging. -/
theorem Confined.mapProgram_congr {n : Nat} (hn : n < 6) {pg' : Paging}
    (hdir : pg'.page_directory = (map_page pg (programPage n) PROGRAM_VIRT true true true true).2.page_directory)
    (htables : pg'.page_tables = pg.page_tables) : Confined page_tables pg' := by
  rw [mapProgram_directory hpg hn] at hdir
  exact ⟨.inr ⟨n, hn, hdir⟩, htables ▸ hpg.tables⟩

/-- Mapping a video page at `VIDMAP_VIRT_ADDR`. -/
theorem mapVidmap_tables {p : Nat} (hp : p ≤ 3) :
    (map_page pg (videoPage p) VIDMAP_VIRT_ADDR false true true true).2 =
      ⟨pg.page_directory, Function.update (initTables page_tables) 0xC022000 (videoPage p + 7), pg.pages⟩ := by
  obtain ⟨hnull, hentry, -⟩ := videoPage_entry hp
  have hmap : (map_page pg (videoPage p) VIDMAP_VIRT_ADDR false true true true).2 =
      ⟨Function.update pg.page_directory 34 0xC022007,
        Function.update (clearTable pg.page_tables 0xC022000) 0xC022000 (videoPage p + 7), pg.pages⟩ :=
    map_page_new_table hnull (by decide) (by decide) (by decide) hentry (by decide) (by decide) (.inr rfl)
  rw [hmap]
  have hdir : Function.update pg.page_directory 34 0xC022007 = pg.page_directory := by
    rw [Function.update_eq_self_iff]
    obtain hdir | ⟨n, -, hdir⟩ := hpg.directory
    · rw [hdir]
      rfl
    · rw [hdir, Function.update_of_ne (by decide)]
      rfl
  have htables : Function.update (clearTable pg.page_tables 0xC022000) 0xC022000 (videoPage p + 7) =
      Function.update (initTables page_tables) 0xC022000 (videoPage p + 7) := by
    obtain ⟨q, -, htables⟩ := hpg.tables
    funext a
    by_cases ha : a = 0xC022000
    · rw [ha, Function.update_self, Function.update_self]
    · rw [Function.update_of_ne ha, Function.update_of_ne ha, htables, initTables, Function.update_idem,
        Function.update_of_ne ha, clearTable]
      split
      · rename_i hin
        rw [clearTable, if_pos hin]
      · rw [Function.update_of_ne ha]
  rw [hdir, htables]

/-- The video page is mapped in a table that is there, so that the directory stays the same. -/
theorem mapVidmap_directory {p : Nat} (hp : p ≤ 3) :
    (map_page pg (videoPage p) VIDMAP_VIRT_ADDR false true true true).2.page_directory = pg.page_directory := by
  rw [mapVidmap_tables hpg hp]

/-- Any of the four video pages can be mapped for the program. -/
theorem Confined.mapVidmap {p : Nat} (hp : p ≤ 3) :
    Confined page_tables (map_page pg (videoPage p) VIDMAP_VIRT_ADDR false true true true).2 := by
  rw [mapVidmap_tables hpg hp]
  exact ⟨hpg.directory, p, hp, rfl⟩

end Map

section Resolve

variable {pg : Paging} {virt_addr : UInt32}

/-- `resolve_virt_addr` as one case distinction on the two entries of the address. -/
theorem resolve_virt_addr_eq (pg : Paging) (virt_addr : UInt32) : resolve_virt_addr pg virt_addr =
    if dirEntry pg virt_addr &&& PRESENT_BIT = 0 then NULL
    else if dirEntry pg virt_addr &&& PAGE_SIZE_BIT ≠ 0 then
      (dirEntry pg virt_addr &&& TOP_10_BITS) + (virt_addr &&& LAST_22_BITS)
    else if tableEntry pg virt_addr &&& PRESENT_BIT = 0 then NULL
    else (tableEntry pg virt_addr &&& ALL_BUT_LAST_12_BITS) + (virt_addr &&& LAST_12_BITS) := rfl

/-- The directory entry of an address, from the number of its region. -/
theorem dirEntry_of_index (index : UInt32) (hindex : virt_addr.toNat / 2 ^ 22 = index.toNat) :
    dirEntry pg virt_addr = pg.page_directory index := by
  rw [dirEntry, (dir_index_eq_iff virt_addr).mpr hindex]

/-- The program's page, once a slot's page is mapped there. -/
theorem resolve_program {n : Nat} (hn : n < 6) (hdir : pg.page_directory 32 = programPage n + 0x87)
    (hin : InProgram virt_addr) : resolve_virt_addr pg virt_addr = programPage n + (virt_addr - PROGRAM_VIRT) := by
  obtain ⟨-, -, hpresent, hlarge, hpage⟩ := programPage_entry hn
  have hentry : dirEntry pg virt_addr = programPage n + 0x87 := by
    rw [dirEntry_of_index 32 (inProgram_iff.mp hin), hdir]
  have hoffset : virt_addr &&& LAST_22_BITS = virt_addr - PROGRAM_VIRT := by
    have haddr : PROGRAM_VIRT.toNat = 0x8000000 := rfl
    obtain ⟨hlo, hhi⟩ := hin
    apply UInt32.toNat_inj.mp
    rw [large_offset_toNat, UInt32.toNat_sub_of_le _ _ (UInt32.le_iff_toNat_le.mpr hlo)]
    omega
  rw [resolve_virt_addr_eq, hentry, if_neg hpresent, if_pos hlarge, hpage, hoffset]

/-- `PROGRAM_VIRT` leads to the page that has just been mapped there. -/
theorem resolve_mapProgram {n : Nat} (hn : n < 6) {pg' : Paging}
    (hdir : pg'.page_directory = (map_page pg (programPage n) PROGRAM_VIRT true true true true).2.page_directory) :
    resolve_virt_addr pg' PROGRAM_VIRT = programPage n := by
  have hentry : pg'.page_directory 32 = programPage n + 0x87 := by
    rw [hdir, mapProgram_eq hn]
    exact Function.update_self 32 _ pg.page_directory
  rw [resolve_program hn hentry (inProgram_iff.mpr (by decide)), UInt32.sub_self, UInt32.add_zero]

/-- The page that `sys_vidmap` gives out, once a video page is mapped there. -/
theorem resolve_vidmap {p : Nat} (hp : p ≤ 3) (hdir : pg.page_directory 34 = 0xC022007)
    (htable : pg.page_tables 0xC022000 = videoPage p + 7) (hin : InVidmap virt_addr) :
    resolve_virt_addr pg virt_addr = videoPage p + (virt_addr - VIDMAP_VIRT_ADDR) := by
  obtain ⟨-, -, hpresent, hpage⟩ := videoPage_entry hp
  obtain ⟨hindex, hslot⟩ := inVidmap_iff.mp hin
  have hentry : dirEntry pg virt_addr = 0xC022007 := by rw [dirEntry_of_index 34 hindex, hdir]
  have hzero : (virt_addr &&& MIDDLE_10_BITS) >>> SHIFT_FOR_TABLEENTRY = 0 := by
    apply UInt32.toNat_inj.mp
    rw [table_index_toNat, hslot]
    rfl
  have htentry : tableEntry pg virt_addr = videoPage p + 7 := by
    rw [tableEntry, hentry, hzero, ← htable]
    rfl
  have hoffset : virt_addr &&& LAST_12_BITS = virt_addr - VIDMAP_VIRT_ADDR := by
    have haddr : VIDMAP_VIRT_ADDR.toNat = 0x8800000 := rfl
    obtain ⟨hlo, hhi⟩ := hin
    apply UInt32.toNat_inj.mp
    rw [small_offset_toNat, UInt32.toNat_sub_of_le _ _ (UInt32.le_iff_toNat_le.mpr hlo)]
    omega
  rw [resolve_virt_addr_eq, hentry, htentry, if_neg (by decide), if_neg (by decide), if_neg hpresent, hpage, hoffset]

end Resolve

/-- Of the addresses that a user program can reach, and of all others: the former are
    in the page of a slot and in a video page, the latter are as `paging_init` left
    them. -/
structure SpaceConfined (base pg : Paging) : Prop where
  user : ∀ virt_addr, userAccess pg virt_addr →
    (InProgram virt_addr ∧ ∃ n < 6, resolve_virt_addr pg virt_addr = programPage n + (virt_addr - PROGRAM_VIRT)) ∨
    (InVidmap virt_addr ∧ ∃ p ≤ 3, resolve_virt_addr pg virt_addr = videoPage p + (virt_addr - VIDMAP_VIRT_ADDR))
  others : ∀ virt_addr, ¬ InProgram virt_addr → ¬ InVidmap virt_addr →
    resolve_virt_addr pg virt_addr = resolve_virt_addr base virt_addr

/-- The address of a table entry, which does not wrap around for a table in the lower half of
    memory. -/
theorem table_slot_toNat (virt_addr : UInt32) (table : UInt32) (htable : table.toNat < 2 ^ 31) :
    (table + 4 * ((virt_addr &&& MIDDLE_10_BITS) >>> SHIFT_FOR_TABLEENTRY)).toNat =
      table.toNat + 4 * (virt_addr.toNat / 2 ^ 12 % 2 ^ 10) := by
  rw [UInt32.toNat_add, UInt32.toNat_mul, table_index_toNat]
  have hfour : (4 : UInt32).toNat = 4 := rfl
  rw [hfour]
  omega

/-- The entries after the first in the table of the page at `VIDMAP_VIRT_ADDR`. -/
theorem initTables_cleared (page_tables : UInt32 → UInt32) (virt_addr : UInt32) {entry : UInt32}
    (hne : virt_addr.toNat / 2 ^ 12 % 2 ^ 10 ≠ 0) :
    Function.update (initTables page_tables) 0xC022000 entry
      (0xC022000 + 4 * ((virt_addr &&& MIDDLE_10_BITS) >>> SHIFT_FOR_TABLEENTRY)) = 0 := by
  have htable : (0xC022000 : UInt32).toNat = 0xC022000 := rfl
  have htoNat := table_slot_toNat virt_addr 0xC022000 (by decide)
  generalize (0xC022000 + 4 * ((virt_addr &&& MIDDLE_10_BITS) >>> SHIFT_FOR_TABLEENTRY) : UInt32) = slot at htoNat
  have hslot : slot ≠ 0xC022000 := by
    rintro rfl
    omega
  have hin : (slot - 0xC022000).toNat < 4096 := by
    rw [UInt32.toNat_sub_of_le _ _ (UInt32.le_iff_toNat_le.mpr (by omega))]
    omega
  rw [initTables, Function.update_idem, Function.update_of_ne hslot, clearTable, if_pos hin]

section Space

variable {page_tables : UInt32 → UInt32} {pg : Paging} (hpg : Confined page_tables pg)
include hpg

/-- Outside the program's page the directory is that of `paging_init`. -/
theorem Confined.dirEntry_eq {virt_addr : UInt32} (hout : ¬ InProgram virt_addr) :
    dirEntry pg virt_addr = initDirectory ((virt_addr &&& TOP_10_BITS) >>> SHIFT_FOR_DIRENTRY) := by
  rw [dirEntry]
  obtain hdir | ⟨n, -, hdir⟩ := hpg.directory
  · rw [hdir]
  · rw [hdir, Function.update_of_ne]
    intro hindex
    exact hout (inProgram_iff.mpr ((dir_index_eq_iff virt_addr).mp hindex))

/-- The table of the video page stays the one that `paging_init` gave it. -/
theorem Confined.vidmap_directory : pg.page_directory 34 = 0xC022007 := by
  obtain hdir | ⟨n, -, hdir⟩ := hpg.directory
  · rw [hdir]
    rfl
  · rw [hdir, Function.update_of_ne (by decide)]
    rfl

omit hpg in
/-- The directory entries of `paging_init`. -/
theorem initDirectory_cases (index : UInt32) :
    index = 34 ∨ initDirectory index &&& US_BIT = 0 ∧ (initDirectory index &&& PRESENT_BIT = 0 ∨
      initDirectory index &&& PAGE_SIZE_BIT ≠ 0 ∨ initDirectory index = 0xC000003) := by
  by_cases h34 : index = 34
  · exact .inl h34
  · right
    by_cases h48 : index = 48
    · rw [h48]
      decide
    · by_cases h0 : index = 0
      · rw [h0]
        decide
      · by_cases h1 : index = 1
        · rw [h1]
          decide
        · have hzero : initDirectory index = 0 := by simp [initDirectory, h34, h48, h0, h1]
          rw [hzero]
          decide

/-- No other table shares the entry of the page at `VIDMAP_VIRT_ADDR`. -/
theorem Confined.tables_eq {base : Paging} (hbase : Confined page_tables base) {a : UInt32} (ha : a ≠ 0xC022000) :
    pg.page_tables a = base.page_tables a := by
  obtain ⟨p, -, htables⟩ := hpg.tables
  obtain ⟨q, -, hbase⟩ := hbase.tables
  rw [htables, hbase, Function.update_of_ne ha, Function.update_of_ne ha]

/-- Every address outside of the two pages of a program leads where it always does. -/
theorem Confined.others {virt_addr : UInt32} (hprogram : ¬ InProgram virt_addr) (hvidmap : ¬ InVidmap virt_addr)
    {base : Paging} (hbase : Confined page_tables base) :
    resolve_virt_addr pg virt_addr = resolve_virt_addr base virt_addr := by
  have hdir : dirEntry pg virt_addr = dirEntry base virt_addr := by
    rw [hpg.dirEntry_eq hprogram, hbase.dirEntry_eq hprogram]
  have hinit := hbase.dirEntry_eq hprogram
  -- Where the address is in a small page, its table entry is not the one that changes.
  have hsame {table : UInt32} (hentry : dirEntry base virt_addr &&& ALL_BUT_LAST_12_BITS = table)
      (htable : table.toNat < 2 ^ 31)
      (hne : table.toNat + 4 * (virt_addr.toNat / 2 ^ 12 % 2 ^ 10) ≠ 0xC022000) :
      tableEntry pg virt_addr = tableEntry base virt_addr := by
    rw [tableEntry, tableEntry, hdir, hentry]
    refine hpg.tables_eq hbase fun heq => hne ?_
    rw [← table_slot_toNat virt_addr table htable, heq]
    rfl
  rw [resolve_virt_addr_eq, resolve_virt_addr_eq, hdir]
  obtain hindex | ⟨-, habsent | hlarge | hvideo⟩ :=
    initDirectory_cases ((virt_addr &&& TOP_10_BITS) >>> SHIFT_FOR_DIRENTRY)
  · have hslot : virt_addr.toNat / 2 ^ 12 % 2 ^ 10 ≠ 0 := fun hzero =>
      hvidmap (inVidmap_iff.mpr ⟨(dir_index_eq_iff virt_addr).mp hindex, hzero⟩)
    have hentry : dirEntry base virt_addr &&& ALL_BUT_LAST_12_BITS = 0xC022000 := by
      rw [hinit, hindex]
      decide
    have htable : (0xC022000 : UInt32).toNat = 0xC022000 := rfl
    rw [hsame hentry (by decide) (by omega)]
  · rw [hinit, if_pos habsent, if_pos habsent]
  · rw [hinit]
    by_cases habsent : initDirectory ((virt_addr &&& TOP_10_BITS) >>> SHIFT_FOR_DIRENTRY) &&& PRESENT_BIT = 0
    · rw [if_pos habsent, if_pos habsent]
    · rw [if_neg habsent, if_pos hlarge, if_neg habsent, if_pos hlarge]
  · have hentry : dirEntry base virt_addr &&& ALL_BUT_LAST_12_BITS = 0xC000000 := by
      rw [hinit, hvideo]
      decide
    have htable : (0xC000000 : UInt32).toNat = 0xC000000 := rfl
    rw [hsame hentry (by decide) (by omega)]

/-- What a program can reach is in one of its two pages, and leads to a program's page or a video
    page. -/
theorem Confined.user {virt_addr : UInt32} (haccess : userAccess pg virt_addr) :
    (InProgram virt_addr ∧ ∃ n < 6, resolve_virt_addr pg virt_addr = programPage n + (virt_addr - PROGRAM_VIRT)) ∨
    (InVidmap virt_addr ∧
      ∃ p ≤ 3, resolve_virt_addr pg virt_addr = videoPage p + (virt_addr - VIDMAP_VIRT_ADDR)) := by
  obtain ⟨hpresent, huser, hsmall⟩ := haccess
  by_cases hin : InProgram virt_addr
  · left
    refine ⟨hin, ?_⟩
    obtain hdir | ⟨n, hn, hdir⟩ := hpg.directory
    · rw [dirEntry_of_index 32 (inProgram_iff.mp hin), hdir] at hpresent
      exact absurd (by decide) hpresent
    · refine ⟨n, hn, resolve_program hn ?_ hin⟩
      rw [hdir, Function.update_self]
  · right
    obtain hindex | ⟨hsuper, -⟩ := initDirectory_cases ((virt_addr &&& TOP_10_BITS) >>> SHIFT_FOR_DIRENTRY)
    · have hentry : dirEntry pg virt_addr = 0xC022007 := by
        rw [hpg.dirEntry_eq hin, hindex]
        rfl
      obtain ⟨p, hp, htables⟩ := hpg.tables
      -- The rest of the table has been cleared.
      have hslot : virt_addr.toNat / 2 ^ 12 % 2 ^ 10 = 0 := by
        by_contra hne
        have hzero : tableEntry pg virt_addr = 0 := by
          have hmask : (0xC022007 : UInt32) &&& ALL_BUT_LAST_12_BITS = 0xC022000 := by decide
          rw [tableEntry, hentry, hmask, htables]
          exact initTables_cleared page_tables virt_addr hne
        rw [hentry, hzero] at hsmall
        exact absurd hsmall (by decide)
      have hvidmap := inVidmap_iff.mpr ⟨(dir_index_eq_iff virt_addr).mp hindex, hslot⟩
      refine ⟨hvidmap, p, hp, resolve_vidmap hp hpg.vidmap_directory ?_ hvidmap⟩
      rw [htables, Function.update_self]
    · rw [hpg.dirEntry_eq hin] at huser
      exact absurd hsuper huser

end Space

end lacos.paging
