import Mathlib.Tactic.IntervalCases
import LacOS.Paging

open memory

namespace lacos.paging

/-- The page tables with one of them cleared. -/
def clearTable (page_tables : UInt32 → UInt32) (table : UInt32) (a : UInt32) : UInt32 :=
  if (a - table).toNat < 4096 then 0 else page_tables a

section MapPage

variable {page_directory page_tables : UInt32 → UInt32} {pages : UInt32 → Mem} {phys_addr virtual_addr : UInt32}
  {privileges write remap : Bool} {index table slot dirEntry tableEntry : UInt32} (hphys : phys_addr ≠ NULL)
  (hvirtual : virtual_addr ≠ NULL) (hindex : virtual_addr >>> SHIFT_FOR_DIRENTRY = index)
include hphys hvirtual hindex

/-- Mapping a large page sets its directory entry. -/
theorem map_page_large
    (hentry : (phys_addr &&& ALL_BUT_LAST_12_BITS) + PAGE_SIZE_BIT + rights privileges write = dirEntry)
    (hnew : page_directory index &&& PRESENT_BIT = 0 ∨ remap = true) :
    (map_page ⟨page_directory, page_tables, pages⟩ phys_addr virtual_addr true privileges write remap).2 =
      ⟨Function.update page_directory index dirEntry, page_tables, pages⟩ := by
  have hnull : ¬ (phys_addr = NULL ∨ virtual_addr = NULL) := fun h => h.elim hphys hvirtual
  rw [map_page, if_neg hnull]
  simp only [hindex, hentry]
  rw [if_pos hnew, if_pos trivial]

variable (hslot : table + 4 * ((virtual_addr >>> SHIFT_FOR_TABLEENTRY) &&& LAST_10_BITS) = slot)
  (hentry : (phys_addr &&& ALL_BUT_LAST_12_BITS) + rights privileges write = tableEntry)
include hslot hentry

/-- Mapping a small page into a new table clears the table. -/
theorem map_page_new_table (htable : PAGE_TABLE_STARTADDR + SIZEOFDIR * index = table)
    (hdir : table + rights privileges write = dirEntry)
    (hnew : page_directory index &&& PRESENT_BIT = 0 ∨ remap = true) :
    (map_page ⟨page_directory, page_tables, pages⟩ phys_addr virtual_addr false privileges write remap).2 =
      ⟨Function.update page_directory index dirEntry,
        Function.update (clearTable page_tables table) slot tableEntry, pages⟩ := by
  have hnull : ¬ (phys_addr = NULL ∨ virtual_addr = NULL) := fun h => h.elim hphys hvirtual
  rw [map_page, if_neg hnull]
  simp only [hindex]
  rw [if_pos hnew, if_neg (by decide)]
  simp only [setTableEntry, htable, hslot, hentry, hdir]
  rfl

/-- Mapping a small page into a table that exists. -/
theorem map_page_old_table (hpresent : page_directory index &&& PRESENT_BIT ≠ 0)
    (hsmall : page_directory index &&& PAGE_SIZE_BIT = 0)
    (htable : page_directory index &&& ALL_BUT_LAST_12_BITS = table)
    (hfree : page_tables slot &&& PRESENT_BIT = 0) :
    (map_page ⟨page_directory, page_tables, pages⟩ phys_addr virtual_addr false privileges write false).2 =
      ⟨page_directory, Function.update page_tables slot tableEntry, pages⟩ := by
  have hnull : ¬ (phys_addr = NULL ∨ virtual_addr = NULL) := fun h => h.elim hphys hvirtual
  have hold : ¬ (page_directory index &&& PRESENT_BIT = 0 ∨ (false : Bool) = true) := by simp [hpresent]
  have hlarge : ¬ ((false : Bool) = true ∨ page_directory index &&& PAGE_SIZE_BIT ≠ 0) := by simp [hsmall]
  rw [map_page, if_neg hnull]
  simp only [hindex]
  rw [if_neg hold, if_neg hlarge]
  simp only [htable, hslot]
  rw [if_neg (not_not.mpr hfree)]
  simp only [setTableEntry, hslot, hentry]

end MapPage

/-- The directory that `paging_init` leaves: the kernel, the video pages, the page at
    `VIDMAP_VIRT_ADDR` and the page tables. -/
def initDirectory : UInt32 → UInt32 :=
  Function.update (Function.update (Function.update (Function.update (fun _ => 0) 1 0x400083) 0 0xC000003)
    34 0xC022007) 48 0xC000083

/-- The first entries of the table of the video pages. -/
def videoTable (page_tables : UInt32 → UInt32) (n : Nat) : UInt32 → UInt32 :=
  match n with
  | 0 => clearTable page_tables 0xC000000
  | n + 1 => Function.update (videoTable page_tables n) (0xC0002E0 + 4 * UInt32.ofNat n)
      (VIDEO_ADDR + UInt32.ofNat n * FOUR_KB + 3)

/-- The tables that `paging_init` leaves, from what memory held before. -/
def initTables (page_tables : UInt32 → UInt32) : UInt32 → UInt32 :=
  Function.update (clearTable (videoTable page_tables 4) 0xC022000) 0xC022000 0xB8007

/-- A video page into the table that the first one has made. -/
theorem mapVideo_page (page_tables : UInt32 → UInt32) (pages : UInt32 → Mem) {n : Nat} (hn : 0 < n) (hlast : n < 4)
    (hfree : videoTable page_tables n (0xC0002E0 + 4 * UInt32.ofNat n) = 0) {directory : UInt32 → UInt32}
    (hdir : directory 0 = 0xC000003) :
    (map_page ⟨directory, videoTable page_tables n, pages⟩ (VIDEO_ADDR + UInt32.ofNat n * FOUR_KB)
      (VIDEO_ADDR + UInt32.ofNat n * FOUR_KB) false false true false).2 =
      ⟨directory, videoTable page_tables (n + 1), pages⟩ := by
  have hpage : VIDEO_ADDR + UInt32.ofNat n * FOUR_KB ≠ NULL ∧
      (VIDEO_ADDR + UInt32.ofNat n * FOUR_KB) >>> SHIFT_FOR_DIRENTRY = 0 ∧
      0xC000000 + 4 * (((VIDEO_ADDR + UInt32.ofNat n * FOUR_KB) >>> SHIFT_FOR_TABLEENTRY) &&& LAST_10_BITS) =
        0xC0002E0 + 4 * UInt32.ofNat n ∧
      ((VIDEO_ADDR + UInt32.ofNat n * FOUR_KB) &&& ALL_BUT_LAST_12_BITS) + rights false true =
        VIDEO_ADDR + UInt32.ofNat n * FOUR_KB + 3 := by
    clear hfree
    interval_cases n <;> decide
  refine map_page_old_table hpage.1 hpage.1 hpage.2.1 hpage.2.2.1 hpage.2.2.2 ?_ ?_ ?_ ?_
  · rw [hdir]
    decide
  · rw [hdir]
    decide
  · rw [hdir]
    decide
  · rw [hfree]
    decide

/-- The entry for the next video page is free. -/
theorem videoTable_free (page_tables : UInt32 → UInt32) {n m : Nat} (hnm : n ≤ m) (hlast : m < 4) :
    videoTable page_tables n (0xC0002E0 + 4 * UInt32.ofNat m) = 0 := by
  induction n with
  | zero =>
    rw [videoTable, clearTable, if_pos]
    interval_cases m <;> decide
  | succ n ih =>
    have hne : (0xC0002E0 + 4 * UInt32.ofNat m : UInt32) ≠ 0xC0002E0 + 4 * UInt32.ofNat n := by
      intro heq
      have htoNat := congrArg UInt32.toNat heq
      simp only [UInt32.toNat_add, UInt32.toNat_mul, UInt32.toNat_ofNat'] at htoNat
      simp at htoNat
      omega
    rw [videoTable, Function.update_of_ne hne]
    exact ih (by omega)

/-- The loop over the video pages makes one table, with an entry for each of them. -/
theorem mapVideo_eq (page_tables : UInt32 → UInt32) (pages : UInt32 → Mem) {directory : UInt32 → UInt32}
    (hdir : directory 0 = 0) : mapVideo ⟨directory, page_tables, pages⟩ =
      ⟨Function.update directory 0 0xC000003, videoTable page_tables 4, pages⟩ := by
  have hfirst : (map_page ⟨directory, page_tables, pages⟩ (VIDEO_ADDR + UInt32.ofNat 0 * FOUR_KB)
      (VIDEO_ADDR + UInt32.ofNat 0 * FOUR_KB) false false true false).2 =
      ⟨Function.update directory 0 0xC000003, videoTable page_tables 1, pages⟩ := by
    refine map_page_new_table (by decide) (by decide) (by decide) (by decide) (by decide) (by decide) (by decide)
      (.inl ?_)
    rw [hdir]
    decide
  have hnext (n : Nat) (hn : 0 < n) (hlast : n < 4) :
      (map_page ⟨Function.update directory 0 0xC000003, videoTable page_tables n, pages⟩
        (VIDEO_ADDR + UInt32.ofNat n * FOUR_KB) (VIDEO_ADDR + UInt32.ofNat n * FOUR_KB) false false true false).2 =
        ⟨Function.update directory 0 0xC000003, videoTable page_tables (n + 1), pages⟩ :=
    mapVideo_page page_tables pages hn hlast (videoTable_free page_tables (Nat.le_refl n) hlast)
      (Function.update_self ..)
  have hrange : List.range (MAX_TERM_NUM + 1) = [0, 1, 2, 3] := rfl
  simp only [mapVideo, hrange, List.foldl_cons, List.foldl_nil]
  rw [hfirst, hnext 1 (by decide) (by decide), hnext 2 (by decide) (by decide), hnext 3 (by decide) (by decide)]

/-- What `paging_init` leaves, entry by entry. Only the memory of the tables that it does not
    write is as before. -/
theorem paging_init_eq (pg : Paging) : paging_init pg = ⟨initDirectory, initTables pg.page_tables, pg.pages⟩ := by
  obtain ⟨page_directory, page_tables, pages⟩ := pg
  have hkernel : (map_page ⟨fun _ => 0, page_tables, pages⟩ KERNEL_ADDR KERNEL_ADDR true false true false).2 =
      ⟨Function.update (fun _ => 0) 1 0x400083, page_tables, pages⟩ := by
    refine map_page_large ?_ ?_ ?_ ?_ (.inl ?_) <;> decide
  have hvideo : mapVideo ⟨Function.update (fun _ => 0) 1 0x400083, page_tables, pages⟩ =
      ⟨Function.update (Function.update (fun _ => 0) 1 0x400083) 0 0xC000003, videoTable page_tables 4, pages⟩ :=
    mapVideo_eq page_tables pages (by decide)
  have hvidmap : (map_page ⟨Function.update (Function.update (fun _ => 0) 1 0x400083) 0 0xC000003,
      videoTable page_tables 4, pages⟩ VIDEO_ADDR VIDMAP_VIRT_ADDR false true true false).2 =
      ⟨Function.update (Function.update (Function.update (fun _ => 0) 1 0x400083) 0 0xC000003) 34 0xC022007,
        initTables page_tables, pages⟩ := by
    refine map_page_new_table ?_ ?_ ?_ ?_ ?_ ?_ ?_ (.inl ?_) <;> decide
  have htables : (map_page ⟨Function.update (Function.update (Function.update (fun _ => 0) 1 0x400083) 0 0xC000003)
      34 0xC022007, initTables page_tables, pages⟩ PAGE_TABLE_STARTADDR PAGE_TABLE_STARTADDR true false true false).2 =
      ⟨initDirectory, initTables page_tables, pages⟩ := by
    refine map_page_large ?_ ?_ ?_ ?_ (.inl ?_) <;> decide
  rw [paging_init]
  simp only [hkernel, hvideo, hvidmap, htables]

end lacos.paging
