import LacOS.State

open memory

namespace lacos.paging

abbrev SIZEOFDIR : UInt32 := FOUR_KB
abbrev KERNEL_ADDR : UInt32 := 0x400000
abbrev PAGE_TABLE_STARTADDR : UInt32 := 0xC000000
abbrev VIDMAP_VIRT_ADDR : UInt32 := 0x8800000

abbrev TOP_10_BITS : UInt32 := 0xFFC00000
abbrev MIDDLE_10_BITS : UInt32 := 0x003FF000
abbrev LAST_12_BITS : UInt32 := 0x00000FFF
abbrev LAST_10_BITS : UInt32 := 0x03FF
abbrev LAST_22_BITS : UInt32 := 0x003FFFFF
abbrev ALL_BUT_LAST_12_BITS : UInt32 := 0xFFFFF000

abbrev PRESENT_BIT : UInt32 := 0x1
abbrev RW_BIT : UInt32 := 0x2
abbrev US_BIT : UInt32 := 0x4
abbrev PAGE_SIZE_BIT : UInt32 := 0x80

abbrev SHIFT_FOR_DIRENTRY : UInt32 := 22
abbrev SHIFT_FOR_TABLEENTRY : UInt32 := 12

/-- The physical address behind a virtual one, or NULL. -/
def resolve_virt_addr (pg : Paging) (virt_addr : UInt32) : UInt32 :=
  let dir_index := (virt_addr &&& TOP_10_BITS) >>> SHIFT_FOR_DIRENTRY
  let dir_addr := pg.page_directory dir_index
  if dir_addr &&& PRESENT_BIT = 0 then NULL
  else if dir_addr &&& PAGE_SIZE_BIT ≠ 0 then
    (dir_addr &&& TOP_10_BITS) + (virt_addr &&& LAST_22_BITS)
  else
    let table_index := (virt_addr &&& MIDDLE_10_BITS) >>> SHIFT_FOR_TABLEENTRY
    let table_addr := pg.page_tables ((dir_addr &&& ALL_BUT_LAST_12_BITS) + 4 * table_index)
    if table_addr &&& PRESENT_BIT = 0 then NULL
    else (table_addr &&& ALL_BUT_LAST_12_BITS) + (virt_addr &&& LAST_12_BITS)

/-- The bits that `map_page` adds to an entry: user/superuser, read/write, present. -/
def rights (privileges write : Bool) : UInt32 :=
  (if privileges then US_BIT else 0) + (if write then RW_BIT else 0) + PRESENT_BIT

/-- The entry of a page table for a small page. -/
def setTableEntry (pg : Paging) (page_table_addr phys_addr virtual_addr : UInt32) (privileges write : Bool) :
    Paging :=
  let page_table_index := (virtual_addr >>> SHIFT_FOR_TABLEENTRY) &&& LAST_10_BITS
  let page_table_entry := (phys_addr &&& ALL_BUT_LAST_12_BITS) + rights privileges write
  { pg with page_tables := Function.update pg.page_tables (page_table_addr + 4 * page_table_index) page_table_entry }

def map_page (pg : Paging) (phys_addr virtual_addr : UInt32) (page_size privileges write remap : Bool) : Int × Paging :=
  if phys_addr = NULL ∨ virtual_addr = NULL then (-1, pg)
  else
    let page_dir_index := virtual_addr >>> SHIFT_FOR_DIRENTRY
    let page_dir_entry := pg.page_directory page_dir_index
    if page_dir_entry &&& PRESENT_BIT = 0 ∨ remap then
      if page_size then
        let page_dir_entry := (phys_addr &&& ALL_BUT_LAST_12_BITS) + PAGE_SIZE_BIT + rights privileges write
        (0, { pg with page_directory := Function.update pg.page_directory page_dir_index page_dir_entry })
      else
        let page_table_addr := PAGE_TABLE_STARTADDR + SIZEOFDIR * page_dir_index
        -- All entries of the table are cleared, also those of a table in use.
        let pg := { pg with
          page_tables := fun a => if (a - page_table_addr).toNat < 4096 then 0 else pg.page_tables a
          page_directory := Function.update pg.page_directory page_dir_index
            (page_table_addr + rights privileges write) }
        (0, setTableEntry pg page_table_addr phys_addr virtual_addr privileges write)
    else if page_size ∨ page_dir_entry &&& PAGE_SIZE_BIT ≠ 0 then (-1, pg)
    else
      let page_table_addr := page_dir_entry &&& ALL_BUT_LAST_12_BITS
      let page_table_index := (virtual_addr >>> SHIFT_FOR_TABLEENTRY) &&& LAST_10_BITS
      if pg.page_tables (page_table_addr + 4 * page_table_index) &&& PRESENT_BIT ≠ 0 then (-1, pg)
      else (0, setTableEntry pg page_table_addr phys_addr virtual_addr privileges write)

/-- The video pages of `paging_init`'s loop: the screen and the three backing pages. -/
def mapVideo (pg : Paging) : Paging :=
  (List.range (MAX_TERM_NUM + 1)).foldl (fun pg index =>
    let page := VIDEO_ADDR + UInt32.ofNat index * FOUR_KB
    (map_page pg page page false false true false).2) pg

def paging_init (pg : Paging) : Paging :=
  let pg := { pg with page_directory := fun _ => 0 }
  let pg := (map_page pg KERNEL_ADDR KERNEL_ADDR true false true false).2
  let pg := mapVideo pg
  let pg := (map_page pg VIDEO_ADDR VIDMAP_VIRT_ADDR false true true false).2
  (map_page pg PAGE_TABLE_STARTADDR PAGE_TABLE_STARTADDR true false true false).2

end lacos.paging
