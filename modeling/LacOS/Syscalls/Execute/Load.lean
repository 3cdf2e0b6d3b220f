import LacOS.Paging.Translate
import LacOS.Syscalls.Execute.Exact

open memory lacos.lib lacos.file_system lacos.paging lacos.pcb lacos.terminal

namespace lacos.syscalls

section Paging

variable {fs : Image} {k k' : Kernel} {locals : Locals} {inode new_pcb : UInt32} {outcome : Outcome}

/-- Opening a standard file touches neither the paging nor the keyboard. -/
theorem open_standard_frame {blk : UInt32} {m : Mem} {filename : UInt32} {fd : Int} (hname : StandardName m filename)
    (hopen : open_file_desc fs k blk m filename = some (fd, k')) :
    k'.toPaging = k.toPaging ∧ k'.toKeyboard = k.toKeyboard := by
  have hcond : ¬ (strncmp m filename stdinstr 0 5 ≠ 0 ∧ strncmp m filename stdoutstr 0 6 ≠ 0) := by
    rw [ne_eq, ne_eq, isstdin_iff, isstdout_iff]
    exact not_and_or.mpr (hname.imp not_not.mpr not_not.mpr)
  simp only [open_file_desc, if_neg hcond] at hopen
  split at hopen
  · cases hopen
    exact ⟨rfl, rfl⟩
  split at hopen
  · cases hopen
    exact ⟨rfl, rfl⟩
  · cases hopen
    exact ⟨rfl, rfl⟩

theorem terminal_open_frame (hopen : terminal_open fs k = some k') :
    k'.toPaging = k.toPaging ∧ k'.toKeyboard = k.toKeyboard := by
  obtain ⟨⟨fd, k₁⟩, hstdin, hrest⟩ := Option.bind_eq_some_iff.mp hopen
  obtain ⟨⟨fd', k₂⟩, hstdout, rfl⟩ := Option.map_eq_some_iff.mp hrest
  obtain ⟨hpaging, hkeyboard⟩ := open_standard_frame (by decide) hstdin
  obtain ⟨hpaging', hkeyboard'⟩ := open_standard_frame (by decide) hstdout
  exact ⟨hpaging'.trans hpaging, hkeyboard'.trans hkeyboard⟩

/-- What `loadProgram` does to the paging depends on the paging alone. -/
theorem loadProgram_congr (hpaging : k'.toPaging = k.toPaging) :
    (loadProgram fs k' inode).toPaging = (loadProgram fs k inode).toPaging := by
  rw [loadProgram, loadProgram, hpaging]

theorem enterProcess_toPaging (k : Kernel) (new_pcb : UInt32) : (enterProcess k new_pcb).toPaging = k.toPaging := rfl

/-- After the page is mapped, the paging is only changed by loading the program. -/
theorem runChild_paging (hrun : runChild fs k locals inode new_pcb = some (outcome, k')) :
    k'.toPaging = (loadProgram fs k inode).toPaging := by
  obtain ⟨k₁, hopen, hrest⟩ := Option.map_eq_some_iff.mp hrun
  obtain ⟨-, rfl⟩ := Prod.mk.inj hrest
  have hpaging := (terminal_open_frame hopen).1
  rw [enterProcess_toPaging]
  exact loadProgram_congr hpaging

theorem linkProcess_paging {page_addr : UInt32}
    (hlink : linkProcess fs k locals inode new_pcb page_addr = some (outcome, k')) :
    k'.toPaging = (loadProgram fs k inode).toPaging := by
  obtain ⟨linked, hlinked, hrun⟩ := Option.bind_eq_some_iff.mp hlink
  have hpaging : linked.toPaging = k.toPaging := by
    split at hlinked
    · cases hlinked
      rfl
    · rw [linkChild] at hlinked
      split at hlinked
      · cases hlinked
      · cases hlinked
        rfl
  rw [runChild_paging hrun, loadProgram_congr hpaging]

theorem map_page_pages (pg : Paging) (phys_addr virtual_addr : UInt32) (page_size privileges write remap : Bool) :
    (map_page pg phys_addr virtual_addr page_size privileges write remap).2.pages = pg.pages := by
  rw [map_page]
  split
  · rfl
  · simp only [setTableEntry]
    split
    · split <;> rfl
    · split
      · rfl
      · split <;> rfl

theorem mapProgram_pages (k : Kernel) (page_addr : UInt32) : (mapProgram k page_addr).pages = k.pages := by
  rw [mapProgram_toPaging, map_page_pages]

/-- Before the program is loaded, pages are mapped but not written. -/
theorem startProcess_paging (hstart : startProcess fs k locals inode new_pcb = some (outcome, k')) :
    ∃ mapped : Kernel, mapped.pages = k.pages ∧ k'.toPaging = (loadProgram fs mapped inode).toPaging :=
  ⟨mapProgram k (pageOfNum (k.pcbs new_pcb).pcb_num), mapProgram_pages ..,
    linkProcess_paging hstart⟩

/-- Once the page of the new process is mapped, loading its file is all that `sys_execute`
    does to the contents of the pages. -/
theorem sys_execute_paging {command : CString} {entry : UInt32} {dentry : dentry_t}
    (hdentry : cmd_dentry fs locals command = some dentry)
    (hexecute : sys_execute fs k command locals = some (.entered entry, k')) :
    ∃ mapped : Kernel, mapped.pages = k.pages ∧
      k'.toPaging = (loadProgram fs mapped dentry.inode_num).toPaging := by
  obtain ⟨created, hcreate, hcreated⟩ := createPcb_spec (cli k) locals command
  simp only [sys_execute, hdentry, hcreate] at hexecute
  split at hexecute
  · cases hexecute
  split at hexecute
  · cases hexecute
  split at hexecute
  · obtain ⟨mapped, hpages, hpaging⟩ := startProcess_paging hexecute
    refine ⟨mapped, ?_, hpaging⟩
    rw [hpages, hcreated.paging, cli_toPaging]
  · cases hexecute

/-- Starting a process does not touch the keyboard. -/
theorem linkProcess_toKeyboard {page_addr : UInt32}
    (hlink : linkProcess fs k locals inode new_pcb page_addr = some (outcome, k')) :
    k'.toKeyboard = k.toKeyboard := by
  obtain ⟨linked, hlinked, hrun⟩ := Option.bind_eq_some_iff.mp hlink
  obtain ⟨k₁, hopen, hrest⟩ := Option.map_eq_some_iff.mp hrun
  obtain ⟨-, rfl⟩ := Prod.mk.inj hrest
  have hkeyboard : linked.toKeyboard = k.toKeyboard := by
    split at hlinked
    · cases hlinked
      rfl
    · rw [linkChild] at hlinked
      split at hlinked
      · cases hlinked
      · cases hlinked
        rfl
  exact (terminal_open_frame hopen).2.trans hkeyboard

theorem mapProgram_toKeyboard (k : Kernel) (page_addr : UInt32) :
    (mapProgram k page_addr).toKeyboard = k.toKeyboard := rfl

theorem createPcb_toKeyboard (k : Kernel) (locals : Locals) (command : CString) :
    (createPcb k locals command).2.toKeyboard = k.toKeyboard := rfl

/-- `sys_execute` does not touch the keyboard. -/
theorem sys_execute_toKeyboard {command : CString} (hexecute : sys_execute fs k command locals = some (outcome, k')) :
    k'.toKeyboard = k.toKeyboard := by
  obtain ⟨⟨new_pcb, created⟩, hcreate⟩ : ∃ result, createPcb (cli k) locals command = result := ⟨_, rfl⟩
  have hcreated : created.toKeyboard = k.toKeyboard := by
    have hkeyboard := createPcb_toKeyboard (cli k) locals command
    rw [hcreate] at hkeyboard
    exact hkeyboard
  simp only [sys_execute, hcreate] at hexecute
  split at hexecute
  · cases hexecute
    rfl
  cases hdentry : cmd_dentry fs locals command with
  | none =>
    rw [hdentry] at hexecute
    cases hexecute
    rfl
  | some dentry =>
    simp only [hdentry] at hexecute
    split at hexecute
    · cases hexecute
    split at hexecute
    · rw [startProcess] at hexecute
      rw [linkProcess_toKeyboard hexecute, mapProgram_toKeyboard, hcreated]
    · cases hexecute
      exact hcreated

end Paging

/-- A file in its whole length, read from its start. -/
theorem read_data_whole {fs : Image} {inode : UInt32} (hfile : fs.WellFormed inode) (m : Mem) (buf : UInt32) :
    (read_data fs inode 0 m buf (fs.file_length inode)).2 =
      fillWith m buf (fs.fileByte inode) (fs.file_length inode).toNat := by
  have hlength := hfile.length
  have hlt := (fs.file_length inode).toNat_lt
  by_cases hempty : fs.file_length inode = 0
  · rw [hempty, read_data_at_end 0 buf m hfile.valid (by rw [hempty]; exact UInt32.le_refl 0)]
    exact (fillWith_zero m buf _).symm
  · have hpos : (0 : UInt32) < fs.file_length inode := UInt32.pos_iff_ne_zero.mpr hempty
    have hposNat : 0 < (fs.file_length inode).toNat := UInt32.lt_iff_toNat_lt.mp hpos
    have htotal : readTotal fs inode 0 (fs.file_length inode) = (fs.file_length inode).toNat := by
      rw [readTotal]
      simp
    obtain ⟨count, hgreatest, hread⟩ := read_data_success fs inode 0 (fs.file_length inode) buf m
      (by simpa using hlt) (by rw [htotal]; simpa using hlength) hfile.valid hpos (hfile.blocks 0 hposNat)
    rw [htotal] at hgreatest
    have hcount : count = (fs.file_length inode).toNat := by
      refine Nat.le_antisymm hgreatest.1.1 (hgreatest.2 ⟨Nat.le_refl _, fun j hj => ?_⟩)
      simpa using hfile.blocks j hj
    rw [hread, hcount]
    simp

/-- The process has its file in its page: only addresses of the page have been written to,
    and every byte is where the loader should put it. -/
structure Loaded (fs : Image) (inode : UInt32) (k k' : Kernel) : Prop where
  inside : ∀ page virt_addr, ¬ InProgram virt_addr → k'.pages page virt_addr = k.pages page virt_addr
  bytes : ∀ j < (fs.file_length inode).toNat,
    k'.pages (resolve_virt_addr k'.toPaging PROGRAM_VIRT) (PROGRAM_VIRT + PROGRAM_VIRT_OFF + UInt32.ofNat j) =
      fs.fileByte inode j

/-- A file that fits into the page behind `PROGRAM_VIRT_OFF`. -/
def Fits (fs : Image) (inode : UInt32) : Prop :=
  (fs.file_length inode).toNat ≤ FOUR_MB.toNat - PROGRAM_VIRT_OFF.toNat

section Load

variable {fs : Image} {inode : UInt32} (hfile : fs.WellFormed inode)
include hfile

/-- Loading writes the file to one page, the one that `PROGRAM_VIRT` leads to. -/
theorem loadProgram_pages (k : Kernel) :
    (loadProgram fs k inode).pages = Function.update k.pages (resolve_virt_addr k.toPaging PROGRAM_VIRT)
      (fillWith (k.pages (resolve_virt_addr k.toPaging PROGRAM_VIRT)) (PROGRAM_VIRT + PROGRAM_VIRT_OFF)
        (fs.fileByte inode) (fs.file_length inode).toNat) := by
  have hword : fs.word ((inode + 1) * BLK_SIZE_UINTS) = fs.file_length inode := rfl
  simp only [loadProgram, hword, read_data_whole hfile]

/-- The address of a byte of the file. -/
theorem load_addr_toNat {j : Nat} (hj : j < (fs.file_length inode).toNat) :
    (PROGRAM_VIRT + PROGRAM_VIRT_OFF + UInt32.ofNat j).toNat = 0x8048000 + j := by
  have hlength := hfile.length
  have hbase : (PROGRAM_VIRT + PROGRAM_VIRT_OFF).toNat = 0x8048000 := by decide
  rw [UInt32.toNat_add, hbase, UInt32.toNat_ofNat']
  omega

/-- Every byte of the file is at its place in the page. -/
theorem loadProgram_bytes (k : Kernel) {j : Nat} (hj : j < (fs.file_length inode).toNat) :
    (loadProgram fs k inode).pages (resolve_virt_addr k.toPaging PROGRAM_VIRT)
      (PROGRAM_VIRT + PROGRAM_VIRT_OFF + UInt32.ofNat j) = fs.fileByte inode j := by
  have hlt := (fs.file_length inode).toNat_lt
  rw [loadProgram_pages hfile, Function.update_self]
  exact fillWith_inside _ _ _ hj (Nat.le_of_lt hlt)

/-- A file that fits is loaded within the page of the program. -/
theorem loadProgram_inside (hfits : Fits fs inode) (k : Kernel) (page : UInt32) {virt_addr : UInt32}
    (hout : ¬ InProgram virt_addr) : (loadProgram fs k inode).pages page virt_addr = k.pages page virt_addr := by
  have hlt := (fs.file_length inode).toNat_lt
  rw [loadProgram_pages hfile]
  by_cases hpage : page = resolve_virt_addr k.toPaging PROGRAM_VIRT
  · rw [hpage, Function.update_self]
    refine fillWith_outside _ (Nat.not_lt.mp fun hin => hout ?_)
    obtain ⟨j, hj, rfl⟩ := (offset_lt_iff _ _ _ (Nat.le_of_lt hlt)).mp hin
    have hend : FOUR_MB.toNat - PROGRAM_VIRT_OFF.toNat = 0x3B8000 := by decide
    rw [Fits, hend] at hfits
    rw [inProgram_iff, load_addr_toNat hfile hj]
    omega
  · rw [Function.update_of_ne hpage]

/-- The byte that leaves the page, if there is one. -/
theorem loadProgram_overruns (hlong : ¬ Fits fs inode) (k : Kernel)
    (hother : k.pages (resolve_virt_addr k.toPaging PROGRAM_VIRT) 0x8400000 ≠ fs.fileByte inode 0x3B8000) :
    (loadProgram fs k inode).pages (resolve_virt_addr k.toPaging PROGRAM_VIRT) 0x8400000 ≠
      k.pages (resolve_virt_addr k.toPaging PROGRAM_VIRT) 0x8400000 := by
  have hend : FOUR_MB.toNat - PROGRAM_VIRT_OFF.toNat = 0x3B8000 := by decide
  rw [Fits, hend] at hlong
  have haddr : PROGRAM_VIRT + PROGRAM_VIRT_OFF + UInt32.ofNat 0x3B8000 = 0x8400000 := by decide
  have hbyte := loadProgram_bytes hfile k (Nat.not_le.mp hlong)
  rw [haddr] at hbyte
  rw [hbyte]
  exact hother.symm

end Load

section Execute

variable {fs : Image} {command : CString} {locals : Locals} {dentry : dentry_t}
  (hdentry : cmd_dentry fs locals command = some dentry) (hfile : fs.WellFormed dentry.inode_num)
include hdentry hfile

/-- A well formed file that fits is loaded where it should be. The process may be started by any
    task, and in any slot. -/
theorem loaded_of_fits (hfits : Fits fs dentry.inode_num) {k k' : Kernel} {entry : UInt32}
    (hexecute : sys_execute fs k command locals = some (.entered entry, k')) : Loaded fs dentry.inode_num k k' := by
  obtain ⟨mapped, hpages, hpaging⟩ := sys_execute_paging hdentry hexecute
  constructor
  · intro page virt_addr hout
    rw [hpaging, loadProgram_inside hfile hfits mapped page hout, hpages]
  · intro j hj
    rw [hpaging]
    exact loadProgram_bytes hfile mapped hj

/-- Started from memory that differs from the file, a program that is too long shows
    behind its page. -/
theorem overruns_of_long (helf : isElf fs locals dentry.inode_num = true)
    (hshort : (commandArg command).length < BLOCK_END) (hlong : ¬ Fits fs dentry.inode_num) :
    ∃ k entry k', sys_execute fs k command locals = some (.entered entry, k') ∧
      ¬ Loaded fs dentry.inode_num k k' := by
  obtain ⟨k, hk⟩ : ∃ k : Kernel,
      k = { starting with pages := fun _ _ => fs.fileByte dentry.inode_num 0x3B8000 + 1 } := ⟨_, rfl⟩
  have hstatus : k.pcb_status = 0 := by rw [hk]; rfl
  have hroom : our_popcount k.pcb_status ≠ MAX_PROCESSES := by
    rw [hstatus]
    decide
  have hshell : k.starting_new_shell = true := by rw [hk]; rfl
  have hverdict := verdict_file hroom hdentry (fun hno => absurd hshell (by rw [hno]; decide)) hshort
  rw [if_pos helf, verdict_eq_some] at hverdict
  obtain ⟨k', hexecute⟩ := hverdict
  refine ⟨k, _, k', hexecute, fun hloaded => ?_⟩
  obtain ⟨mapped, hpages, hpaging⟩ := sys_execute_paging hdentry hexecute
  have hkept := hloaded.inside (resolve_virt_addr mapped.toPaging PROGRAM_VIRT) 0x8400000
    (by rw [inProgram_iff]; decide)
  rw [hpaging, ← hpages] at hkept
  refine loadProgram_overruns hfile hlong mapped ?_ hkept
  rw [hpages, hk]
  simp

end Execute

/-- The load of `sys_execute` stays in the page, with every byte of the file in its place, exactly
    when the file fits behind `PROGRAM_VIRT_OFF`. The kernel may be in any state in which the
    program is entered. -/
theorem program_loaded_iff (fs : Image) (command : CString) (locals : Locals) (dentry : dentry_t)
    (hdentry : cmd_dentry fs locals command = some dentry) (hfile : fs.WellFormed dentry.inode_num)
    (helf : isElf fs locals dentry.inode_num = true) (hshort : (commandArg command).length < BLOCK_END) :
    (∀ k entry k', sys_execute fs k command locals = some (.entered entry, k') →
      Loaded fs dentry.inode_num k k') ↔ Fits fs dentry.inode_num := by
  constructor
  · intro hloads
    by_contra hlong
    obtain ⟨k, entry, k', hexecute, hnot⟩ := overruns_of_long hdentry hfile helf hshort hlong
    exact hnot (hloads k entry k' hexecute)
  · exact fun hfits k entry k' hexecute => loaded_of_fits hdentry hfile hfits hexecute

theorem program_loaded_iff_one_entry :
    ∃ dentry, cmd_dentry (oneEntry 2 30) ⟨fun _ => 0, fun _ => 0⟩ oneCommand = some dentry ∧
      ∀ k entry k', sys_execute (oneEntry 2 30) k oneCommand ⟨fun _ => 0, fun _ => 0⟩ = some (.entered entry, k') →
        Loaded (oneEntry 2 30) dentry.inode_num k k' := by
  have hfound : (cmd_dentry (oneEntry 2 30) ⟨fun _ => 0, fun _ => 0⟩ oneCommand).any (fun dentry => decide
      (dentry.inode_num = 0 ∧ isElf (oneEntry 2 30) ⟨fun _ => 0, fun _ => 0⟩ dentry.inode_num = true)) = true := by
    decide +kernel
  obtain ⟨dentry, hdentry, hdecide⟩ := (Option.any_eq_true _ _).mp hfound
  obtain ⟨hinode, helf⟩ := of_decide_eq_true hdecide
  have hlength : ((oneEntry 2 30).file_length 0).toNat = 30 := by decide +kernel
  have hfile : (oneEntry 2 30).WellFormed dentry.inode_num := by
    rw [hinode]
    refine ⟨by decide +kernel, by rw [hlength]; decide, fun pos hpos => ?_⟩
    rw [hlength] at hpos
    have hblock : (oneEntry 2 30).block 0 0 < (oneEntry 2 30).num_blocks := by decide +kernel
    rwa [Image.Readable, Nat.div_eq_of_lt (by omega)]
  have hfits : Fits (oneEntry 2 30) dentry.inode_num := by
    rw [Fits, hinode, hlength]
    decide
  exact ⟨dentry, hdentry,
    (program_loaded_iff _ oneCommand _ dentry hdentry hfile helf (by decide)).mpr hfits⟩

/-- An executable of the greatest length: 1023 blocks, all of them the first one. -/
def longestFile : Image where
  bytes a :=
    if a = 0 ∨ a = 4 ∨ a = 8 then 1 else if a = 64 then 97 else if a = 96 then 2
    else if a = 4097 then 0xF0 else if a = 4098 then 0x3F
    else if 8192 ≤ a then magic (a - 8192) else 0

/-- The list of blocks holds zeros. -/
theorem longestFile_list {a : UInt32} (hlo : 4099 ≤ a.toNat) (hhi : a.toNat < 8192) : longestFile.bytes a = 0 := by
  have hne {c : UInt32} (hc : c.toNat < 4099) : a ≠ c := by
    rintro rfl
    omega
  have hbelow : ¬ 8192 ≤ a := by
    rw [UInt32.le_iff_toNat_le]
    exact Nat.not_le.mpr hhi
  have hheader : ¬ (a = 0 ∨ a = 4 ∨ a = 8) := by
    simp only [not_or]
    exact ⟨hne (by decide), hne (by decide), hne (by decide)⟩
  simp only [longestFile]
  rw [if_neg hheader, if_neg (hne (by decide)), if_neg (hne (by decide)), if_neg (hne (by decide)),
    if_neg (hne (by decide)), if_neg hbelow]

theorem longestFile_block {b : Nat} (hb : b < 1023) : longestFile.block 0 b = 0 := by
  have hfour : (4 : UInt32).toNat = 4 := rfl
  have haddr : (4 * ((0 + 1) * BLK_SIZE_UINTS + UInt32.ofNat (b + 1))).toNat = 4100 + 4 * b := by
    have hinode : ((0 + 1) * BLK_SIZE_UINTS).toNat = 1024 := by decide
    rw [UInt32.toNat_mul, UInt32.toNat_add, hinode, UInt32.toNat_ofNat', hfour]
    omega
  rw [Image.block, Image.word]
  generalize 4 * ((0 + 1) * BLK_SIZE_UINTS + UInt32.ofNat (b + 1)) = a at haddr
  refine load32_wordByte fun i hi => ?_
  rw [longestFile_list]
  · interval_cases i <;> rfl
  · rw [UInt32.toNat_add, UInt32.toNat_ofNat']
    omega
  · rw [UInt32.toNat_add, UInt32.toNat_ofNat']
    omega

/-- A file can be as long as its inode allows and still not fit. -/
theorem longestFile_wellFormed : longestFile.WellFormed 0 ∧ ¬ Fits longestFile 0 := by
  have hlength : (longestFile.file_length 0).toNat = 1023 * 4096 := by decide +kernel
  have hsome : (0 : UInt32) < longestFile.num_blocks := by decide +kernel
  refine ⟨⟨by decide +kernel, by rw [hlength], fun pos hpos => ?_⟩, ?_⟩
  · rw [hlength] at hpos
    rwa [Image.Readable, longestFile_block (by omega)]
  · rw [Fits, hlength]
    decide

theorem longest_file_overruns :
    longestFile.WellFormed 0 ∧ ∃ k entry k',
      sys_execute longestFile k oneCommand ⟨fun _ => 0, fun _ => 0⟩ = some (.entered entry, k') ∧
        ¬ Loaded longestFile 0 k k' := by
  obtain ⟨hfile, hlong⟩ := longestFile_wellFormed
  have hfound : (cmd_dentry longestFile ⟨fun _ => 0, fun _ => 0⟩ oneCommand).any (fun dentry => decide
      (dentry.inode_num = 0 ∧ isElf longestFile ⟨fun _ => 0, fun _ => 0⟩ dentry.inode_num = true)) = true := by
    decide +kernel
  obtain ⟨dentry, hdentry, hdecide⟩ := (Option.any_eq_true _ _).mp hfound
  obtain ⟨hinode, helf⟩ := of_decide_eq_true hdecide
  have hruns := overruns_of_long hdentry (hinode ▸ hfile) helf (by decide) (hinode ▸ hlong)
  rw [hinode] at hruns
  exact ⟨hfile, hruns⟩

end lacos.syscalls
