import LacOS.FileSystem.Directory
import LacOS.FileSystem.ReadData.Spec
import LacOS.Syscalls.Execute.Effect

open memory lacos.lib lacos.file_system lacos.pcb

namespace lacos.syscalls

section Command

theorem zero_notMem_commandWord (command : CString) : 0 ∉ commandWord command := by
  intro hzero
  have hword := List.mem_of_mem_take hzero
  have hrest := (List.takeWhile_sublist _).mem hword
  exact command.nonzero ((List.dropWhile_sublist _).mem hrest)

/-- A string that is written can be read back. -/
theorem isText_writeString (m : Mem) (d : UInt32) {s : List UInt8} (hlength : s.length < 2 ^ 32) :
    IsText (writeString m d s) d s := by
  intro j hj
  rw [writeString, fillWith_inside _ _ _ (by omega) (by omega), getD_append_default]

/-- What the array held before does not matter for the file that is found. -/
theorem cmd_dentry_congr (fs : Image) (locals₁ locals₂ : Locals) (command : CString) :
    cmd_dentry fs locals₁ command = cmd_dentry fs locals₂ command := by
  have hlength : (commandWord command).length ≤ FILENAME_LEN := List.length_take_le _ _
  have hlt : (commandWord command).length < 2 ^ 32 := Nat.lt_of_le_of_lt hlength (by decide)
  have hnonzero := zero_notMem_commandWord command
  have htext (locals : Locals) : IsText (cmd locals command) 0 (commandWord command) :=
    isText_writeString locals.cmd 0 hlt
  have hstrlen (locals : Locals) := strlen_eq (isString_of_isText (htext locals) hnonzero hlt)
  have hstring (locals : Locals) := nstring_of_isText (htext locals) hlength hnonzero
  rw [cmd_dentry, cmd_dentry, namedDentry_eq, namedDentry_eq, hstrlen, hstrlen, hstring, hstring]

end Command

/-- How many bytes of the header the file system delivers. -/
def headerBytes (fs : Image) (inode : UInt32) : Nat :=
  if inode < fs.num_inodes ∧ fs.block inode 0 < fs.num_blocks then
    min FILE_H_SIZE.toNat (fs.file_length inode).toNat
  else 0

section Header

variable (fs : Image) (locals : Locals) (inode : UInt32)

/-- No more than the header is read. -/
theorem headerBytes_le : headerBytes fs inode ≤ 30 := by
  rw [headerBytes]
  split
  · exact Nat.min_le_left _ _
  · exact Nat.zero_le _

/-- Only the bytes delivered are new. -/
theorem file_data_eq : file_data fs locals inode =
    fillWith locals.file_data 0 (fs.fileByte inode) (headerBytes fs inode) := by
  rw [file_data]
  rcases UInt32.lt_or_le inode fs.num_inodes with hinode | hinode
  swap
  · rw [read_data_bad_inode _ _ _ _ hinode, headerBytes, if_neg (fun h => absurd h.1 (UInt32.not_lt.mpr hinode)),
      fillWith_zero]
  rcases UInt32.lt_or_le 0 (fs.file_length inode) with hoffset | hend
  swap
  · have hzero : headerBytes fs inode = 0 := by
      have hlength := UInt32.le_iff_toNat_le.mp hend
      rw [UInt32.toNat_zero] at hlength
      rw [headerBytes]
      split
      · omega
      · rfl
    rw [read_data_at_end _ _ _ hinode hend, hzero, fillWith_zero]
  rcases UInt32.lt_or_le (fs.block inode 0) fs.num_blocks with hblock | hbad
  swap
  · rw [read_data_bad_block _ _ _ hinode hoffset hbad, headerBytes,
      if_neg (fun h => absurd h.2 (UInt32.not_lt.mpr hbad)), fillWith_zero]
  have htotal : readTotal fs inode 0 FILE_H_SIZE = headerBytes fs inode := by
    rw [readTotal, headerBytes, if_pos ⟨hinode, hblock⟩]
    rfl
  have hle := headerBytes_le fs inode
  obtain ⟨count, ⟨⟨hcount, -⟩, hgreatest⟩, hread⟩ := read_data_success fs inode 0 FILE_H_SIZE 0 locals.file_data
    (by decide) (by rw [htotal, UInt32.toNat_zero]; omega) hinode hoffset hblock
  -- The header lies in the first block of the file.
  have hall : count = headerBytes fs inode := by
    rw [htotal] at hcount hgreatest
    refine Nat.le_antisymm hcount (hgreatest ⟨Nat.le_refl _, fun i hi => ?_⟩)
    have hfirst : (UInt32.toNat 0 + i) / 4096 = 0 := by
      rw [UInt32.toNat_zero]
      omega
    rw [Image.Readable, hfirst]
    exact hblock
  rw [hread, hall]
  simp only [UInt32.toNat_zero, Nat.zero_add]

/-- A byte of the header is the file's, or what the stack held before. -/
theorem file_data_byte {j : Nat} (hj : j < 2 ^ 32) : file_data fs locals inode (UInt32.ofNat j) =
    if j < headerBytes fs inode then fs.fileByte inode j else locals.file_data (UInt32.ofNat j) := by
  have hoffset : (UInt32.ofNat j - 0).toNat = j := by rw [UInt32.sub_zero, UInt32.toNat_ofNat_of_lt' hj]
  rw [file_data_eq]
  simp only [fillWith, hoffset]

/-- An executable begins with the four bytes of the format. -/
theorem isElf_iff : isElf fs locals inode = true ↔
    ∀ j < 4, file_data fs locals inode (UInt32.ofNat j) = magic (UInt32.ofNat j) := by
  have hmagic : nstring magic 4 0 = [0x7F, 0x45, 0x4C, 0x46] := by decide
  have hstart (j : Nat) : (0 : UInt32) + UInt32.ofNat j = UInt32.ofNat j := UInt32.zero_add _
  have hcompare : isElf fs locals inode = true ↔ nstring (file_data fs locals inode) 4 0 = nstring magic 4 0 := by
    rw [isElf, decide_eq_true_iff]
    exact strncmp_eq_zero_iff_nstring _ _ _ _ _
  rw [hcompare]
  constructor
  · intro hsame j hj
    have hlength : (nstring magic 4 0).length = 4 := congrArg List.length hmagic
    have hexpected : (nstring magic 4 0).getD j 0 = magic (0 + UInt32.ofNat j) :=
      nstring_getD hj (hlength ▸ Nat.le_of_lt hj)
    have hread : (nstring (file_data fs locals inode) 4 0).getD j 0 = _ :=
      nstring_getD hj (hsame ▸ hlength ▸ Nat.le_of_lt hj)
    rw [hsame, hexpected, hstart] at hread
    exact hread.symm
  · intro hbytes
    rw [hmagic]
    refine nstring_eq (Nat.le_refl 4) (by decide) fun j hj _ => ?_
    rw [hstart, hbytes j hj]
    revert j
    decide

end Header

deriving instance DecidableEq for Outcome

/-- How a command ends: the value returned, or the entry point of a new process. -/
def verdict (fs : Image) (k : Kernel) (command : CString) (locals : Locals) : Option Outcome :=
  (sys_execute fs k command locals).map (·.1)

section Verdict

variable {fs : Image} {k : Kernel} {command : CString} {locals : Locals}

/-- Without a free slot the call returns 0, which is no failure by its value. -/
theorem verdict_full (hfull : our_popcount k.pcb_status = MAX_PROCESSES) :
    verdict fs k command locals = some (.returned 0) := by
  have hfull' : our_popcount (cli k).pcb_status = MAX_PROCESSES := hfull
  simp only [verdict, sys_execute, if_pos hfull', Option.map_some]

variable (hroom : our_popcount k.pcb_status ≠ MAX_PROCESSES)
include hroom

/-- A command that names no entry is refused. -/
theorem verdict_noEntry (hdentry : cmd_dentry fs locals command = none) :
    verdict fs k command locals = some (.returned (-1)) := by
  have hroom' : ¬ our_popcount (cli k).pcb_status = MAX_PROCESSES := hroom
  simp only [verdict, sys_execute, if_neg hroom', hdentry, Option.map_some]

/-- The verdict on a file depends on its header, as far as it is read. -/
theorem verdict_file {dentry : dentry_t} (hdentry : cmd_dentry fs locals command = some dentry)
    (hparent : k.starting_new_shell = false → startParent k ≠ NULL)
    (hfits : (commandArg command).length < BLOCK_END) :
    verdict fs k command locals = some (if isElf fs locals dentry.inode_num then
      .entered (load32 (file_data fs locals dentry.inode_num) 24) else .returned (-1)) := by
  have hroom' : ¬ our_popcount (cli k).pcb_status = MAX_PROCESSES := hroom
  have hfits' : ¬ (commandArg command).length ≥ BLOCK_END := Nat.not_le.mpr hfits
  obtain ⟨created, hcreate, hcreated⟩ := createPcb_spec (cli k) locals command
  simp only [verdict, sys_execute, if_neg hroom', hdentry, if_neg hfits', hcreate]
  split
  · obtain ⟨n, hn, hfind, -, -⟩ := find_empty_pcb_spec k.pcb_status
    rw [cli_toTasks, hfind] at hcreated ⊢
    rw [startProcess, hcreated.pcb_num]
    obtain ⟨hshell, hnull, -⟩ | ⟨-, k', hlink, -⟩ := @link_created fs k locals created n hn hcreated dentry.inode_num
    · exact absurd hnull (hparent hshell)
    · rw [hlink, Option.map_some]
  · rfl

/-- With a parent to link to and an argument that fits, the call fails with -1 or starts a
    process. -/
theorem verdict_cases (hparent : k.starting_new_shell = false → startParent k ≠ NULL)
    (hfits : (commandArg command).length < BLOCK_END) :
    verdict fs k command locals = some (.returned (-1)) ∨
      ∃ entry, verdict fs k command locals = some (.entered entry) := by
  cases hdentry : cmd_dentry fs locals command with
  | none => exact .inl (verdict_noEntry hroom hdentry)
  | some dentry =>
    rw [verdict_file hroom hdentry hparent hfits]
    split
    · exact .inr ⟨_, rfl⟩
    · exact .inl rfl

end Verdict

/-- A file that has a whole header, which begins like that of an executable. -/
structure HasHeader (fs : Image) (inode : UInt32) : Prop where
  valid : inode < fs.num_inodes
  block : fs.block inode 0 < fs.num_blocks
  length : FILE_H_SIZE.toNat ≤ (fs.file_length inode).toNat
  begins : ∀ j < 4, fs.fileByte inode j = magic (UInt32.ofNat j)

/-- The entry of the RTC or of the directory. -/
def IsDevice (dentry : dentry_t) : Prop := dentry.file_type = 0 ∨ dentry.file_type = 1

instance (dentry : dentry_t) : Decidable (IsDevice dentry) := by
  unfold IsDevice
  infer_instance

/-- `sys_execute` decides by its inputs and starts a process from an executable file
    only. The RTC, the directory and a file without the bytes of a header are rejected
    with -1 whatever the process table holds, and so is any other command that starts
    nothing although there is a slot for it. -/
structure SoundVerdict (fs : Image) (k : Kernel) (command : CString) : Prop where
  same : ∀ locals₁ locals₂, verdict fs k command locals₁ = verdict fs k command locals₂
  started : ∀ locals entry, verdict fs k command locals = some (.entered entry) →
    ∃ dentry, cmd_dentry fs locals command = some dentry ∧ ¬ IsDevice dentry ∧ HasHeader fs dentry.inode_num
  rejected : ∀ locals dentry, cmd_dentry fs locals command = some dentry →
    IsDevice dentry ∨ headerBytes fs dentry.inode_num < FILE_H_SIZE.toNat →
    verdict fs k command locals = some (.returned (-1))
  otherwise : our_popcount k.pcb_status ≠ MAX_PROCESSES → ∀ locals,
    (∀ entry, verdict fs k command locals ≠ some (.entered entry)) → verdict fs k command locals = some (.returned (-1))

/-- One of the bytes delivered is not that of an executable. -/
def NotElf (fs : Image) (inode : UInt32) : Prop :=
  ∃ j < 4, j < headerBytes fs inode ∧ fs.fileByte inode j ≠ magic (UInt32.ofNat j)

section Decision

variable {fs : Image} {inode : UInt32}

/-- A wrong byte that has been read decides, whatever the stack held before. -/
theorem NotElf.isElf (hnot : NotElf fs inode) (locals : Locals) : syscalls.isElf fs locals inode = false := by
  obtain ⟨j, hj, hdelivered, hbyte⟩ := hnot
  rw [← Bool.not_eq_true, isElf_iff]
  intro hall
  have hmatch := hall j hj
  rw [file_data_byte _ _ _ (by omega), if_pos hdelivered] at hmatch
  exact hbyte hmatch

/-- Stale bytes complete any header that has no wrong byte. -/
theorem isElf_stale (hnot : ¬ NotElf fs inode) (word : Mem) : isElf fs ⟨word, magic⟩ inode = true := by
  rw [isElf_iff]
  intro j hj
  rw [file_data_byte _ _ _ (by omega)]
  split
  · rename_i hdelivered
    by_contra hbyte
    exact hnot ⟨j, hj, hdelivered, hbyte⟩
  · rfl

/-- The header is read as a whole exactly if the file is there, has a first block and is long
    enough. -/
theorem headerBytes_eq_iff : headerBytes fs inode = 30 ↔
    inode < fs.num_inodes ∧ fs.block inode 0 < fs.num_blocks ∧ FILE_H_SIZE.toNat ≤ (fs.file_length inode).toNat := by
  have hsize : FILE_H_SIZE.toNat = 30 := rfl
  rw [headerBytes, hsize, ← and_assoc]
  split
  · rename_i hvalid
    rw [and_iff_right hvalid]
    omega
  · rename_i hvalid
    exact iff_of_false (by omega) fun h => hvalid h.1

/-- A header that is read as a whole leaves nothing of what the stack held. -/
theorem header_whole (hwhole : headerBytes fs inode = 30) (locals₁ locals₂ : Locals) {j : Nat} (hj : j < 30) :
    file_data fs locals₁ inode (UInt32.ofNat j) = file_data fs locals₂ inode (UInt32.ofNat j) := by
  rw [file_data_byte _ _ _ (by omega), file_data_byte _ _ _ (by omega), if_pos (by omega), if_pos (by omega)]

/-- With the header read as a whole, the stack of the caller does not matter for the check. -/
theorem isElf_whole (hwhole : headerBytes fs inode = 30) (locals₁ locals₂ : Locals) :
    isElf fs locals₁ inode = isElf fs locals₂ inode := by
  rw [Bool.eq_iff_iff, isElf_iff, isElf_iff]
  refine forall₂_congr fun j hj => ?_
  rw [header_whole hwhole locals₁ locals₂ (by omega)]

/-- Nor does it for the entry point. -/
theorem entry_whole (hwhole : headerBytes fs inode = 30) (locals₁ locals₂ : Locals) :
    load32 (file_data fs locals₁ inode) 24 = load32 (file_data fs locals₂ inode) 24 := by
  have hbyte {j : Nat} (hj : j < 30) := header_whole hwhole locals₁ locals₂ hj
  have h0 : file_data fs locals₁ inode 24 = file_data fs locals₂ inode 24 := hbyte (j := 24) (by omega)
  have h1 : file_data fs locals₁ inode (24 + 1) = file_data fs locals₂ inode (24 + 1) := hbyte (j := 25) (by omega)
  have h2 : file_data fs locals₁ inode (24 + 2) = file_data fs locals₂ inode (24 + 2) := hbyte (j := 26) (by omega)
  have h3 : file_data fs locals₁ inode (24 + 3) = file_data fs locals₂ inode (24 + 3) := hbyte (j := 27) (by omega)
  rw [load32, load32, h0, h1, h2, h3]

end Decision

section Sound

variable {fs : Image} {k : Kernel} {command : CString}

/-- A command for which the verdict is sound: the entry it names, if any, is not the RTC
    or the directory and has its header read as a whole, or there is a slot for it and
    one of the first four bytes delivered is wrong. -/
def Decided (fs : Image) (k : Kernel) (command : CString) : Prop :=
  ∀ locals dentry, cmd_dentry fs locals command = some dentry →
    headerBytes fs dentry.inode_num = 30 ∧ ¬ IsDevice dentry ∨
      our_popcount k.pcb_status ≠ MAX_PROCESSES ∧ NotElf fs dentry.inode_num

/-- Without a free slot, the verdict is sound for the commands that are decided. -/
theorem soundVerdict_full_iff (hfull : our_popcount k.pcb_status = MAX_PROCESSES) :
    SoundVerdict fs k command ↔ Decided fs k command := by
  constructor
  · intro hsound locals dentry hdentry
    left
    have hfit : ¬ (IsDevice dentry ∨ headerBytes fs dentry.inode_num < FILE_H_SIZE.toNat) := by
      intro hunfit
      have hrejected := hsound.rejected locals dentry hdentry hunfit
      rw [verdict_full hfull] at hrejected
      cases hrejected
    have hsize : FILE_H_SIZE.toNat = 30 := rfl
    have hle := headerBytes_le fs dentry.inode_num
    rw [not_or] at hfit
    exact ⟨by omega, hfit.1⟩
  · intro hdecided
    refine ⟨fun locals₁ locals₂ => ?_, fun locals entry hentered => ?_, fun locals dentry hdentry hunfit => ?_,
      absurd hfull⟩
    · rw [verdict_full hfull, verdict_full hfull]
    · rw [verdict_full hfull] at hentered
      cases hentered
    · obtain ⟨hwhole, hdevice⟩ | ⟨hroom, -⟩ := hdecided locals dentry hdentry
      · rw [hwhole] at hunfit
        exact absurd hunfit (not_or.mpr ⟨hdevice, by decide⟩)
      · exact absurd hfull hroom

variable (hroom : our_popcount k.pcb_status ≠ MAX_PROCESSES)
  (hparent : k.starting_new_shell = false → startParent k ≠ NULL)
  (hfits : (commandArg command).length < BLOCK_END)
include hroom hparent hfits

/-- A decided command ends the same way whatever the stack held before. -/
theorem Decided.same (hdecided : Decided fs k command) (locals₁ locals₂ : Locals) :
    verdict fs k command locals₁ = verdict fs k command locals₂ := by
  have hsame := cmd_dentry_congr fs locals₁ locals₂ command
  cases hdentry : cmd_dentry fs locals₂ command with
  | none => rw [verdict_noEntry hroom (hsame.trans hdentry), verdict_noEntry hroom hdentry]
  | some dentry =>
    rw [verdict_file hroom (hsame.trans hdentry) hparent hfits, verdict_file hroom hdentry hparent hfits]
    obtain ⟨hwhole, -⟩ | ⟨-, hnot⟩ := hdecided locals₂ dentry hdentry
    · rw [isElf_whole hwhole locals₁ locals₂, entry_whole hwhole locals₁ locals₂]
    · simp only [hnot.isElf, Bool.false_eq_true, if_false]

/-- A decided command starts a process only from an executable with a whole header. -/
theorem Decided.started (hdecided : Decided fs k command) {locals : Locals} {entry : UInt32}
    (hentered : verdict fs k command locals = some (.entered entry)) :
    ∃ dentry, cmd_dentry fs locals command = some dentry ∧ ¬ IsDevice dentry ∧ HasHeader fs dentry.inode_num := by
  cases hdentry : cmd_dentry fs locals command with
  | none =>
    rw [verdict_noEntry hroom hdentry] at hentered
    cases hentered
  | some dentry =>
    rw [verdict_file hroom hdentry hparent hfits] at hentered
    split at hentered
    · rename_i helf
      obtain ⟨hwhole, hdevice⟩ | ⟨-, hnot⟩ := hdecided locals dentry hdentry
      · obtain ⟨hvalid, hblock, hlength⟩ := headerBytes_eq_iff.mp hwhole
        refine ⟨dentry, rfl, hdevice, hvalid, hblock, hlength, fun j hj => ?_⟩
        have hmatch := (isElf_iff fs locals dentry.inode_num).mp helf j hj
        rwa [file_data_byte _ _ _ (by omega), if_pos (by omega)] at hmatch
      · rw [hnot.isElf] at helf
        cases helf
    · cases hentered

/-- A decided command for a device or a file without a header is refused. -/
theorem Decided.rejected (hdecided : Decided fs k command) {locals : Locals} {dentry : dentry_t}
    (hdentry : cmd_dentry fs locals command = some dentry)
    (hunfit : IsDevice dentry ∨ headerBytes fs dentry.inode_num < FILE_H_SIZE.toNat) :
    verdict fs k command locals = some (.returned (-1)) := by
  obtain ⟨hwhole, hdevice⟩ | ⟨-, hnot⟩ := hdecided locals dentry hdentry
  · rw [hwhole] at hunfit
    exact absurd hunfit (not_or.mpr ⟨hdevice, by decide⟩)
  · rw [verdict_file hroom hdentry hparent hfits, hnot.isElf]
    rfl

end Sound

/-- The verdict is sound exactly on a command that names no entry, that names a file, not
    the RTC or the directory, whose header is read as a whole, or that names an entry
    with a wrong byte among the first four delivered while there is a slot for it. What
    the two arrays of the stack hold is not restricted, nor is the image. -/
theorem verdict_sound_iff (fs : Image) (k : Kernel) (command : CString)
    (hparent : k.starting_new_shell = false → startParent k ≠ NULL)
    (hfits : (commandArg command).length < BLOCK_END) :
    SoundVerdict fs k command ↔ Decided fs k command := by
  by_cases hroom : our_popcount k.pcb_status = MAX_PROCESSES
  · exact soundVerdict_full_iff hroom
  constructor
  · intro hsound locals dentry hdentry
    -- With the bytes of an executable left on the stack only a wrong byte rejects the file.
    rw [cmd_dentry_congr fs locals ⟨locals.cmd, magic⟩] at hdentry
    rw [or_iff_not_imp_right]
    intro hnot
    have hverdict := verdict_file hroom hdentry hparent hfits
    rw [if_pos (isElf_stale (fun helf => hnot ⟨hroom, helf⟩) locals.cmd)] at hverdict
    obtain ⟨found, hfound, hdevice, hheader⟩ := hsound.started _ _ hverdict
    obtain rfl := Option.some.inj (hdentry.symm.trans hfound)
    exact ⟨headerBytes_eq_iff.mpr ⟨hheader.valid, hheader.block, hheader.length⟩, hdevice⟩
  · intro hdecided
    refine ⟨hdecided.same hroom hparent hfits, fun _ _ => hdecided.started hroom hparent hfits,
      fun _ _ => hdecided.rejected hroom hparent hfits, fun _ locals hnot => ?_⟩
    exact (verdict_cases hroom hparent hfits).resolve_right fun ⟨entry, hentered⟩ => hnot entry hentered

/-- A process table with one shell to start. -/
def starting : Kernel := { blankMachine with starting_new_shell := true }

/-- An image with one entry, of a given type, and a file whose length is given. -/
def oneEntry (file_type length : UInt8) : Image where
  bytes a :=
    if a = 0 ∨ a = 4 ∨ a = 8 then 1 else if a = 64 then 97 else if a = 96 then file_type
    else if a = 4096 then length else magic (a - 8192)

/-- The command `a`. -/
def oneCommand : CString := ⟨[97], by decide⟩

theorem verdict_sound_iff_one_entry : SoundVerdict (oneEntry 2 30) starting oneCommand := by
  refine (verdict_sound_iff (oneEntry 2 30) starting oneCommand (fun h => nomatch h) (by decide)).mpr ?_
  intro locals dentry hdentry
  rw [cmd_dentry_congr _ locals ⟨fun _ => 0, fun _ => 0⟩] at hdentry
  have hfile : (cmd_dentry (oneEntry 2 30) ⟨fun _ => 0, fun _ => 0⟩ oneCommand).all (fun dentry =>
      decide (headerBytes (oneEntry 2 30) dentry.inode_num = 30 ∧ ¬ IsDevice dentry)) = true := by
    decide +kernel
  rw [hdentry] at hfile
  exact .inl (of_decide_eq_true hfile)

/-- With an empty file it is the bytes left on the stack that decide. The directory is
    started like a file if its inode has the header of one. With all six slots taken the
    empty file gets 0 as its answer. -/
theorem empty_file_started :
    verdict (oneEntry 2 0) starting oneCommand ⟨fun _ => 0, magic⟩ = some (.entered 0) ∧
    verdict (oneEntry 2 0) starting oneCommand ⟨fun _ => 0, fun _ => 0⟩ = some (.returned (-1)) ∧
    verdict (oneEntry 1 30) starting oneCommand ⟨fun _ => 0, fun _ => 0⟩ = some (.entered 0) ∧
    verdict (oneEntry 2 0) { starting with pcb_status := 0x3F } oneCommand ⟨fun _ => 0, fun _ => 0⟩ =
      some (.returned 0) := by
  decide +kernel

end lacos.syscalls
