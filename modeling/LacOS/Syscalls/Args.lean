import LacOS.Syscalls.Execute.Exact

open memory lacos.lib lacos.file_system lacos.pcb

namespace lacos.syscalls

/-- `sys_getargs` by the process of `cur_pcb`, into its memory `m`. -/
def sys_getargs (k : Kernel) (m : Mem) (buf : UInt32) (nbytes : Int32) : Int × Mem :=
  let arg := (k.pcbs k.cur_pcb).tail
  let arg_len := (strlen arg 0 + 1).toInt32
  if arg_len > nbytes ∨ arg_len ≤ 1 ∨ nbytes < 0 ∨ buf = NULL then (-1, m)
  else (0, memcpy_from m buf arg 0 arg_len.toUInt32)

section Getargs

variable {k : Kernel} {arg : List UInt8} (htext : IsText (k.pcbs k.cur_pcb).tail 0 arg) (hnonzero : 0 ∉ arg)
include htext

/-- Copying the stored argument with its terminator writes it as a string. -/
theorem blit_arg (m : Mem) (buf : UInt32) :
    blit m buf (k.pcbs k.cur_pcb).tail 0 (arg.length + 1) = writeString m buf arg := by
  refine blit_eq_fillWith _ _ _ _ _ _ fun i hi => ?_
  rw [htext i (Nat.le_of_lt_succ hi), getD_append_default]

include hnonzero

/-- `sys_getargs` delivers the argument with its terminator, or nothing. -/
theorem sys_getargs_eq (hlength : arg.length < KEY_BUF_SIZE) (m : Mem) (buf : UInt32) (nbytes : Int32) :
    sys_getargs k m buf nbytes =
      if buf ≠ NULL ∧ arg ≠ [] ∧ (arg.length : Int) + 1 ≤ nbytes.toInt then (0, writeString m buf arg)
      else (-1, m) := by
  have hstrlen := htext.strlen_toNat hnonzero
  simp only [KEY_BUF_SIZE] at hlength
  have hsize : (strlen (k.pcbs k.cur_pcb).tail 0 + 1).toNat = arg.length + 1 := by
    rw [UInt32.toNat_add, hstrlen, UInt32.toNat_one]
    omega
  have hlen : (strlen (k.pcbs k.cur_pcb).tail 0 + 1).toInt32.toInt = arg.length + 1 := by
    have hint := @toInt32_of_lt (strlen (k.pcbs k.cur_pcb).tail 0 + 1) (by omega)
    rw [hsize] at hint
    exact hint
  have hone : (1 : Int32).toInt = 1 := by decide
  have hcond : ((strlen (k.pcbs k.cur_pcb).tail 0 + 1).toInt32 > nbytes ∨
      (strlen (k.pcbs k.cur_pcb).tail 0 + 1).toInt32 ≤ 1 ∨ nbytes < 0 ∨ buf = NULL) ↔
      ¬ (buf ≠ NULL ∧ arg ≠ [] ∧ (arg.length : Int) + 1 ≤ nbytes.toInt) := by
    rw [gt_iff_lt, Int32.lt_iff_toInt_lt, Int32.le_iff_toInt_le, Int32.lt_iff_toInt_lt, hlen, hone,
      Int32.toInt_zero, ← List.length_pos_iff]
    by_cases hbuf : buf = NULL
    · simp [hbuf]
    · simp only [hbuf, or_false, ne_eq, not_false_eq_true, true_and]
      omega
  have hcopy : memcpy_from m buf (k.pcbs k.cur_pcb).tail 0 (strlen (k.pcbs k.cur_pcb).tail 0 + 1).toInt32.toUInt32 =
      writeString m buf arg := by
    rw [UInt32.toUInt32_toInt32, memcpy_from_eq_blit, hsize, blit_arg htext]
  simp only [sys_getargs, hcopy]
  by_cases hfits : buf ≠ NULL ∧ arg ≠ [] ∧ (arg.length : Int) + 1 ≤ nbytes.toInt
  · rw [if_pos hfits, if_neg fun h => hcond.mp h hfits]
  · rw [if_neg hfits, if_pos (hcond.mpr hfits)]

end Getargs

section Stored

variable {fs : Image} {k k' : Kernel} {command : CString} {locals : Locals}

/-- The argument is part of a string, and has no zero in it. -/
theorem zero_notMem_commandArg (command : CString) : 0 ∉ commandArg command := by
  intro hzero
  have hrest := List.mem_of_mem_drop ((List.dropWhile_sublist _).mem hzero)
  exact command.nonzero ((List.dropWhile_sublist _).mem hrest)

/-- The new process has the name and the argument of its command. -/
theorem sys_execute_tail {entry : UInt32} (hexecute : sys_execute fs k command locals = some (.entered entry, k')) :
    ∃ blk, (k'.pcbs k'.cur_pcb).tail = (storeCommand blk locals command).tail := by
  obtain ⟨created, hcreate, hcreated⟩ := createPcb_spec (cli k) locals command
  obtain ⟨blk, hblock⟩ := createPcb_block (cli k) locals command
  obtain ⟨n, hn, hfind, -, -⟩ := find_empty_pcb_spec k.pcb_status
  rw [cli_toTasks, hfind] at hcreate hcreated
  simp only [sys_execute] at hexecute
  split at hexecute
  · cases hexecute
  split at hexecute
  · cases hexecute
  split at hexecute
  · cases hexecute
  split at hexecute
  · rw [hcreate] at hexecute hblock
    simp only [startProcess] at hexecute hblock
    have hclean (page_addr : UInt32) (i : Fin MAX_DESC) :
        (((mapProgram created page_addr).pcbs (blockAddr (UInt32.ofNat n))).io_files i).flags = .NOT_USED := by
      rw [mapProgram_toTasks]
      exact hcreated.unused i
    obtain ⟨hcur, htail⟩ := linkProcess_tail (blockAddr_ne_null hn) (hclean _) hexecute
    refine ⟨blk, ?_⟩
    rw [hcur, htail, mapProgram_toTasks, hblock]
  · cases hexecute

variable (blk : pcb_t) (hshort : (commandArg command).length < KEY_BUF_SIZE)
include hshort

/-- The argument can be read back from the block. The name, which is stored behind it, must not
    have written over its terminator. -/
theorem storeCommand_arg : IsText (storeCommand blk locals command).tail 0 (commandArg command) := by
  simp only [KEY_BUF_SIZE] at hshort
  exact isText_writeString _ 0 (by omega)

/-- The name is not touched by an argument that fits. -/
theorem storeCommand_name : IsText (storeCommand blk locals command).tail CMD_NAME (commandWord command) := by
  intro j hj
  have hlength := commandWord_length_le command
  simp only [KEY_BUF_SIZE, cmd_buf_size] at hshort hlength
  have hj' : j < (UInt32.ofNat (cmd_buf_size + 1)).toNat := by
    have hsize : (UInt32.ofNat (cmd_buf_size + 1)).toNat = 33 := rfl
    omega
  have haddr : (CMD_NAME + UInt32.ofNat j).toNat = 129 + j := by
    rw [UInt32.toNat_add, UInt32.toNat_ofNat', show CMD_NAME.toNat = 129 from rfl]
    omega
  have hout : (commandArg command).length + 1 ≤ (CMD_NAME + UInt32.ofNat j - 0).toNat := by
    rw [UInt32.sub_zero, haddr]
    omega
  simp only [storeCommand]
  rw [writeString, fillWith_outside _ hout, memcpy_from_eq_blit, blit_inside _ _ _ _ hj' (by decide)]
  exact isText_cmd command locals j hj

end Stored

/-- A command line: spaces, a word, spaces, and an argument. The spaces between the two may
    be missing only if there is no argument, or if the word is as long as a word can be. -/
structure CommandLine (command : CString) (word arg : List UInt8) : Prop where
  chars : ∃ lead gap, command.chars = List.replicate lead 0x20 ++ (word ++ (List.replicate gap 0x20 ++ arg)) ∧
    (gap ≠ 0 ∨ arg = [] ∨ word.length = cmd_buf_size)
  word_ne_nil : word ≠ []
  word_spaces : 0x20 ∉ word
  word_length : word.length ≤ cmd_buf_size
  arg_start : arg.head? ≠ some 0x20
  arg_length : arg.length < KEY_BUF_SIZE

section CommandLine

theorem skipSpaces_replicate (n : Nat) (s : List UInt8) :
    skipSpaces (List.replicate n 0x20 ++ s) = skipSpaces s := by
  induction n with
  | zero => rfl
  | succ n ih => exact ih

/-- Nothing is skipped where there is no space. -/
theorem skipSpaces_of_head {s : List UInt8} (hhead : s.head? ≠ some 0x20) : skipSpaces s = s := by
  cases s with
  | nil => rfl
  | cons c rest =>
    have hc : c ≠ 0x20 := fun heq => hhead (congrArg some heq)
    exact List.dropWhile_cons_of_neg (by simpa using hc)

variable {command : CString} {word arg : List UInt8} (hline : CommandLine command word arg)
include hline

/-- `sys_execute` takes the command line apart as it was put together. -/
theorem CommandLine.parsed : commandWord command = word ∧ commandArg command = arg := by
  obtain ⟨lead, gap, hchars, hgap⟩ := hline.chars
  have hskip : skipSpaces command.chars = word ++ (List.replicate gap 0x20 ++ arg) := by
    rw [hchars, skipSpaces_replicate]
    obtain ⟨c, rest, rfl⟩ := List.exists_cons_of_ne_nil hline.word_ne_nil
    apply skipSpaces_of_head
    intro heq
    exact hline.word_spaces (Option.some.inj heq ▸ List.mem_cons_self)
  have hword : commandWord command = word := by
    have hmem (c : UInt8) (hc : c ∈ word) : decide (c ≠ 0x20) = true :=
      decide_eq_true fun heq => hline.word_spaces (heq ▸ hc)
    rw [commandWord, hskip, List.takeWhile_append_of_pos hmem]
    have hspace (n : Nat) : (List.replicate (n + 1) 0x20 ++ arg).takeWhile (· ≠ 0x20) = [] :=
      List.takeWhile_cons_of_neg (by decide)
    have hwhole : (word ++ []).take cmd_buf_size = word := by
      rw [List.append_nil, List.take_of_length_le hline.word_length]
    cases gap with
    | succ n => rw [hspace, hwhole]
    | zero =>
      obtain rfl | hfull := hgap.resolve_left fun h => h rfl
      · exact hwhole
      · exact List.take_left' hfull
  refine ⟨hword, ?_⟩
  rw [commandArg, hword, hskip, List.drop_left, skipSpaces_replicate, skipSpaces_of_head hline.arg_start]

end CommandLine

/-- The command line's word becomes the name of the new process and the rest its argument, and
    `sys_getargs` gives the argument back, with its terminator and nothing more, if there is one
    and it fits the buffer. Any process may execute the command, and the stack of `sys_execute`
    may hold anything. -/
theorem getargs_round_trip (fs : Image) (k k' : Kernel) (command : CString) (locals : Locals) (entry : UInt32)
    (word arg : List UInt8) (hline : CommandLine command word arg)
    (hexecute : sys_execute fs k command locals = some (.entered entry, k')) :
    IsText (k'.pcbs k'.cur_pcb).tail CMD_NAME word ∧ IsText (k'.pcbs k'.cur_pcb).tail 0 arg ∧
      ∀ m buf nbytes, sys_getargs k' m buf nbytes =
        if buf ≠ NULL ∧ arg ≠ [] ∧ (arg.length : Int) + 1 ≤ nbytes.toInt then (0, writeString m buf arg)
        else (-1, m) := by
  obtain ⟨hword, harg⟩ := hline.parsed
  obtain ⟨blk, htail⟩ := sys_execute_tail hexecute
  have hshort : (commandArg command).length < KEY_BUF_SIZE := by
    rw [harg]
    exact hline.arg_length
  have hname : IsText (k'.pcbs k'.cur_pcb).tail CMD_NAME word := by
    rw [htail, ← hword]
    exact storeCommand_name blk hshort
  have htext : IsText (k'.pcbs k'.cur_pcb).tail 0 arg := by
    rw [htail, ← harg]
    exact storeCommand_arg blk hshort
  have hnonzero : 0 ∉ arg := harg ▸ zero_notMem_commandArg command
  exact ⟨hname, htext, fun m buf nbytes => sys_getargs_eq htext hnonzero hline.arg_length m buf nbytes⟩

/-- The command ` a  b c`. -/
def spacedCommand : CString := ⟨[0x20, 97, 0x20, 0x20, 98, 0x20, 99], by decide⟩

theorem getargs_round_trip_spaced :
    ∃ entry k', sys_execute (oneEntry 2 30) starting spacedCommand ⟨fun _ => 0, fun _ => 0⟩ =
        some (.entered entry, k') ∧
      IsText (k'.pcbs k'.cur_pcb).tail CMD_NAME [97] ∧
      ∀ m, sys_getargs k' m 100 4 = (0, writeString m 100 [98, 0x20, 99]) ∧ sys_getargs k' m 100 3 = (-1, m) := by
  have hline : CommandLine spacedCommand [97] [98, 0x20, 99] :=
    ⟨⟨1, 2, rfl, by decide⟩, by decide, by decide, by decide, by decide, by decide⟩
  have hverdict : verdict (oneEntry 2 30) starting spacedCommand ⟨fun _ => 0, fun _ => 0⟩ = some (.entered 0) := by
    decide +kernel
  obtain ⟨k', hexecute⟩ := verdict_eq_some.mp hverdict
  obtain ⟨hname, -, hargs⟩ := getargs_round_trip _ _ _ _ _ _ _ _ hline hexecute
  refine ⟨0, k', hexecute, hname, fun m => ⟨?_, ?_⟩⟩
  · rw [hargs, if_pos (by decide)]
  · rw [hargs, if_neg (by decide)]

/-- An image with two executables, `a` and `ab`. -/
def twoPrograms : Image where
  bytes a :=
    if a = 0 then 2 else if a = 4 ∨ a = 8 then 1 else if a = 64 ∨ a = 128 then 97 else if a = 129 then 98
    else if a = 96 ∨ a = 160 then 2 else if a = 4096 then 30 else magic (a - 8192)

/-- Without a space behind it `a` is not the word of the command `ab`, though it is the name
    of an executable. And a process that gives no buffer gets no argument. -/
theorem word_needs_space :
    (∃ entry k', sys_execute twoPrograms starting ⟨[97] ++ [98], by decide⟩ ⟨fun _ => 0, fun _ => 0⟩ =
      some (.entered entry, k') ∧ ¬ IsText (k'.pcbs k'.cur_pcb).tail CMD_NAME [97]) ∧
    Executable twoPrograms ⟨[97], by decide⟩ ⟨fun _ => 0, fun _ => 0⟩ ∧
    (sys_execute (oneEntry 2 30) starting spacedCommand ⟨fun _ => 0, fun _ => 0⟩).any (fun (outcome, k') =>
      outcome = .entered 0 ∧ (sys_getargs k' (fun _ => 0) NULL 4).1 = -1) = true := by
  have hstored : (sys_execute twoPrograms starting ⟨[97] ++ [98], by decide⟩ ⟨fun _ => 0, fun _ => 0⟩).any
      (fun (outcome, k') => outcome = .entered 0 ∧ (k'.pcbs k'.cur_pcb).tail (CMD_NAME + 1) = 98) = true := by
    decide +kernel
  obtain ⟨⟨outcome, k'⟩, hexecute, hresult⟩ := (Option.any_eq_true _ _).mp hstored
  obtain ⟨rfl, hbyte⟩ := of_decide_eq_true hresult
  refine ⟨⟨0, k', hexecute, fun htext => ?_⟩, by decide +kernel, by decide +kernel⟩
  have hend : (k'.pcbs k'.cur_pcb).tail (CMD_NAME + 1) = 0 := htext 1 (by decide)
  rw [hbyte] at hend
  exact absurd hend (by decide)

/-- `sys_execute` gets to the copies of its command: there is a free slot, and the command
    names a directory entry. -/
def Stores (fs : Image) (k : Kernel) (command : CString) (locals : Locals) : Prop :=
  our_popcount k.pcb_status ≠ MAX_PROCESSES ∧ cmd_dentry fs locals command ≠ none

/-- A command that `sys_execute` stores is stored in `arg` and `cmd_name` of the new block
    only, whatever the block held before. -/
structure StoredInside (fs : Image) (k : Kernel) (command : CString) (locals : Locals) : Prop where
  arg : Stores fs k command locals → ∀ (tail : Mem) (a : UInt32), KEY_BUF_SIZE ≤ a.toNat →
    storeArg command tail (parseWord command locals.cmd).2 a = tail a
  cmd_name : Stores fs k command locals → ∀ (tail : Mem) (a : UInt32), ¬ InName a →
    storeName tail (parseWord command locals.cmd).1 a = tail a
  fields : Stores fs k command locals → ∀ blk, { storeCommand blk locals command with tail := blk.tail } = blk

/-- What `sys_execute` stores in a block is what its loops write there, and they stay inside `arg`
    and `cmd_name` exactly if the table is full, the name is unknown or the argument has no more
    than 128 characters. The block may hold anything before, and the kernel may be in any state.
    -/
theorem stored_inside_iff (fs : Image) (k : Kernel) (command : CString) (locals : Locals)
    (hlength : command.chars.length < 2 ^ 32) :
    (∀ blk, storeCommand blk locals command =
      { blk with
        tail := storeArg command (storeName blk.tail (parseWord command locals.cmd).1)
          (parseWord command locals.cmd).2 }) ∧
    (StoredInside fs k command locals ↔ our_popcount k.pcb_status = MAX_PROCESSES ∨
      cmd_dentry fs locals command = none ∨ (commandArg command).length < KEY_BUF_SIZE) := by
  refine ⟨fun blk => storeCommand_eq command hlength blk locals, fun hinside => ?_, fun hcond => ?_⟩
  · by_cases hstores : Stores fs k command locals
    · exact .inr (.inr ((storeArg_inside_iff command hlength locals).mp (hinside.arg hstores)))
    · rw [Stores, not_and_or, not_not, not_not] at hstores
      exact hstores.imp_right .inl
  · have hshort (hstores : Stores fs k command locals) : (commandArg command).length < KEY_BUF_SIZE :=
      (hcond.resolve_left hstores.1).resolve_left hstores.2
    exact ⟨fun hstores => (storeArg_inside_iff command hlength locals).mpr (hshort hstores),
      fun _ _ _ ha => storeName_outside _ _ ha, fun _ _ => rfl⟩

/-- The command `a` with an argument of `n` characters. -/
def longArg (n : Nat) : CString where
  chars := 97 :: 0x20 :: List.replicate n 98
  nonzero := by simp [List.mem_replicate]

theorem stored_inside_iff_longest :
    StoredInside (oneEntry 2 30) starting (longArg 128) ⟨fun _ => 0, fun _ => 0⟩ := by
  have hlength : (longArg 128).chars.length < 2 ^ 32 := by decide +kernel
  exact (stored_inside_iff _ _ _ _ hlength).2.mpr (.inr (.inr (by decide +kernel)))

/-- A block that has the name of the command `longArg 129` but not yet its argument. -/
def namedTail : Mem := storeName (fun _ => 0) (parseWord (longArg 129) fun _ => 0).1

/-- The terminator of a longer argument is written to `cmd_name`, over the name. -/
theorem long_arg_clears_name :
    let locals : Locals := ⟨fun _ => 0, fun _ => 0⟩
    namedTail CMD_NAME = 97 ∧
      storeArg (longArg 129) namedTail (parseWord (longArg 129) fun _ => 0).2 CMD_NAME = 0 ∧
      (∃ entry k', sys_execute (oneEntry 2 30) starting (longArg 129) locals = some (.entered entry, k') ∧
        (k'.pcbs k'.cur_pcb).tail CMD_NAME = 0) ∧
      ¬ StoredInside (oneEntry 2 30) starting (longArg 129) locals := by
  intro locals
  have hname : namedTail CMD_NAME = 97 := by decide +kernel
  have hend : storeArg (longArg 129) namedTail (parseWord (longArg 129) fun _ => 0).2 CMD_NAME = 0 := by
    decide +kernel
  have hexecutes : (sys_execute (oneEntry 2 30) starting (longArg 129) locals).any
      (fun (outcome, k') => outcome = .entered 0 ∧ (k'.pcbs k'.cur_pcb).tail CMD_NAME = 0) = true := by
    decide +kernel
  obtain ⟨⟨outcome, k'⟩, hexecute, hresult⟩ := (Option.any_eq_true _ _).mp hexecutes
  obtain ⟨rfl, hbyte⟩ := of_decide_eq_true hresult
  have hstores : Stores (oneEntry 2 30) starting (longArg 129) locals := by
    have hroom : our_popcount starting.pcb_status ≠ MAX_PROCESSES := by decide +kernel
    have hknown : (cmd_dentry (oneEntry 2 30) locals (longArg 129)).isSome := by decide +kernel
    exact ⟨hroom, Option.isSome_iff_ne_none.mp hknown⟩
  refine ⟨hname, hend, ⟨0, k', hexecute, hbyte⟩, fun hinside => ?_⟩
  have hkept := hinside.arg hstores namedTail CMD_NAME (by decide)
  rw [hend, hname] at hkept
  exact absurd hkept (by decide)

end lacos.syscalls
