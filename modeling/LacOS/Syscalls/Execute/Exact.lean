import LacOS.FileSystem.NameLookup
import LacOS.Syscalls.Execute.Failure
import LacOS.Syscalls.Execute.Header
import LacOS.Syscalls.Execute.Parse

open memory lacos.lib lacos.file_system lacos.pcb

namespace lacos.syscalls

/-- The whole first word of a command, of whatever length. -/
def firstWord (command : CString) : List UInt8 := (skipSpaces command.chars).takeWhile (· ≠ 0x20)

/-- Some directory entry has the name. -/
def IsName (fs : Image) (name : List UInt8) : Prop := ∃ i < fs.numEntries, fs.name (UInt32.ofNat i) = name

/-- A command whose first word is not the name of an entry is refused with -1, and so no
    process is started. -/
def RunsExact (fs : Image) (k : Kernel) (command : CString) (locals : Locals) : Prop :=
  (∀ entry k', sys_execute fs k command locals = some (.entered entry, k') → IsName fs (firstWord command)) ∧
    (¬ IsName fs (firstWord command) → ∃ k', sys_execute fs k command locals = some (.returned (-1), k'))

/-- The verdict is how `sys_execute` ends, when it does. -/
theorem verdict_eq_some {fs : Image} {k : Kernel} {command : CString} {locals : Locals} {outcome : Outcome} :
    verdict fs k command locals = some outcome ↔ ∃ k', sys_execute fs k command locals = some (outcome, k') := by
  rw [verdict, Option.map_eq_some_iff]
  constructor
  · rintro ⟨⟨_, k'⟩, hexecute, rfl⟩
    exact ⟨k', hexecute⟩
  · rintro ⟨k', hexecute⟩
    exact ⟨_, hexecute, rfl⟩

section Exact

variable (fs : Image) (k : Kernel) (command : CString) (locals : Locals)

theorem commandWord_eq_take : commandWord command = (firstWord command).take cmd_buf_size := rfl

/-- `cmd` holds the word with a terminator, whatever the stack held before. -/
theorem isText_cmd : IsText (cmd locals command) 0 (commandWord command) := by
  have hlength := commandWord_length_le command
  simp only [cmd_buf_size] at hlength
  exact isText_writeString locals.cmd 0 (by omega)

/-- `sys_execute` looks up the first 32 characters of the word. -/
theorem cmd_dentry_cases :
    (∃ i, fs.First (commandWord command) i ∧ cmd_dentry fs locals command = some (fs.dentry (UInt32.ofNat i))) ∨
      ¬ IsName fs (commandWord command) ∧ cmd_dentry fs locals command = none := by
  obtain ⟨i, hfirst, -, hread⟩ | ⟨hnone, -, hread⟩ := read_dentry_by_name_cases fs (isText_cmd command locals)
    (zero_notMem_commandWord command) (fun _ => 0) 0
  · exact .inl ⟨i, hfirst, hread⟩
  · refine .inr ⟨?_, hread⟩
    rintro ⟨i, hi, hname⟩
    exact hnone i hi hname

variable {fs k command locals}

/-- What is left once a file has been found for the word: it is an executable, or it is
    refused. -/
theorem verdict_found (hroom : our_popcount k.pcb_status ≠ MAX_PROCESSES) {dentry : dentry_t}
    (hdentry : cmd_dentry fs locals command = some dentry) :
    verdict fs k command locals = some (.returned (-1)) ↔
      isElf fs locals dentry.inode_num = false ∧ (commandArg command).length < BLOCK_END := by
  have hroom' : ¬ our_popcount (cli k).pcb_status = MAX_PROCESSES := hroom
  obtain ⟨created, hcreate, -⟩ := createPcb_spec (cli k) locals command
  simp only [verdict, sys_execute, if_neg hroom', hdentry, hcreate]
  by_cases hfits : (commandArg command).length < BLOCK_END
  · rw [if_neg (Nat.not_le.mpr hfits)]
    cases helf : isElf fs locals dentry.inode_num with
    | false => exact iff_of_true rfl ⟨rfl, hfits⟩
    | true =>
      refine iff_of_false (fun hreturned => ?_) fun h => absurd h.1 (by decide)
      obtain ⟨⟨outcome, k'⟩, hstart, houtcome⟩ := Option.map_eq_some_iff.mp hreturned
      obtain ⟨entry, hentry⟩ := startProcess_entered hstart
      rw [hentry] at houtcome
      cases houtcome
  · rw [if_pos (Nat.not_lt.mp hfits)]
    exact iff_of_false (fun h => by cases h) fun h => hfits h.2

end Exact

/-- A command is run only under its exact name, and refused with -1 otherwise, exactly if its
    first word is a name, or there is room for a process and no executable is called like the
    first 32 characters of the word. Neither the image nor the kernel nor the stack is restricted.
    -/
theorem runs_exact_iff (fs : Image) (k : Kernel) (command : CString) (locals : Locals) :
    RunsExact fs k command locals ↔ IsName fs (firstWord command) ∨
      our_popcount k.pcb_status ≠ MAX_PROCESSES ∧
        ∀ i, fs.First ((firstWord command).take cmd_buf_size) i →
          isElf fs locals (fs.dentry (UInt32.ofNat i)).inode_num = false ∧
            (commandArg command).length < BLOCK_END := by
  by_cases hname : IsName fs (firstWord command)
  · exact iff_of_true ⟨fun _ _ _ => hname, fun hnot => absurd hname hnot⟩ (.inl hname)
  have hexact : RunsExact fs k command locals ↔ verdict fs k command locals = some (.returned (-1)) := by
    rw [verdict_eq_some]
    refine ⟨fun hruns => hruns.2 hname, fun hreturned => ⟨fun entry k' hentered => ?_, fun _ => hreturned⟩⟩
    obtain ⟨k'', hreturned⟩ := hreturned
    rw [hreturned] at hentered
    cases hentered
  rw [hexact, or_iff_right hname, ← commandWord_eq_take]
  by_cases hroom : our_popcount k.pcb_status = MAX_PROCESSES
  · refine iff_of_false (fun hreturned => ?_) fun h => h.1 hroom
    rw [verdict_full hroom] at hreturned
    exact absurd hreturned (by decide)
  rw [and_iff_right hroom]
  obtain ⟨i, hfirst, hdentry⟩ | ⟨hnone, hdentry⟩ := cmd_dentry_cases fs command locals
  · rw [verdict_found hroom hdentry]
    refine ⟨fun h j hj => ?_, fun h => h i hfirst⟩
    rwa [hj.unique hfirst]
  · refine iff_of_true (verdict_noEntry hroom hdentry) fun i hfirst => ?_
    exact absurd ⟨i, hfirst.lt, hfirst.name_eq⟩ hnone

/-- An image with one executable, whose name has 32 characters. -/
def longestName : Image where
  bytes a :=
    if a = 0 ∨ a = 4 ∨ a = 8 then 1 else if 64 ≤ a ∧ a < 96 then 97 else if a = 96 then 2
    else if a = 4096 then 30 else magic (a - 8192)

/-- A word of 33 characters runs the program that is called like the first 32. -/
theorem longer_word_runs :
    let command : CString := ⟨List.replicate 33 97, by decide⟩
    (∃ entry k', sys_execute longestName starting command ⟨fun _ => 0, fun _ => 0⟩ = some (.entered entry, k')) ∧
      ¬ IsName longestName (firstWord command) ∧
      ¬ RunsExact longestName starting command ⟨fun _ => 0, fun _ => 0⟩ := by
  intro command
  have hverdict : verdict longestName starting command ⟨fun _ => 0, fun _ => 0⟩ = some (.entered 0) := by
    decide +kernel
  obtain ⟨k', hexecute⟩ := verdict_eq_some.mp hverdict
  have hname : ¬ IsName longestName (firstWord command) := by
    rintro ⟨i, -, hi⟩
    have hlength := longestName.name_length_le (UInt32.ofNat i)
    rw [hi] at hlength
    exact absurd hlength (by decide)
  exact ⟨⟨0, k', hexecute⟩, hname, fun hexact => hname (hexact.1 0 k' hexecute)⟩

end lacos.syscalls
