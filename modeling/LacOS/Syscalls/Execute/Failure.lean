import LacOS.Base.Run
import LacOS.Lib.Frame
import LacOS.Syscalls.Execute.Create

open memory lacos.lib lacos.file_system lacos.paging lacos.pcb trace

namespace lacos.syscalls

/-- What the kernel knows about its processes besides their blocks. `page` is the
    directory entry of the page at `PROGRAM_VIRT`. -/
@[ext] structure ProcessTable where
  pcb_status : UInt32
  cur_pcb : UInt32
  cur_task : Fin MAX_TERM_NUM → UInt32
  numproc : UInt32
  page : UInt32
  tss_esp0 : UInt32

def processTable (k : Kernel) : ProcessTable where
  pcb_status := k.pcb_status
  cur_pcb := k.cur_pcb
  cur_task t := (k.terminals t).cur_task
  numproc := k.numproc
  page := k.page_directory (PROGRAM_VIRT >>> SHIFT_FOR_DIRENTRY)
  tss_esp0 := k.tss_esp0

/-- The command names a file that is not an executable, and a slot is taken for it. -/
def Leaks (fs : Image) (k : Kernel) (command : CString) (locals : Locals) : Prop :=
  our_popcount k.pcb_status ≠ MAX_PROCESSES ∧ k.pcb_status ≠ 0xFFFFFFFF ∧ (commandArg command).length < BLOCK_END ∧
    (cmd_dentry fs locals command).any (fun dentry => !isElf fs locals dentry.inode_num) = true

instance (fs : Image) (k : Kernel) (command : CString) (locals : Locals) : Decidable (Leaks fs k command locals) := by
  unfold Leaks
  infer_instance

section Failure

variable {fs : Image} {k : Kernel} {command : CString} {locals : Locals}

/-- From the switch to the child on nothing fails: the only way out is into the new process. -/
theorem runChild_entered {inode new_pcb : UInt32} {outcome : Outcome} {k' : Kernel}
    (hrun : runChild fs k locals inode new_pcb = some (outcome, k')) : ∃ entry, outcome = .entered entry := by
  simp only [runChild] at hrun
  obtain ⟨k₁, -, hout⟩ := Option.map_eq_some_iff.mp hrun
  exact ⟨_, (Prod.mk.inj hout).1.symm⟩

/-- Past its checks `sys_execute` does not return. -/
theorem startProcess_entered {inode new_pcb : UInt32} {outcome : Outcome} {k' : Kernel}
    (hstart : startProcess fs k locals inode new_pcb = some (outcome, k')) : ∃ entry, outcome = .entered entry := by
  simp only [startProcess, linkProcess] at hstart
  obtain ⟨k₁, -, hrun⟩ := Option.bind_eq_some_iff.mp hstart
  exact runChild_entered hrun

/-- The slot that is taken stays taken. -/
theorem sys_execute_leaks (hleaks : Leaks fs k command locals) :
    ∃ k', sys_execute fs k command locals = some (.returned (-1), k') ∧
      k'.pcb_status = (find_empty_pcb k.pcb_status).2 := by
  obtain ⟨hroom, -, hfits, hfile⟩ := hleaks
  obtain ⟨dentry, hdentry, hnot⟩ := (Option.any_eq_true _ _).mp hfile
  obtain ⟨k', hcreate, hcreated⟩ := createPcb_spec (cli k) locals command
  refine ⟨sti k', ?_, hcreated.pcb_status⟩
  have hroom' : ¬ our_popcount (cli k).pcb_status = MAX_PROCESSES := hroom
  have hfits' : ¬ (commandArg command).length ≥ BLOCK_END := by omega
  have helf : isElf fs locals dentry.inode_num = false := by simpa using hnot
  simp only [sys_execute, if_neg hroom', hdentry, if_neg hfits', hcreate, helf]
  rfl

/-- Any other failure leaves the table alone. -/
theorem sys_execute_failed (hleaks : ¬ Leaks fs k command locals) {k' : Kernel}
    (hfailed : sys_execute fs k command locals = some (.returned (-1), k')) : processTable k' = processTable k := by
  simp only [sys_execute] at hfailed
  split at hfailed
  · obtain ⟨hvalue, -⟩ := Prod.mk.inj (Option.some.inj hfailed)
    injection hvalue with hvalue
    exact absurd hvalue (by decide)
  · rename_i hroom
    cases hdentry : cmd_dentry fs locals command with
    | none =>
      rw [hdentry] at hfailed
      obtain ⟨-, rfl⟩ := Prod.mk.inj (Option.some.inj hfailed)
      rfl
    | some dentry =>
      rw [hdentry] at hfailed
      obtain ⟨k₁, hcreate, hcreated⟩ := createPcb_spec (cli k) locals command
      simp only [hcreate] at hfailed
      split at hfailed
      · cases hfailed
      · rename_i hfits
        split at hfailed
        · obtain ⟨entry, hentry⟩ := startProcess_entered hfailed
          cases hentry
        · rename_i helf
          obtain ⟨-, rfl⟩ := Prod.mk.inj (Option.some.inj hfailed)
          -- Only a table that is full beyond its six slots is left as it is.
          have hfull : k.pcb_status = 0xFFFFFFFF := by
            by_contra hfree
            exact hleaks ⟨hroom, hfree, by omega, by simpa [hdentry] using helf⟩
          have hsame : (find_empty_pcb k.pcb_status).2 = k.pcb_status := (find_empty_pcb_same_iff _).mpr hfull
          have hconsole : (sti k₁).toConsole = k.toConsole := hcreated.console
          have hpaging : (sti k₁).toPaging = k.toPaging := hcreated.paging
          apply ProcessTable.ext
          · exact hcreated.pcb_status.trans hsame
          · exact hcreated.cur_pcb
          · funext t
            simp only [processTable, hconsole]
          · exact hcreated.numproc
          · simp only [processTable, hpaging]
          · exact hcreated.tss_esp0

end Failure

/-- The kernel after a call that returned -1. -/
def failure : Outcome × Kernel → Option Kernel
  | (.returned value, k) => if value = -1 then some k else none
  | (.entered _, _) => none

/-- A `sys_execute` that returns -1. -/
def failedExecute (fs : Image) (k : Kernel) (call : CString × Locals) : Option Kernel :=
  (sys_execute fs k call.1 call.2).bind failure

/-- A failed call is one that has returned -1. -/
theorem failedExecute_eq_some {fs : Image} {k k' : Kernel} {call : CString × Locals}
    (hfailed : failedExecute fs k call = some k') : sys_execute fs k call.1 call.2 = some (.returned (-1), k') := by
  obtain ⟨⟨outcome, k₁⟩, hexecute, hfailure⟩ := Option.bind_eq_some_iff.mp hfailed
  cases outcome with
  | returned value =>
    simp only [failure] at hfailure
    split at hfailure
    · rename_i hvalue
      cases hfailure
      rw [hexecute, hvalue]
    · cases hfailure
  | entered entry => cases hfailure

/-- An image with one file, called `a`, of five bytes that are no executable. -/
def text_file : Image where
  bytes a :=
    if a = 0 ∨ a = 4 ∨ a = 8 then 1
    else if a = 64 then 0x61
    else if a = 96 then 2
    else if a = 4096 then 5
    else if 8192 ≤ a ∧ a < 8197 then (a - 8191).toUInt8
    else 0

end lacos.syscalls
