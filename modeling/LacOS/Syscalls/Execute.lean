import LacOS.FileSystem.ReadData
import LacOS.Lib.Printf
import LacOS.Paging
import LacOS.Pcb

open memory lacos.lib lacos.file_system lacos.paging lacos.pcb

namespace lacos

/-- A string in the memory of a process or of the kernel. -/
structure CString where
  chars : List UInt8
  nonzero : 0 ∉ chars

/-- The string `s`, then a zero, at an address. -/
def writeString (m : Mem) (d : UInt32) (s : List UInt8) : Mem :=
  fillWith m d (fun i => (s ++ [0]).getD i 0) (s.length + 1)

namespace syscalls

abbrev FILE_H_SIZE : UInt32 := 30
abbrev PROGRAM_1_PHYS : UInt32 := 0x800000
abbrev PROGRAM_VIRT : UInt32 := 0x8000000
abbrev PROGRAM_VIRT_OFF : UInt32 := 0x48000
abbrev cmd_buf_size : Nat := 32

/-- Where `cmd_name` starts in `tail`, and where the block ends. -/
abbrev CMD_NAME : UInt32 := 129
abbrev BLOCK_END : Nat := 8028

def shell : CString := ⟨chars "shell".toList, by decide⟩

/-- What the arrays on the stack of `sys_execute` hold before it writes to them. -/
structure Locals where
  cmd : Mem
  file_data : Mem

/-- The command without the spaces in front. -/
def skipSpaces (s : List UInt8) : List UInt8 := s.dropWhile (· = 0x20)

/-- The characters copied to `cmd`. -/
def commandWord (command : CString) : List UInt8 :=
  ((skipSpaces command.chars).takeWhile (· ≠ 0x20)).take cmd_buf_size

/-- The characters copied to `arg`: what follows the first word, or its first 32
    characters. -/
def commandArg (command : CString) : List UInt8 :=
  skipSpaces ((skipSpaces command.chars).drop (commandWord command).length)

/-- `cmd` once the word is in it. -/
def cmd (locals : Locals) (command : CString) : Mem :=
  writeString locals.cmd 0 (commandWord command)

/-- The directory entry of the command. -/
def cmd_dentry (fs : Image) (locals : Locals) (command : CString) : Option dentry_t :=
  fs.namedDentry (cmd locals command) 0

/-- `file_data` once the header of the file has been read into it. -/
def file_data (fs : Image) (locals : Locals) (inode : UInt32) : Mem :=
  (read_data fs inode 0 locals.file_data 0 FILE_H_SIZE).2

def magic : Mem := fun a => [0x7F, 0x45, 0x4C, 0x46].getD a.toNat 0

/-- The first four bytes are those of an executable. -/
def isElf (fs : Image) (locals : Locals) (inode : UInt32) : Bool :=
  strncmp (file_data fs locals inode) 0 magic 0 4 = 0

/-- How `sys_execute` ends: it returns, or a new process starts at `entry`. -/
inductive Outcome where
  | returned (value : Int)
  | entered (entry : UInt32)

/-- The new block with the name and the argument of the command. -/
def storeCommand (blk : pcb_t) (locals : Locals) (command : CString) : pcb_t :=
  let tail := memset blk.tail CMD_NAME 0 (UInt32.ofNat (cmd_buf_size + 1))
  let tail := memcpy_from tail CMD_NAME (cmd locals command) 0 (UInt32.ofNat (cmd_buf_size + 1))
  { blk with tail := writeString tail 0 (commandArg command) }

/-- A new block for the command. -/
def createPcb (k : Kernel) (locals : Locals) (command : CString) : UInt32 × Kernel :=
  let (new_pcb, k) := init_pcb k
  (new_pcb, k.setPcb new_pcb (storeCommand (k.pcbs new_pcb) locals command))

/-- The page of the process whose block has a given number, and the top of its kernel stack. -/
def pageOfNum (pcb_num : UInt32) : UInt32 := PROGRAM_1_PHYS + pcb_num * FOUR_MB

def esp0OfNum (pcb_num : UInt32) : UInt32 := END_OF_KERNEL_PAGE - pcb_num * PCB_PLUS_STACK - 4

/-- Map a process's page to `PROGRAM_VIRT`. -/
def mapProgram (k : Kernel) (page_addr : UInt32) : Kernel :=
  { k with toPaging := (map_page k.toPaging page_addr PROGRAM_VIRT true true true true).2 }

@[simp] theorem mapProgram_toConsole (k : Kernel) (page_addr : UInt32) :
    (mapProgram k page_addr).toConsole = k.toConsole := rfl

@[simp] theorem mapProgram_toTasks (k : Kernel) (page_addr : UInt32) :
    (mapProgram k page_addr).toTasks = k.toTasks := rfl

/-- The numbers and the kernel stack of the new process, whose page is mapped. -/
def setUpBlock (k : Kernel) (new_pcb page_addr : UInt32) : Kernel :=
  let blk := k.pcbs new_pcb
  let esp0 := esp0OfNum blk.pcb_num
  let k := k.setPcb new_pcb { blk with page_addr, parent_task := NULL, pid := k.numproc, fd_status := 3, esp0 }
  { k with numproc := k.numproc + 1, tss_esp0 := esp0 }

/-- Make the new process the child of a task on the visible terminal, and save the
    stack pointers in that task. -/
def linkParent (k : Kernel) (new_pcb parent_task : UInt32) : Kernel :=
  let t := k.vis_term_id
  let k := k.setPcb new_pcb { k.pcbs new_pcb with parent_task, term_num := UInt8.ofNat t }
  let frame := { caller := k.running, child := { id := k.next_id, pcb := new_pcb } }
  let k := k.setPcb parent_task { k.pcbs parent_task with esp := some frame }
  k.onConsole fun con => con.setTerm t { con.terminals t with cur_task := new_pcb }

/-- There is no result if the visible terminal has no task: the stack pointers are
    saved through a NULL pointer. -/
def linkChild (k : Kernel) (new_pcb : UInt32) : Option Kernel :=
  let parent_task := (k.terminals k.vis_term_id).cur_task
  if parent_task = NULL then none else some (linkParent k new_pcb parent_task)

/-- Make the new process the first one of the scheduled terminal. -/
def linkShell (k : Kernel) (new_pcb : UInt32) : Kernel :=
  let t := k.sched_term_id
  let k := k.onConsole fun con => con.setTerm t { con.terminals t with cur_task := new_pcb }
  k.setPcb new_pcb { k.pcbs new_pcb with term_num := UInt8.ofNat t }

/-- Load the file into the page at `PROGRAM_VIRT`. -/
def loadProgram (fs : Image) (k : Kernel) (inode : UInt32) : Kernel :=
  let page := resolve_virt_addr k.toPaging PROGRAM_VIRT
  let length := fs.word ((inode + 1) * BLK_SIZE_UINTS)
  let program := (read_data fs inode 0 (k.pages page) (PROGRAM_VIRT + PROGRAM_VIRT_OFF) length).2
  { k with pages := Function.update k.pages page program }

/-- The `iret` to a new process, with the interrupt flag set. -/
def enterProcess (k : Kernel) (new_pcb : UInt32) : Kernel :=
  sti { k with running := .process { id := k.next_id, pcb := new_pcb }, next_id := k.next_id + 1 }

/-- `sys_execute` from the switch to the child task on. -/
def runChild (fs : Image) (k : Kernel) (locals : Locals) (inode new_pcb : UInt32) : Option (Outcome × Kernel) :=
  let k := { k with cur_pcb := new_pcb }
  (terminal.terminal_open fs k).map fun k =>
    let entry := load32 (file_data fs locals inode) 24
    (.entered entry, enterProcess (loadProgram fs k inode) new_pcb)

/-- `sys_execute` once the new process's page is mapped. -/
def linkProcess (fs : Image) (k : Kernel) (locals : Locals) (inode new_pcb page_addr : UInt32) :
    Option (Outcome × Kernel) :=
  let k := setUpBlock k new_pcb page_addr
  let linked := if k.starting_new_shell then some (linkShell k new_pcb) else linkChild k new_pcb
  linked.bind fun k => runChild fs k locals inode new_pcb

/-- The part of `sys_execute` after its checks. -/
def startProcess (fs : Image) (k : Kernel) (locals : Locals) (inode new_pcb : UInt32) : Option (Outcome × Kernel) :=
  let page_addr := pageOfNum (k.pcbs new_pcb).pcb_num
  linkProcess fs (mapProgram k page_addr) locals inode new_pcb page_addr

/-- `sys_execute`. There is no result where the source writes through a NULL pointer
    or past the end of the new block. -/
def sys_execute (fs : Image) (k : Kernel) (command : CString) (locals : Locals) : Option (Outcome × Kernel) :=
  let k := cli k
  if our_popcount k.pcb_status = MAX_PROCESSES then
    some (.returned 0, k.onConsole (printText · (chars "Only 6 tasks are currently supported\n".toList)))
  else
    match cmd_dentry fs locals command with
    | none => some (.returned (-1), sti k)
    | some dentry =>
      if (commandArg command).length ≥ BLOCK_END then none
      else
        let (new_pcb, k) := createPcb k locals command
        if isElf fs locals dentry.inode_num then startProcess fs k locals dentry.inode_num new_pcb
        else some (.returned (-1), sti k)

end syscalls

end lacos
