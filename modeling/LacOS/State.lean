import LacOS.Base.Memory
import LacOS.Types

open memory

namespace lacos

/-- A process, told apart from every other that ever used its slot: `pid` is a
    `uint32_t` and wraps, the number here does not. -/
structure Process where
  id : Nat
  pcb : UInt32
  deriving DecidableEq

/-- What a saved `esp`/`ebp` pair, or the processor itself, is in the middle of. -/
inductive Context where
  | null
  | entry
  | process (p : Process)
  deriving DecidableEq

/-- An activation of `sys_execute` that has entered its child: the saved stack
    pointers of the calling task point at it. -/
structure Frame where
  caller : Context
  child : Process
  deriving DecidableEq

inductive status_t where
  | NOT_USED
  | IN_USE
  deriving DecidableEq

/-- The jump tables a descriptor can point to, by the name of the table. -/
inductive f_ops_table where
  | empty_f_ops_tab
  | stdin
  | stdout
  | rtc_jt
  | dir_jt
  | regf_jt
  deriving DecidableEq

structure fdesc_t where
  file_ops : f_ops_table
  inode : UInt32
  file_pos : UInt32
  flags : status_t
  deriving DecidableEq

abbrev MAX_DESC : Nat := 8

instance : NeZero MAX_DESC := ⟨by decide⟩

/-- `esp` stands for the saved `esp` and `ebp`. `tail` is what the block holds
    from `arg` on: `arg`, then `cmd_name`, then the process's kernel stack. -/
structure pcb_t where
  io_files : Fin MAX_DESC → fdesc_t
  esp : Option Frame
  esp0 : UInt32
  page_addr : UInt32
  parent_task : UInt32
  fd_status : UInt32
  term_num : UInt8
  pid : UInt32
  pcb_num : UInt32
  tail : Mem

/-- `esp` stands for the saved `esp` and `ebp`. The ten commands of `hist_buf`
    lie one after the other. -/
@[ext] structure term_t where
  term_id : UInt8
  curs_r : UInt8
  curs_c : UInt8
  scrn_c : UInt8
  scrn_r : UInt8
  vid_mem : UInt32
  key_buf : Fin KEY_BUF_SIZE → UInt8
  key_buf_index : UInt32
  new_line : Bool
  hist_buf : Fin (10 * KEY_BUF_SIZE) → UInt8
  hist_buf_index : UInt32
  cur_hist_index : UInt32
  esp : Context
  cur_task : UInt32

/-- The globals of `lib.c` with the screen hardware behind them: video memory
    and the VGA index and data registers. `around` is the memory on both sides
    of the `terminals` array, by offset from its start. -/
@[ext] structure Console where
  terminals : Fin MAX_TERM_NUM → term_t
  around : Mem
  vis_term_id : Fin MAX_TERM_NUM
  sched_term_id : Fin MAX_TERM_NUM
  fg_color : UInt8
  bg_color : UInt8
  color : UInt8
  video : Mem
  vga_index : UInt8
  vga_reg : UInt8 → UInt8

/-- The globals of `keyboard.c`. -/
structure Keyboard where
  ctrl : Bool
  alt : Bool
  caps_lock : Bool
  l_shift : Bool
  r_shift : Bool
  rtc_loop : Bool

/-- The globals of `rtc.c` and the CMOS registers. -/
structure Rtc where
  rtc_freq : UInt32
  intr_occured : Bool
  cmos_index : UInt8
  cmos_reg : UInt8 → UInt8

/-- The globals of `pcb.c` and `syscalls.c`, with `esp0` of the TSS and the
    process control blocks by address. `running` is what the processor executes
    outside the kernel, `next_id` the number of the next process. -/
structure Tasks where
  pcb_status : UInt32
  pcbs : UInt32 → pcb_t
  cur_pcb : UInt32
  numproc : UInt32
  except_raised : Bool
  starting_new_shell : Bool
  tss_esp0 : UInt32
  running : Context
  next_id : Nat

/-- The page directory by index, the page tables as words of physical memory,
    and the contents of the program pages by frame and virtual address. -/
structure Paging where
  page_directory : UInt32 → UInt32
  page_tables : UInt32 → UInt32
  pages : UInt32 → Mem

structure Kernel extends Console, Keyboard, Rtc, Tasks, Paging where
  interrupts : Bool

/-- A machine whose memory and registers are all zero. -/
def blankMachine : Kernel where
  terminals _ :=
    { term_id := 0, curs_r := 0, curs_c := 0, scrn_c := 0, scrn_r := 0, vid_mem := 0, key_buf := fun _ => 0,
      key_buf_index := 0, new_line := false, hist_buf := fun _ => 0, hist_buf_index := 0, cur_hist_index := 0,
      esp := .null, cur_task := 0 }
  around _ := 0
  vis_term_id := 0
  sched_term_id := 0
  fg_color := 0
  bg_color := 0
  color := 0
  video _ := 0
  vga_index := 0
  vga_reg _ := 0
  ctrl := false
  alt := false
  caps_lock := false
  l_shift := false
  r_shift := false
  rtc_loop := false
  rtc_freq := 0
  intr_occured := false
  cmos_index := 0
  cmos_reg _ := 0
  pcb_status := 0
  pcbs _ :=
    { io_files := fun _ => { file_ops := .empty_f_ops_tab, inode := 0, file_pos := 0, flags := .NOT_USED }
      esp := none, esp0 := 0, page_addr := 0, parent_task := 0, fd_status := 0, term_num := 0, pid := 0,
      pcb_num := 0, tail := fun _ => 0 }
  cur_pcb := 0
  numproc := 0
  except_raised := false
  starting_new_shell := false
  tss_esp0 := 0
  running := .null
  next_id := 0
  page_directory _ := 0
  page_tables _ := 0
  pages _ _ := 0
  interrupts := false

def Console.setTerm (con : Console) (t : Fin MAX_TERM_NUM) (term : term_t) : Console :=
  { con with terminals := Function.update con.terminals t term }

section SetTerm

variable (con : Console) (t : Fin MAX_TERM_NUM) (term : term_t)

@[simp] theorem Console.setTerm_same : (con.setTerm t term).terminals t = term := by
  simp [Console.setTerm]

/-- Setting one terminal leaves the others alone. -/
theorem Console.setTerm_other {u : Fin MAX_TERM_NUM} (hne : u ≠ t) :
    (con.setTerm t term).terminals u = con.terminals u := by
  simp [Console.setTerm, hne]

@[simp] theorem Console.setTerm_setTerm (other : term_t) :
    (con.setTerm t term).setTerm t other = con.setTerm t other := by
  simp [Console.setTerm]

@[simp] theorem Console.setTerm_self : con.setTerm t (con.terminals t) = con := by
  simp [Console.setTerm]

@[simp] theorem Console.setTerm_video : (con.setTerm t term).video = con.video := rfl

@[simp] theorem Console.setTerm_vis_term_id : (con.setTerm t term).vis_term_id = con.vis_term_id := rfl

@[simp] theorem Console.setTerm_sched_term_id : (con.setTerm t term).sched_term_id = con.sched_term_id := rfl

@[simp] theorem Console.setTerm_color : (con.setTerm t term).color = con.color := rfl

end SetTerm

section UpdateTask

variable (terminals : Fin MAX_TERM_NUM → term_t) (t u : Fin MAX_TERM_NUM) (cur_task : UInt32)

/-- Another current task leaves the rest of every terminal as it is. -/
theorem update_task_vid_mem :
    (Function.update terminals t { terminals t with cur_task } u).vid_mem = (terminals u).vid_mem := by
  by_cases hu : u = t
  · rw [hu, Function.update_self]
  · rw [Function.update_of_ne hu]

/-- Giving a terminal another task does not touch the stack pointers that are saved with it. -/
theorem update_task_esp :
    (Function.update terminals t { terminals t with cur_task } u).esp = (terminals u).esp := by
  by_cases hu : u = t
  · rw [hu, Function.update_self]
  · rw [Function.update_of_ne hu]

theorem update_task_cur_task : (Function.update terminals t { terminals t with cur_task } u).cur_task =
    if u = t then cur_task else (terminals u).cur_task := by
  by_cases hu : u = t
  · rw [hu, Function.update_self, if_pos rfl]
  · rw [Function.update_of_ne hu, if_neg hu]

end UpdateTask

/-- Run a function of `lib.c` inside the kernel. -/
def Kernel.onConsole (k : Kernel) (f : Console → Console) : Kernel :=
  { k with toConsole := f k.toConsole }

def Kernel.setPcb (k : Kernel) (p : UInt32) (blk : pcb_t) : Kernel :=
  { k with pcbs := Function.update k.pcbs p blk }

def cli (k : Kernel) : Kernel := { k with interrupts := false }

def sti (k : Kernel) : Kernel := { k with interrupts := true }

@[simp] theorem Kernel.onConsole_toConsole (k : Kernel) (f : Console → Console) :
    (k.onConsole f).toConsole = f k.toConsole := rfl

@[simp] theorem Kernel.onConsole_toKeyboard (k : Kernel) (f : Console → Console) :
    (k.onConsole f).toKeyboard = k.toKeyboard := rfl

@[simp] theorem Kernel.onConsole_toTasks (k : Kernel) (f : Console → Console) :
    (k.onConsole f).toTasks = k.toTasks := rfl

@[simp] theorem cli_cli (k : Kernel) : cli (cli k) = cli k := rfl

@[simp] theorem cli_toConsole (k : Kernel) : (cli k).toConsole = k.toConsole := rfl

@[simp] theorem cli_toKeyboard (k : Kernel) : (cli k).toKeyboard = k.toKeyboard := rfl

@[simp] theorem cli_toTasks (k : Kernel) : (cli k).toTasks = k.toTasks := rfl

@[simp] theorem cli_toPaging (k : Kernel) : (cli k).toPaging = k.toPaging := rfl

@[simp] theorem sti_toConsole (k : Kernel) : (sti k).toConsole = k.toConsole := rfl

@[simp] theorem sti_toKeyboard (k : Kernel) : (sti k).toKeyboard = k.toKeyboard := rfl

@[simp] theorem sti_toTasks (k : Kernel) : (sti k).toTasks = k.toTasks := rfl

@[simp] theorem sti_toPaging (k : Kernel) : (sti k).toPaging = k.toPaging := rfl

end lacos
