import LacOS.FileSystem.Image
import LacOS.MultiTerm
import LacOS.Paging

open memory lacos.lib lacos.file_system lacos.paging lacos.multi_term

namespace lacos

/-- The kernel as it is loaded: the variables have their initial values, the rest of
    memory and the devices are as the machine has them. -/
def load (machine : Kernel) : Kernel :=
  { machine with
    terminals := fun i =>
      { machine.terminals i with
        key_buf := fun _ => 0, key_buf_index := 0, new_line := false, hist_buf := fun _ => 0, hist_buf_index := 0
        cur_hist_index := 0, esp := .null, cur_task := NULL }
    vis_term_id := 0
    sched_term_id := 0
    fg_color := 7
    bg_color := 0
    color := 0x7
    ctrl := false
    alt := false
    caps_lock := false
    l_shift := false
    r_shift := false
    rtc_freq := 0x400
    intr_occured := false
    pcb_status := 0
    cur_pcb := NULL
    numproc := 0
    except_raised := false
    starting_new_shell := false
    running := .entry
    next_id := 0 }

/-- `entry` from the set-up of the TSS to its `sti`, after the devices are set up.
    What it prints before is in the screen and the positions of the machine. -/
def entry (machine : Kernel) : Kernel :=
  let k := load machine
  let k := { k with tss_esp0 := 0x800000, toPaging := paging_init k.toPaging }
  let k := k.onConsole clear_screen
  let k := k.onConsole (set_color · 3 0)
  let k := multi_term_init k
  let k := k.onConsole (puts_color · 0 (chars "testing\n".toList) 3 4)
  sti k

/-- An image with one file: the executable `shell`, of 40 bytes. -/
def shellImage : Image where
  bytes a :=
    if a = 0 ∨ a = 4 ∨ a = 8 then 1
    else if 64 ≤ a ∧ a < 69 then (chars "shell".toList).getD (a - 64).toNat 0
    else if a = 96 then 2
    else if a = 4096 then 40
    else if 8192 ≤ a ∧ a < 8196 then [0x7F, 0x45, 0x4C, 0x46].getD (a - 8192).toNat 0
    else 0

end lacos
