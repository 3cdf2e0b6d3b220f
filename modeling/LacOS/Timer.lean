import LacOS.Syscalls.Execute

open memory lacos.lib lacos.file_system lacos.paging lacos.syscalls

namespace lacos.timer

/-- Map the video memory of a terminal to the address that `sys_vidmap` gives out. -/
def mapVidmap (k : Kernel) (vid_mem : UInt32) : Kernel :=
  { k with toPaging := (map_page k.toPaging vid_mem VIDMAP_VIRT_ADDR false true true true).2 }

/-- Go on where the task of the scheduled terminal was interrupted. -/
def restoreTask (k : Kernel) : Option Kernel :=
  let saved := (k.terminals k.sched_term_id).esp
  let k := { k with tss_esp0 := (k.pcbs k.cur_pcb).esp0 }
  if saved = .null then none else some { k with running := saved }

/-- Take up the task of the scheduled terminal. -/
def resumeTask (k : Kernel) : Option Kernel :=
  let k := { k with starting_new_shell := false }
  let k := mapProgram k (k.pcbs k.cur_pcb).page_addr
  restoreTask (mapVidmap k (k.terminals k.sched_term_id).vid_mem)

/-- `switch_tasks`. There is no result if the saved stack pointers are NULL. If a
    shell has to be started and does not, the interrupted task goes on. -/
def switch_tasks (fs : Image) (k : Kernel) (new_term_id : Fin MAX_TERM_NUM) (locals : Locals) : Option Kernel :=
  if new_term_id ≠ k.sched_term_id then
    let k := k.onConsole fun con =>
      con.setTerm con.sched_term_id { con.terminals con.sched_term_id with esp := k.running }
    let k := { k with sched_term_id := new_term_id, cur_pcb := (k.terminals new_term_id).cur_task }
    if k.cur_pcb = NULL then
      let k := { k with starting_new_shell := true }
      (sys_execute fs k shell locals).map (·.2)
    else resumeTask k
  else some k

def next_tid (sched_term_id : Fin MAX_TERM_NUM) : Fin MAX_TERM_NUM := sched_term_id + 1

def pit_interrupt (fs : Image) (k : Kernel) (locals : Locals) : Option Kernel :=
  let k := cli k
  (switch_tasks fs k (next_tid k.sched_term_id) locals).map sti

end lacos.timer
