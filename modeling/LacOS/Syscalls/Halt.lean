import LacOS.Syscalls.Execute

open memory lacos.lib lacos.file_system lacos.paging lacos.pcb

namespace lacos.syscalls

/-- How `sys_halt` ends: in the `sys_execute` that saved the parent's stack pointers,
    or as the `sys_execute` of a new shell ends. -/
inductive Halted where
  | resumed (frame : Frame) (value : Int)
  | restarted (outcome : Outcome)

/-- The end of `sys_execute` from the label `we_are_done` on. -/
def we_are_done (k : Kernel) (ret_val : Int) : Int × Kernel :=
  if k.except_raised then (256, sti { k with except_raised := false }) else (ret_val, sti k)

/-- The page the halting process leaves behind at `PROGRAM_VIRT`. -/
def haltPage (k : Kernel) (cur : pcb_t) : UInt32 :=
  if cur.parent_task ≠ NULL then (k.pcbs cur.parent_task).page_addr
  else PROGRAM_1_PHYS + cur.term_num.toUInt32 * FOUR_MB

/-- `offset`, which `sys_halt` computes before anything else. -/
def haltOffset (cur_pcb : UInt32) : UInt32 := (END_OF_KERNEL_PAGE - cur_pcb) / PCB_PLUS_STACK

/-- The statements of `sys_halt` up to the one that makes ready to go on in the parent or
    in a new shell. Interrupts are enabled between them. -/
inductive HaltStatement where
  | map_page
  | pcb_status
  | close_pcb
  | cur_task
  | cur_pcb
  | restore
  deriving DecidableEq

def HaltStatement.exec (offset : UInt32) (k : Kernel) : HaltStatement → Kernel
  | .map_page => mapProgram k (haltPage k (k.pcbs k.cur_pcb))
  | .pcb_status => { k with pcb_status := k.pcb_status &&& ~~~(1 <<< (offset - 1)) }
  | .close_pcb => (pcb.close_pcb k k.cur_pcb).2
  | .cur_task =>
    let t := k.sched_term_id
    k.onConsole fun con => con.setTerm t { con.terminals t with cur_task := (k.pcbs k.cur_pcb).parent_task }
  | .cur_pcb => { k with cur_pcb := (k.pcbs k.cur_pcb).parent_task }
  | .restore =>
    if k.cur_pcb ≠ NULL then { k with tss_esp0 := (k.pcbs k.cur_pcb).esp0 } else { k with starting_new_shell := true }

/-- The statements that read through `cur_pcb`. `close_pcb` looks at its argument first. -/
def HaltStatement.dereferences : HaltStatement → Bool
  | .map_page | .cur_task | .cur_pcb => true
  | .pcb_status | .close_pcb | .restore => false

/-- The statements that free the slot and the descriptors of the halting process and go
    back to its parent. -/
def releaseStatements : List HaltStatement := [.map_page, .pcb_status, .close_pcb, .cur_task, .cur_pcb]

def haltStatements : List HaltStatement := releaseStatements ++ [.restore]

/-- The kernel once they have all been executed. -/
def haltDone (k : Kernel) : Kernel := haltStatements.foldl (HaltStatement.exec (haltOffset k.cur_pcb)) k

/-- `sys_halt`, taken as a whole. There is no result without a current process, or if its
    parent has no saved stack pointers to go back to. If the new shell does not start, the
    call returns to the halted process. -/
def sys_halt (fs : Image) (k : Kernel) (status : UInt8) (locals : Locals) : Option (Halted × Kernel) :=
  if k.cur_pcb = NULL then none
  else
    let k := haltDone k
    if k.cur_pcb ≠ NULL then
      (k.pcbs k.cur_pcb).esp.map fun frame =>
        let (value, k) := we_are_done k status.toNat
        (.resumed frame value, { k with running := frame.caller })
    else (sys_execute fs k shell locals).map fun (outcome, k) => (.restarted outcome, k)

end lacos.syscalls
