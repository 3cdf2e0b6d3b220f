import LacOS.Syscalls.Slots
import LacOS.System
import LacOS.Timer.Effect

open memory lacos.lib lacos.file_system lacos.paging lacos.pcb lacos.multi_term lacos.syscalls lacos.timer
open lacos.idt_handle

namespace lacos.system

/-- How the event ends the running process, and the stack of the `sys_execute` that may
    follow. -/
def Event.exit : Event → Option (Exit × Locals)
  | .sys_halt status locals => some (.halted status, locals)
  | .exception _ locals => some (.excepted, locals)
  | _ => none

/-- The status that `sys_halt` gets. -/
def Exit.status : Exit → UInt8
  | .halted status => status
  | .excepted => 0

/-- The kernel when `sys_halt` is called: an exception handler prints and sets
    `except_raised` before. -/
structure Ending (k k' : Kernel) (exit : Exit) : Prop where
  prints : Prints k.toConsole k'.toConsole
  tasks : k'.toTasks = { k.toTasks with except_raised := k.except_raised || decide (exit = .excepted) }
  paging : k'.toPaging = k.toPaging

/-- The process that ends is the one that caused the exception. -/
theorem Ending.cur_pcb {k k' : Kernel} {exit : Exit} (hending : Ending k k' exit) : k'.cur_pcb = k.cur_pcb := by
  rw [hending.tasks]

theorem Ending.pcbs {k k' : Kernel} {exit : Exit} (hending : Ending k k' exit) : k'.pcbs = k.pcbs := by
  rw [hending.tasks]

theorem Ending.cur_task {k k' : Kernel} {exit : Exit} (hending : Ending k k' exit) (t : Fin MAX_TERM_NUM) :
    (k'.terminals t).cur_task = (k.terminals t).cur_task := by
  obtain ⟨_, _, _, _, ht⟩ := hending.prints.terminals t
  rw [ht, term_t.atPos]

theorem Ending.esp {k k' : Kernel} {exit : Exit} (hending : Ending k k' exit) (t : Fin MAX_TERM_NUM) :
    (k'.terminals t).esp = (k.terminals t).esp := by
  obtain ⟨_, _, _, _, ht⟩ := hending.prints.terminals t
  rw [ht, term_t.atPos]

/-- What the events do to a kernel that has only used its six slots. -/
inductive Moves (fs : Image) (s : System) : Event → System → Prop where
  | started (locals : Locals) (k' : Kernel)
      (hnull : (s.kernel.terminals (next_tid s.kernel.sched_term_id)).cur_task = NULL)
      (hexecuted :
        Executed fs (beforeRestart (handOver s.kernel (next_tid s.kernel.sched_term_id))) shell locals k') :
      Moves fs s (.pit_interrupt locals) { s with kernel := k' }
  | resumed (locals : Locals) (k' : Kernel)
      (htask : (s.kernel.terminals (next_tid s.kernel.sched_term_id)).cur_task ≠ NULL)
      (hresumed : TaskResumed (handOver s.kernel (next_tid s.kernel.sched_term_id)) k') :
      Moves fs s (.pit_interrupt locals) { s with kernel := k' }
  | switched (new_term_id : Int) :
      Moves fs s (.switch_terminal new_term_id) { s with kernel := switch_terminal s.kernel new_term_id }
  | executed (p : Process) (command : CString) (locals : Locals) (k' : Kernel)
      (hrunning : s.kernel.running = .process p) (hexecuted : Executed fs s.kernel command locals k') :
      Moves fs s (.sys_execute command locals) { s with kernel := k' }
  | returned (event : Event) (exit : Exit) (locals : Locals) (p : Process) (ending released : Kernel) (frame : Frame)
      (hexit : event.exit = some (exit, locals)) (hrunning : s.kernel.running = .process p)
      (hcur : s.kernel.cur_pcb ≠ NULL) (hending : Ending s.kernel ending exit) (hreleased : Released ending released)
      (hparent : (s.kernel.pcbs s.kernel.cur_pcb).parent_task ≠ NULL)
      (hframe : (released.pcbs (s.kernel.pcbs s.kernel.cur_pcb).parent_task).esp = some frame) :
      Moves fs s event (s.ended p exit
        (.resumed frame (if ending.except_raised then 256 else exit.status.toNat), resumeParent released frame))
  | restarted (event : Event) (exit : Exit) (locals : Locals) (p : Process) (ending released k' : Kernel)
      (outcome : Outcome) (hexit : event.exit = some (exit, locals)) (hrunning : s.kernel.running = .process p)
      (hcur : s.kernel.cur_pcb ≠ NULL) (hending : Ending s.kernel ending exit) (hreleased : Released ending released)
      (hparent : (s.kernel.pcbs s.kernel.cur_pcb).parent_task = NULL)
      (hexecuted : SixSlots released.pcb_status → Executed fs (beforeRestart released) shell locals k') :
      Moves fs s event (s.ended p exit (.restarted outcome, k'))
  | entry_executed (locals : Locals) (k' : Kernel) (hrunning : s.kernel.running = .entry)
      (hspinning : s.spinning = false) (hexecuted : Executed fs s.kernel shell locals k') :
      Moves fs s (.entry_execute locals) { s with kernel := k', spinning := true }

/-- The next terminal is another one. -/
theorem next_tid_ne (t : Fin MAX_TERM_NUM) : next_tid t ≠ t := by
  revert t
  decide

theorem runningProcess_eq_some {k : Kernel} {p : Process} : runningProcess k = some p ↔ k.running = .process p := by
  rw [runningProcess]
  cases k.running <;> simp

/-- `sys_execute` disables interrupts itself. -/
theorem sys_execute_cli (fs : Image) (k : Kernel) (command : CString) (locals : Locals) :
    sys_execute fs (cli k) command locals = sys_execute fs k command locals := by
  rw [sys_execute, sys_execute, cli_cli]

section Moves

variable {fs : Image} {s s' : System}

/-- A tick resumes the task of the next terminal, or starts a shell there. -/
theorem pit_interrupt_moves (hsix : SixSlots s.kernel.pcb_status) {locals : Locals} {k' : Kernel}
    (htick : pit_interrupt fs s.kernel locals = some k') :
    Moves fs s (.pit_interrupt locals) { s with kernel := k' } := by
  obtain ⟨k₁, hswitch, rfl⟩ := Option.map_eq_some_iff.mp htick
  obtain ⟨hsame, -⟩ | ⟨-, ⟨hnull, outcome, hexecute⟩ | ⟨htask, hresumed⟩⟩ := switch_tasks_cases hswitch
  · exact absurd hsame (next_tid_ne _)
  · obtain ⟨handed, hhanded⟩ : ∃ handed,
        beforeRestart (handOver s.kernel (next_tid s.kernel.sched_term_id)) = handed := ⟨_, rfl⟩
    have hcli : beforeRestart (handOver (cli s.kernel) (next_tid s.kernel.sched_term_id)) = cli handed :=
      hhanded ▸ rfl
    have hsix' : SixSlots handed.pcb_status := hhanded ▸ hsix
    rw [cli_toConsole, hcli, sys_execute_cli] at hexecute
    exact .started locals _ hnull (hhanded ▸ (sys_execute_executed hsix' hexecute).sti)
  · exact .resumed locals _ htask { hresumed with }

theorem ending_self (k : Kernel) (status : UInt8) : Ending k k (.halted status) :=
  ⟨Prints.refl _, by simp, rfl⟩

theorem ending_handle (k : Kernel) (exception : Exception) :
    Ending k { k.onConsole (printText · exception.message) with except_raised := true } .excepted :=
  ⟨prints_printText _ _, by simp, rfl⟩

/-- Any way to end the running process leads through `sys_halt`. -/
theorem sys_halt_moves {event : Event} {exit : Exit} {locals : Locals} (hexit : event.exit = some (exit, locals))
    {p : Process} (hrunning : s.kernel.running = .process p) {ending : Kernel} (hending : Ending s.kernel ending exit)
    {result : Halted × Kernel} (hhalt : sys_halt fs ending exit.status locals = some result) :
    Moves fs s event (s.ended p exit result) := by
  obtain ⟨halted, k'⟩ := result
  obtain ⟨hcur, released, -, hreleased, hleft⟩ := sys_halt_cases hhalt
  rw [hending.cur_pcb] at hcur
  rw [hending.cur_pcb, hending.pcbs] at hleft
  obtain ⟨hparent, frame, hframe, rfl, rfl⟩ | ⟨hparent, outcome, hexecute, rfl⟩ := hleft
  · exact .returned event exit locals p ending released frame hexit hrunning hcur hending hreleased hparent hframe
  · refine .restarted event exit locals p ending released k' outcome hexit hrunning hcur hending hreleased hparent ?_
    intro hsix
    exact sys_execute_executed hsix hexecute

/-- What one event does to the system. By cases on it, with one lemma for each function of the
    kernel. -/
theorem step_moves (hsix : SixSlots s.kernel.pcb_status) {event : Event} (hstep : step fs s event = some s') :
    Moves fs s event s' := by
  cases event with
  | pit_interrupt locals =>
    obtain ⟨k', htick, rfl⟩ := Option.map_eq_some_iff.mp hstep
    exact pit_interrupt_moves hsix htick
  | switch_terminal new_term_id =>
    cases hstep
    exact .switched new_term_id
  | sys_execute command locals =>
    obtain ⟨p, hp, hstep⟩ := Option.bind_eq_some_iff.mp hstep
    obtain ⟨⟨outcome, k'⟩, hexecute, hstep⟩ := Option.bind_eq_some_iff.mp hstep
    cases hstep
    exact .executed p command locals k' (runningProcess_eq_some.mp hp) (sys_execute_executed hsix hexecute)
  | sys_halt status locals =>
    obtain ⟨p, hp, hstep⟩ := Option.bind_eq_some_iff.mp hstep
    obtain ⟨result, hhalt, hstep⟩ := Option.bind_eq_some_iff.mp hstep
    cases hstep
    exact sys_halt_moves rfl (runningProcess_eq_some.mp hp) (ending_self s.kernel status) hhalt
  | exception exception locals =>
    obtain ⟨p, hp, hstep⟩ := Option.bind_eq_some_iff.mp hstep
    obtain ⟨result, hhalt, hstep⟩ := Option.bind_eq_some_iff.mp hstep
    cases hstep
    exact sys_halt_moves rfl (runningProcess_eq_some.mp hp) (ending_handle s.kernel exception) hhalt
  | entry_execute locals =>
    rw [step] at hstep
    split at hstep
    · rename_i hentry
      obtain ⟨⟨outcome, k'⟩, hexecute, rfl⟩ := Option.map_eq_some_iff.mp hstep
      exact .entry_executed locals k' hentry.1 hentry.2 (sys_execute_executed hsix hexecute)
    · cases hstep

end Moves

end lacos.system
