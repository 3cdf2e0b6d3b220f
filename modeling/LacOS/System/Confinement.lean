import LacOS.System.Live

open memory lacos.lib lacos.file_system lacos.paging lacos.multi_term lacos.syscalls lacos.timer trace

namespace lacos.system

/-- The calls that change the paging or what is mapped, each as a whole: no tick or key
    comes between the statements of `sys_halt`. -/
inductive SpaceEvent where
  | sys_execute (command : CString) (locals : Locals)
  | sys_halt (status : UInt8) (locals : Locals)
  | switch_tasks (new_term_id : Fin MAX_TERM_NUM) (locals : Locals)
  | switch_terminal (new_term_id : Int)

/-- One call, in whatever context it is made. -/
def spaceStep (fs : Image) (k : Kernel) : SpaceEvent → Option Kernel
  | .sys_execute command locals => (sys_execute fs k command locals).map (·.2)
  | .sys_halt status locals => (sys_halt fs k status locals).map (·.2)
  | .switch_tasks new_term_id locals => switch_tasks fs k new_term_id locals
  | .switch_terminal new_term_id => some (switch_terminal k new_term_id)

section Steps

variable {fs : Image} {page_tables : UInt32 → UInt32} {k k' : Kernel} (hk : SpaceSound page_tables k)
include hk

/-- `sys_halt` leaves the kernel sound, whether it returns to a parent or starts a shell. -/
theorem SpaceSound.halted {status : UInt8} {locals : Locals} {halted : Halted}
    (hhalt : sys_halt fs k status locals = some (halted, k')) : SpaceSound page_tables k' := by
  obtain ⟨hcur, released, -, hreleased, ⟨-, frame, -, -, rfl⟩ | ⟨-, outcome, hexecute, -⟩⟩ := sys_halt_cases hhalt
  · exact (hk.released hcur hreleased).resumeParent frame
  · have hbefore := (hk.released hcur hreleased).beforeRestart
    exact hbefore.executed (sys_execute_executed hbefore.six hexecute)

/-- A switch of tasks leaves the kernel sound. -/
theorem SpaceSound.switched {locals : Locals} {t : Fin MAX_TERM_NUM} (hswitch : switch_tasks fs k t locals = some k') :
    SpaceSound page_tables k' := by
  obtain ⟨-, rfl⟩ | ⟨-, ⟨-, outcome, hexecute⟩ | ⟨htask, hresumed⟩⟩ := switch_tasks_cases hswitch
  · exact hk
  · have hbefore := (hk.handOver t).beforeRestart
    exact hbefore.executed (sys_execute_executed hbefore.six hexecute)
  · exact (hk.handOver t).resumed htask hresumed

/-- Every call leaves the kernel sound. By cases on the call. -/
theorem SpaceSound.step {event : SpaceEvent} (hstep : spaceStep fs k event = some k') : SpaceSound page_tables k' := by
  cases event with
  | sys_execute command locals =>
    obtain ⟨⟨outcome, k₁⟩, hexecute, rfl⟩ := Option.map_eq_some_iff.mp hstep
    exact hk.executed (sys_execute_executed hk.six hexecute)
  | sys_halt status locals =>
    obtain ⟨⟨halted, k₁⟩, hhalt, rfl⟩ := Option.map_eq_some_iff.mp hstep
    exact hk.halted hhalt
  | switch_tasks new_term_id locals => exact hk.switched hstep
  | switch_terminal new_term_id =>
    cases hstep
    exact hk.terminal_switched new_term_id

end Steps

/-- Confinement: in every state after `paging_init` a user program can reach the page of a slot
    and a video page, and all other addresses are as they were. The calls need not be ones that
    can follow each other, and neither the image nor the commands are restricted. -/
theorem address_space_confined (fs : Image) (machine k : Kernel) (events : List SpaceEvent)
    (hrun : run (spaceStep fs) (entry machine) events = some k) :
    SpaceConfined (paging_init machine.toPaging) k.toPaging := by
  have hsound := run_invariant_of_step (fun k event k' hk hstep => SpaceSound.step hk hstep)
    (entry_spaceSound machine) hrun
  refine ⟨fun virt_addr haccess => hsound.confined.user haccess, fun virt_addr hprogram hvidmap => ?_⟩
  exact hsound.confined.others hprogram hvidmap (confined_paging_init machine.toPaging)

theorem address_space_confined_two_shells :
    let locals : Locals := ⟨fun _ => 0, fun _ => 0⟩
    let events : List SpaceEvent := [.switch_tasks 1 locals, .switch_terminal 1, .switch_tasks 2 locals,
      .switch_tasks 1 locals]
    ∃ k, run (spaceStep shellImage) (entry blankMachine) events = some k ∧
      resolve_virt_addr k.toPaging PROGRAM_VIRT = programPage 0 ∧
      resolve_virt_addr k.toPaging VIDMAP_VIRT_ADDR = videoPage 0 ∧
      SpaceConfined (paging_init blankMachine.toPaging) k.toPaging := by
  intro locals events
  have hpages : (run (spaceStep shellImage) (entry blankMachine) events).map
      (fun k => (resolve_virt_addr k.toPaging PROGRAM_VIRT, resolve_virt_addr k.toPaging VIDMAP_VIRT_ADDR)) =
      some (programPage 0, videoPage 0) := by decide +kernel
  obtain ⟨k, hrun, hk⟩ := Option.map_eq_some_iff.mp hpages
  obtain ⟨hprogram, hvidmap⟩ := Prod.mk.inj hk
  exact ⟨k, hrun, hprogram, hvidmap, address_space_confined shellImage blankMachine k events hrun⟩

end lacos.system
