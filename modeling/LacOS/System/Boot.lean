import LacOS.Boot
import LacOS.Lib.Frame
import LacOS.MultiTerm.Placement

open memory lacos.lib lacos.file_system lacos.paging lacos.multi_term

namespace lacos.system

/-- The kernel that `entry` leaves when it enables interrupts, before its own
    `sys_execute`. -/
structure Booted (machine k : Kernel) : Prop where
  tasks : ∀ t, (k.terminals t).cur_task = NULL
  paged : Paged k.toConsole
  vis_term_id : k.vis_term_id = 0
  sched_term_id : k.sched_term_id = 0
  pcb_status : k.pcb_status = 0
  cur_pcb : k.cur_pcb = NULL
  except_raised : k.except_raised = false
  starting_new_shell : k.starting_new_shell = false
  paging : k.toPaging = paging_init machine.toPaging
  running : k.running = .entry
  next_id : k.next_id = 0

/-- Printing does not move a screen. -/
theorem paged_of_prints {con con' : Console} (hprints : Prints con con') (hpaged : Paged con) : Paged con' := by
  intro t
  obtain ⟨_, _, _, _, ht⟩ := hprints.terminals t
  rw [ht, hprints.vis_term_id]
  exact hpaged t

/-- The terminals are set up with each screen in its page, if the first one is visible. -/
theorem multi_term_init_paged {k : Kernel} (hvis : k.vis_term_id = 0) : Paged (multi_term_init k).toConsole := by
  intro t
  change (if t = 0 then VIDEO_ADDR else backingPage t) = videoPage (pageOf k.vis_term_id t)
  rw [hvis]
  revert t
  decide

/-- What `entry` leaves, whatever the machine held before. -/
theorem entry_booted (machine : Kernel) : Booted machine (entry machine) := by
  obtain ⟨k, hk⟩ : ∃ k : Kernel, k =
      { load machine with tss_esp0 := 0x800000, toPaging := paging_init (load machine).toPaging } := ⟨_, rfl⟩
  obtain ⟨ready, hready⟩ : ∃ ready,
      ready = multi_term_init ((k.onConsole clear_screen).onConsole (set_color · 3 0)) := ⟨_, rfl⟩
  have hentry : entry machine = sti (ready.onConsole (puts_color · 0 (chars "testing\n".toList) 3 4)) := by
    rw [hready, hk, entry]
  have hcleared : Prints k.toConsole (k.onConsole clear_screen).toConsole := prints_clear_screen _
  have hvis : ((k.onConsole clear_screen).onConsole (set_color · 3 0)).vis_term_id = 0 := by
    have hload : k.vis_term_id = 0 := by rw [hk, load]
    rw [← hload, ← hcleared.vis_term_id]
    rfl
  have hsched : ((k.onConsole clear_screen).onConsole (set_color · 3 0)).sched_term_id = 0 := by
    have hload : k.sched_term_id = 0 := by rw [hk, load]
    rw [← hload, ← hcleared.sched_term_id]
    rfl
  have hpaged : Paged ready.toConsole := hready ▸ multi_term_init_paged hvis
  have htasks : ∀ t, (ready.terminals t).cur_task = NULL := by
    intro t
    rw [hready]
    rfl
  have hprints : Prints ready.toConsole (entry machine).toConsole := by
    rw [hentry]
    exact prints_puts_color _ 0 _ _ _
  have hready' : ready.vis_term_id = 0 ∧ ready.sched_term_id = 0 := by
    rw [hready]
    exact ⟨hvis, hsched⟩
  refine ⟨?_, paged_of_prints hprints hpaged, ?_, ?_, ?_, ?_, ?_, ?_, ?_, ?_, ?_⟩
  · intro t
    obtain ⟨_, _, _, _, ht⟩ := hprints.terminals t
    rw [ht]
    exact htasks t
  · rw [hprints.vis_term_id, hready'.1]
  · rw [hprints.sched_term_id, hready'.2]
  all_goals
    rw [hentry, hready, hk]
    rfl

end lacos.system
