import LacOS.Base.Run
import LacOS.Paging.Translate
import LacOS.System.Boot
import LacOS.System.Step

open memory lacos.lib lacos.file_system lacos.paging lacos.pcb lacos.multi_term lacos.syscalls lacos.timer trace

namespace lacos.system

/-- No block, or that of one of the slots. -/
def InSlots (slots : Set Nat) (p : UInt32) : Prop := p = NULL ∨ ∃ n ∈ slots, p = slotBlock n

/-- The slots that have ever held a process: whatever the kernel has a pointer to is a
    block of theirs, and these still have the page of their slot. -/
structure Live (slots : Set Nat) (k : Kernel) : Prop where
  six : SixSlots k.pcb_status
  below : ∀ n ∈ slots, n < 6
  page_addr : ∀ n ∈ slots, (k.pcbs (slotBlock n)).page_addr = programPage n
  parent_task : ∀ n ∈ slots, InSlots slots (k.pcbs (slotBlock n)).parent_task
  term_num : ∀ n ∈ slots, ∃ t : Fin MAX_TERM_NUM, (k.pcbs (slotBlock n)).term_num = UInt8.ofNat t
  cur_pcb : InSlots slots k.cur_pcb
  cur_task : ∀ t, InSlots slots (k.terminals t).cur_task

theorem InSlots.mono {slots : Set Nat} {p : UInt32} (hp : InSlots slots p) (n : Nat) : InSlots (insert n slots) p := by
  obtain hnull | ⟨m, hm, heq⟩ := hp
  · exact .inl hnull
  · exact .inr ⟨m, Set.mem_insert_of_mem n hm, heq⟩

section Live

variable {slots : Set Nat} {k k' : Kernel} (hk : Live slots k)
include hk

/-- Other pointers to the same blocks, which keep their pages, parents and terminals. -/
theorem Live.congr (hsix : SixSlots k'.pcb_status)
    (hpcbs : ∀ p, ∃ io_files pcb_num tail esp, k'.pcbs p =
      { k.pcbs p with io_files := io_files, pcb_num := pcb_num, tail := tail, esp := esp })
    (hcur : InSlots slots k'.cur_pcb) (htasks : ∀ t, InSlots slots (k'.terminals t).cur_task) : Live slots k' := by
  refine ⟨hsix, hk.below, fun n hn => ?_, fun n hn => ?_, fun n hn => ?_, hcur, htasks⟩
  all_goals
    obtain ⟨io_files, pcb_num, tail, esp, hblock⟩ := hpcbs (slotBlock n)
    rw [hblock]
  · exact hk.page_addr n hn
  · exact hk.parent_task n hn
  · exact hk.term_num n hn

/-- A call that is refused leaves every pointer. -/
theorem Live.refused (hrefused : Refused k k') : Live slots k' := by
  have htasks (t : Fin MAX_TERM_NUM) : InSlots slots (k'.terminals t).cur_task := hrefused.cur_task t ▸ hk.cur_task t
  have hcur : InSlots slots k'.cur_pcb := hrefused.cur_pcb ▸ hk.cur_pcb
  obtain ⟨hstatus, hpcbs⟩ | ⟨n, hn, -, hstatus, io_files, tail, hpcbs⟩ := hrefused.six hk.six
  · exact hk.congr (hstatus ▸ hk.six) (fun p => ⟨_, _, _, _, by rw [hpcbs]⟩) hcur htasks
  · refine hk.congr (hstatus ▸ sixSlots_or hn hk.six) (fun p => ?_) hcur htasks
    rw [hpcbs]
    by_cases hp : p = slotBlock n
    · rw [hp, Function.update_self]
      exact ⟨_, _, _, _, rfl⟩
    · rw [Function.update_of_ne hp]
      exact ⟨_, _, _, _, rfl⟩

/-- The parent that `sys_execute` gives a new process is a block, or none for a shell. -/
theorem Live.startParent : InSlots slots (startParent k) := by
  rw [syscalls.startParent]
  split
  · exact .inl rfl
  · exact hk.cur_task _

/-- The new process adds its slot to those that have held one. -/
theorem Live.launched {n : Nat} (hn : n < 6) (hlaunched : Launched k k' n) : Live (insert n slots) k' := by
  have hnew : InSlots (insert n slots) (slotBlock n) := .inr ⟨n, Set.mem_insert n slots, rfl⟩
  have hold {m : Nat} (hm : m ∈ insert n slots) (hne : m ≠ n) : m ∈ slots ∧ slotBlock m ≠ slotBlock n := by
    have hmem := Set.mem_of_mem_insert_of_ne hm hne
    have hm6 := hk.below m hmem
    exact ⟨hmem, fun heq => hne ((slotBlock_inj (by omega) (by omega)).mp heq)⟩
  refine ⟨hlaunched.pcb_status ▸ sixSlots_or hn hk.six, fun m hm => ?_, fun m hm => ?_, fun m hm => ?_, fun m hm => ?_,
    hlaunched.cur_pcb ▸ hnew, fun t => ?_⟩
  · obtain rfl | hm := Set.mem_insert_iff.mp hm
    · exact hn
    · exact hk.below m hm
  · by_cases hne : m = n
    · rw [hne]
      exact hlaunched.page_addr
    · obtain ⟨hm, hblock⟩ := hold hm hne
      obtain ⟨esp, hother⟩ := hlaunched.other hblock
      rw [hother]
      exact hk.page_addr m hm
  · by_cases hne : m = n
    · rw [hne, hlaunched.parent_task]
      exact hk.startParent.mono n
    · obtain ⟨hm, hblock⟩ := hold hm hne
      obtain ⟨esp, hother⟩ := hlaunched.other hblock
      rw [hother]
      exact (hk.parent_task m hm).mono n
  · by_cases hne : m = n
    · rw [hne]
      exact ⟨_, hlaunched.term_num⟩
    · obtain ⟨hm, hblock⟩ := hold hm hne
      obtain ⟨esp, hother⟩ := hlaunched.other hblock
      rw [hother]
      exact hk.term_num m hm
  · rw [hlaunched.cur_task]
    split
    · exact hnew
    · exact (hk.cur_task t).mono n

/-- The parent of the current process is a block of a slot that has held a process, or none. -/
theorem Live.cur_parent (hcur : k.cur_pcb ≠ NULL) : InSlots slots (k.pcbs k.cur_pcb).parent_task := by
  obtain hnull | ⟨n, hn, heq⟩ := hk.cur_pcb
  · exact absurd hnull hcur
  · rw [heq]
    exact hk.parent_task n hn

/-- `sys_halt` gives the slot back and makes the parent current. The slot still counts as one that
    has held a process. -/
theorem Live.released (hcur : k.cur_pcb ≠ NULL) (hreleased : Released k k') : Live slots k' := by
  refine hk.congr ?_ (fun p => ?_) ?_ (fun t => ?_)
  · rw [hreleased.pcb_status]
    exact sixSlots_clear hk.six _
  · obtain ⟨io_files, hblock⟩ := hreleased.block p
    exact ⟨_, _, _, _, hblock⟩
  · rw [hreleased.cur_pcb]
    exact hk.cur_parent hcur
  · rw [hreleased.cur_task]
    split
    · exact hk.cur_parent hcur
    · exact hk.cur_task t

/-- A slot is free once a process has halted. -/
theorem Live.room (hcur : k.cur_pcb ≠ NULL) (hreleased : Released k k') :
    our_popcount k'.pcb_status ≠ MAX_PROCESSES := by
  obtain hnull | ⟨n, hn, heq⟩ := hk.cur_pcb
  · exact absurd hnull hcur
  · have hn6 := hk.below n hn
    have hfree : ¬ Taken k'.pcb_status n := by
      rw [hreleased.pcb_status, heq, haltSlot_block (by omega), taken_clear (by omega)]
      exact fun htaken => htaken.1 rfl
    intro hfull
    exact hfree ((our_popcount_eq_iff (hk.released hcur hreleased).six).mp hfull n hn6)

/-- The page a halting process leaves is again that of a slot. -/
theorem Live.haltPage (hcur : k.cur_pcb ≠ NULL) : ∃ n < 6, haltPage k (k.pcbs k.cur_pcb) = programPage n := by
  obtain hnull | ⟨n, hn, heq⟩ := hk.cur_pcb
  · exact absurd hnull hcur
  · rw [heq, syscalls.haltPage]
    split
    · rename_i hparent
      obtain hnull | ⟨m, hm, hparent'⟩ := hk.parent_task n hn
      · exact absurd hnull hparent
      · rw [hparent']
        exact ⟨m, hk.below m hm, hk.page_addr m hm⟩
    · obtain ⟨t, ht⟩ := hk.term_num n hn
      refine ⟨t, Nat.lt_trans t.isLt (by decide), ?_⟩
      have hword (t : Fin MAX_TERM_NUM) : (UInt8.ofNat t).toUInt32 = UInt32.ofNat t := by
        revert t
        decide
      rw [ht, hword, programPage, pageOfNum]

end Live

/-- Saving and loading stack pointers does not touch blocks. -/
theorem handOver_live {slots : Set Nat} {k : Kernel} (hk : Live slots k) (t : Fin MAX_TERM_NUM) :
    Live slots (handOver k t) := by
  refine hk.congr hk.six (fun p => ⟨_, _, _, _, rfl⟩) (hk.cur_task t) fun u => ?_
  rw [handOver_cur_task]
  exact hk.cur_task u

theorem handOver_paged {k : Kernel} (hk : Paged k.toConsole) (t : Fin MAX_TERM_NUM) :
    Paged (handOver k t).toConsole := by
  intro u
  change (Function.update k.terminals k.sched_term_id _ u).vid_mem = videoPage (pageOf k.vis_term_id u)
  by_cases hu : u = k.sched_term_id
  · rw [hu, Function.update_self]
    exact hk _
  · rw [Function.update_of_ne hu]
    exact hk u

/-- A kernel whose pointers lead to blocks of slots, whose screens are in their pages
    and whose paging is confined. -/
structure SpaceSound (page_tables : UInt32 → UInt32) (k : Kernel) : Prop where
  live : ∃ slots, Live slots k
  paged : Paged k.toConsole
  confined : Confined page_tables k.toPaging

section Steps

variable {fs : Image} {page_tables : UInt32 → UInt32} {k k' : Kernel} (hk : SpaceSound page_tables k)
include hk

/-- `sys_execute` leaves the kernel sound, with a new process or without. -/
theorem SpaceSound.executed {command : CString} {locals : Locals} (hexecuted : Executed fs k command locals k') :
    SpaceSound page_tables k' := by
  obtain ⟨slots, hlive⟩ := hk.live
  obtain ⟨-, hrefused⟩ | ⟨n, -, -, hn, -, hlaunched⟩ := hexecuted
  · exact ⟨⟨slots, hlive.refused hrefused⟩, paged_of_prints hrefused.prints hk.paged, hrefused.paging ▸ hk.confined⟩
  · refine ⟨⟨insert n slots, hlive.launched hn hlaunched⟩, fun t => ?_, ?_⟩
    · rw [hlaunched.terminals, hlaunched.vis_term_id, update_task_vid_mem]
      exact hk.paged t
    · exact hk.confined.mapProgram_congr hn hlaunched.page_directory hlaunched.page_tables

/-- The end of a process leaves the kernel sound. -/
theorem SpaceSound.released (hcur : k.cur_pcb ≠ NULL) (hreleased : Released k k') : SpaceSound page_tables k' := by
  obtain ⟨slots, hlive⟩ := hk.live
  obtain ⟨n, hn, hpage⟩ := hlive.haltPage hcur
  refine ⟨⟨slots, hlive.released hcur hreleased⟩, fun t => ?_, ?_⟩
  · rw [hreleased.terminals, hreleased.vis_term_id, update_task_vid_mem]
    exact hk.paged t
  · refine hk.confined.mapProgram_congr hn ?_ hreleased.page_tables
    rw [hreleased.page_directory, hpage]

/-- Another `starting_new_shell`. -/
theorem SpaceSound.beforeRestart : SpaceSound page_tables (beforeRestart k) := by
  obtain ⟨slots, hlive⟩ := hk.live
  exact ⟨⟨slots, hlive.congr hlive.six (fun p => ⟨_, _, _, _, rfl⟩) hlive.cur_pcb hlive.cur_task⟩, hk.paged,
    hk.confined⟩

/-- Going back into the parent's `sys_execute` leaves the kernel sound. -/
theorem SpaceSound.resumeParent (frame : Frame) : SpaceSound page_tables (resumeParent k frame) := by
  obtain ⟨slots, hlive⟩ := hk.live
  exact ⟨⟨slots, hlive.congr hlive.six (fun p => ⟨_, _, _, _, rfl⟩) hlive.cur_pcb hlive.cur_task⟩, hk.paged,
    hk.confined⟩

/-- So does handing the processor to another terminal. -/
theorem SpaceSound.handOver (t : Fin MAX_TERM_NUM) : SpaceSound page_tables (handOver k t) := by
  obtain ⟨slots, hlive⟩ := hk.live
  exact ⟨⟨slots, handOver_live hlive t⟩, handOver_paged hk.paged t, hk.confined⟩

/-- The current process has the page of some slot. -/
theorem SpaceSound.cur_page (hcur : k.cur_pcb ≠ NULL) : ∃ n < 6, (k.pcbs k.cur_pcb).page_addr = programPage n := by
  obtain ⟨slots, hlive⟩ := hk.live
  obtain hzero | ⟨n, hn, heq⟩ := hlive.cur_pcb
  · exact absurd hzero hcur
  · exact ⟨n, hlive.below n hn, heq ▸ hlive.page_addr n hn⟩

/-- A task can be resumed, since its page is one of a slot. -/
theorem SpaceSound.resumed (hcur : k.cur_pcb ≠ NULL) (hresumed : TaskResumed k k') : SpaceSound page_tables k' := by
  obtain ⟨slots, hlive⟩ := hk.live
  obtain ⟨n, hn, hpage⟩ := hk.cur_page hcur
  refine ⟨⟨slots, hlive.congr ?_ (fun p => ?_) ?_ fun u => ?_⟩, ?_, ?_⟩
  · rw [hresumed.pcb_status]
    exact hlive.six
  · rw [hresumed.pcbs]
    exact ⟨_, _, _, _, rfl⟩
  · rw [hresumed.cur_pcb]
    exact hlive.cur_pcb
  · rw [hresumed.console]
    exact hlive.cur_task u
  · rw [hresumed.console]
    exact hk.paged
  · rw [hresumed.paging, hpage, hk.paged]
    exact (hk.confined.mapProgram hn).mapVidmap (pageOf_le _ _)

/-- An exception handler prints and sets a flag before `sys_halt`, which leaves the kernel sound.
    -/
theorem SpaceSound.ending {exit : Exit} (hending : Ending k k' exit) : SpaceSound page_tables k' := by
  obtain ⟨slots, hlive⟩ := hk.live
  refine ⟨⟨slots, hlive.congr ?_ (fun p => ?_) ?_ fun u => ?_⟩, paged_of_prints hending.prints hk.paged,
    hending.paging ▸ hk.confined⟩
  · rw [hending.tasks]
    exact hlive.six
  · rw [hending.tasks]
    exact ⟨_, _, _, _, rfl⟩
  · rw [hending.tasks]
    exact hlive.cur_pcb
  · rw [hending.cur_task]
    exact hlive.cur_task u

/-- Only the first six slots are taken. -/
theorem SpaceSound.six : SixSlots k.pcb_status := by
  obtain ⟨slots, hlive⟩ := hk.live
  exact hlive.six

/-- A switch of the visible terminal leaves the kernel sound, whatever number is asked for. -/
theorem SpaceSound.terminal_switched (new_term_id : Int) :
    SpaceSound page_tables (switch_terminal k new_term_id) := by
  refine switch_terminal_keeps hk (fun t => ?_) new_term_id
  obtain ⟨slots, hlive⟩ := hk.live
  refine ⟨⟨slots, hlive.congr hlive.six (fun p => ⟨_, _, _, _, rfl⟩) hlive.cur_pcb fun u => ?_⟩,
    hk.paged.switchTo t, hk.confined⟩
  rw [switchTo_terminals hk.paged]
  exact hlive.cur_task u

end Steps

/-- What one event of the system keeps. -/
theorem SpaceSound.moves {fs : Image} {page_tables : UInt32 → UInt32} {s s' : System} {event : Event}
    (hk : SpaceSound page_tables s.kernel) (hmoves : Moves fs s event s') : SpaceSound page_tables s'.kernel := by
  cases hmoves with
  | started locals k' hnull hexecuted => exact (hk.handOver _).beforeRestart.executed hexecuted
  | resumed locals k' htask hresumed => exact (hk.handOver _).resumed htask hresumed
  | switched new_term_id => exact hk.terminal_switched new_term_id
  | executed p command locals k' hrunning hexecuted => exact hk.executed hexecuted
  | returned event exit locals p ending released frame hexit hrunning hcur hending hreleased hparent hframe =>
    have hcur' : ending.cur_pcb ≠ NULL := hending.cur_pcb ▸ hcur
    exact ((hk.ending hending).released hcur' hreleased).resumeParent frame
  | restarted event exit locals p ending released k' outcome hexit hrunning hcur hending hreleased hparent hexecuted =>
    have hcur' : ending.cur_pcb ≠ NULL := hending.cur_pcb ▸ hcur
    have hreleased' := (hk.ending hending).released hcur' hreleased
    exact hreleased'.beforeRestart.executed (hexecuted hreleased'.six)
  | entry_executed locals k' hrunning hspinning hexecuted => exact hk.executed hexecuted

/-- The kernel is sound when `entry` enables interrupts. -/
theorem entry_spaceSound (machine : Kernel) : SpaceSound machine.page_tables (entry machine) := by
  have hbooted := entry_booted machine
  have hnone (n : Nat) : ¬ Taken (entry machine).pcb_status n := by simp [Taken, hbooted.pcb_status]
  refine ⟨⟨∅, ?_⟩, hbooted.paged, hbooted.paging ▸ confined_paging_init machine.toPaging⟩
  exact ⟨fun n hn => absurd hn (hnone n), fun n hn => absurd hn (Set.notMem_empty n),
    fun n hn => absurd hn (Set.notMem_empty n), fun n hn => absurd hn (Set.notMem_empty n),
    fun n hn => absurd hn (Set.notMem_empty n), .inl hbooted.cur_pcb, fun t => .inl (hbooted.tasks t)⟩

/-- The kernel is sound after any events. Nothing is asked of the events or the machine. -/
theorem boot_spaceSound {fs : Image} {machine : Kernel} {events : List Event} {s : System}
    (hrun : run (step fs) (boot machine) events = some s) : SpaceSound machine.page_tables s.kernel := by
  have hkeep (s : System) (event : Event) (s' : System) (hs : SpaceSound machine.page_tables s.kernel)
      (hstep : step fs s event = some s') : SpaceSound machine.page_tables s'.kernel :=
    hs.moves (step_moves hs.six hstep)
  have hsound := run_invariant_of_step hkeep (entry_spaceSound machine) hrun
  exact hsound

end lacos.system
