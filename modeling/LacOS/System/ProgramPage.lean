import LacOS.Paging.MapPage
import LacOS.Syscalls.Vidmap
import LacOS.System.Live

open memory lacos.lib lacos.file_system lacos.paging lacos.pcb lacos.multi_term lacos.syscalls lacos.timer trace

namespace lacos.system

/-- The page of a slot is mapped at `PROGRAM_VIRT`. -/
def ProgramMapped (k : Kernel) : Prop := ∃ n < 6, k.page_directory 32 = programPage n + 0x87

/-- A process only runs while a program's page is mapped. -/
def UserMapped (k : Kernel) : Prop := ∀ p, k.running = .process p → ProgramMapped k

section Steps

variable {fs : Image} {page_tables : UInt32 → UInt32} {k k' : Kernel}

/-- Mapping any page of a slot makes it the program's page. -/
theorem programMapped_of_map {page_addr : UInt32} (hpage : ∃ n < 6, page_addr = programPage n)
    (hdir : k'.page_directory = (map_page k.toPaging page_addr PROGRAM_VIRT true true true true).2.page_directory) :
    ProgramMapped k' := by
  obtain ⟨n, hn, rfl⟩ := hpage
  refine ⟨n, hn, ?_⟩
  rw [hdir, mapProgram_eq hn]
  exact Function.update_self 32 _ k.page_directory

/-- A program's page stays mapped over `sys_execute`, though it may be another one. -/
theorem ProgramMapped.executed (hk : ProgramMapped k) {command : CString} {locals : Locals}
    (hexecuted : Executed fs k command locals k') : ProgramMapped k' := by
  obtain ⟨-, hrefused⟩ | ⟨n, -, -, hn, -, hlaunched⟩ := hexecuted
  · rw [ProgramMapped, hrefused.paging]
    exact hk
  · exact programMapped_of_map ⟨n, hn, rfl⟩ hlaunched.page_directory

/-- `sys_execute` maps the page of the program before that runs. -/
theorem UserMapped.executed (hk : UserMapped k) {command : CString} {locals : Locals}
    (hexecuted : Executed fs k command locals k') : UserMapped k' := by
  intro p hrunning
  obtain ⟨-, hrefused⟩ | ⟨n, -, -, hn, -, hlaunched⟩ := hexecuted
  · rw [hrefused.running] at hrunning
    rw [ProgramMapped, hrefused.paging]
    exact hk p hrunning
  · exact programMapped_of_map ⟨n, hn, rfl⟩ hlaunched.page_directory

/-- `sys_halt` maps the page of the parent, or leaves the one that is mapped. -/
theorem SpaceSound.programMapped_released (hk : SpaceSound page_tables k) (hcur : k.cur_pcb ≠ NULL)
    (hreleased : Released k k') : ProgramMapped k' := by
  obtain ⟨slots, hlive⟩ := hk.live
  exact programMapped_of_map (hlive.haltPage hcur) hreleased.page_directory

/-- A task is resumed with its page mapped. -/
theorem SpaceSound.programMapped_resumed (hk : SpaceSound page_tables k) (hcur : k.cur_pcb ≠ NULL)
    (hresumed : TaskResumed k k') : ProgramMapped k' := by
  obtain ⟨n, hn, hpage⟩ := hk.cur_page hcur
  refine programMapped_of_map (k := k) ⟨n, hn, rfl⟩ ?_
  rw [hresumed.paging, hpage, hk.paged, mapVidmap_directory (hk.confined.mapProgram hn) (pageOf_le _ _)]

/-- What one event of the system keeps. -/
theorem UserMapped.moves {s s' : System} {event : Event} (hk : UserMapped s.kernel)
    (hspace : SpaceSound page_tables s.kernel) (hmoves : Moves fs s event s') : UserMapped s'.kernel := by
  cases hmoves with
  | started locals k' hnull hexecuted =>
    have hbefore : UserMapped (beforeRestart (handOver s.kernel (next_tid s.kernel.sched_term_id))) := hk
    exact hbefore.executed hexecuted
  | resumed locals k' htask hresumed => exact fun _ _ => (hspace.handOver _).programMapped_resumed htask hresumed
  | switched new_term_id => exact switch_terminal_keeps hk (fun _ => hk) new_term_id
  | executed p command locals k' hrunning hexecuted => exact hk.executed hexecuted
  | returned event exit locals p ending released frame hexit hrunning hcur hending hreleased hparent hframe =>
    have hcur' : ending.cur_pcb ≠ NULL := hending.cur_pcb ▸ hcur
    have hmapped : ProgramMapped released := (hspace.ending hending).programMapped_released hcur' hreleased
    exact fun _ _ => hmapped
  | restarted event exit locals p ending released k' outcome hexit hrunning hcur hending hreleased hparent hexecuted =>
    have hcur' : ending.cur_pcb ≠ NULL := hending.cur_pcb ▸ hcur
    have hending' := hspace.ending hending
    have hmapped : ProgramMapped released := hending'.programMapped_released hcur' hreleased
    have hbefore : ProgramMapped (beforeRestart released) := hmapped
    exact fun _ _ => hbefore.executed (hexecuted (hending'.released hcur' hreleased).six)
  | entry_executed locals k' hrunning hspinning hexecuted => exact hk.executed hexecuted

/-- After any events, a process that runs has a program's page mapped. -/
theorem boot_userMapped {machine : Kernel} {events : List Event} {s : System}
    (hrun : run (step fs) (boot machine) events = some s) : UserMapped s.kernel := by
  have hstart : SpaceSound machine.page_tables (boot machine).kernel ∧ UserMapped (boot machine).kernel := by
    refine ⟨entry_spaceSound machine, fun p hrunning => ?_⟩
    rw [boot, (entry_booted machine).running] at hrunning
    cases hrunning
  have hkeep (s : System) (event : Event) (s' : System)
      (hs : SpaceSound machine.page_tables s.kernel ∧ UserMapped s.kernel) (hstep : step fs s event = some s') :
      SpaceSound machine.page_tables s'.kernel ∧ UserMapped s'.kernel := by
    have hmoves := step_moves hs.1.six hstep
    exact ⟨hs.1.moves hmoves, hs.2.moves hs.1 hmoves⟩
  exact (run_invariant_of_step hkeep hstart hrun).2

end Steps

/-- The program may write to the address: it is in the program's page, which is
    present and grants it. -/
structure ProgramWritable (pg : Paging) (virt_addr : UInt32) : Prop where
  inside : InProgram virt_addr
  present : walk pg virt_addr ≠ .absent
  user : (walk pg virt_addr).grants US_BIT = true
  write : (walk pg virt_addr).grants RW_BIT = true

/-- All of the program's page can be written. -/
theorem ProgramMapped.writable {k : Kernel} (hk : ProgramMapped k) {virt_addr : UInt32} (hin : InProgram virt_addr) :
    ProgramWritable k.toPaging virt_addr := by
  obtain ⟨n, hn, hdir⟩ := hk
  have hwalk : walk k.toPaging virt_addr = .large (programPage n + 0x87) := by
    obtain ⟨-, -, hpresent, hlarge, -⟩ := programPage_entry hn
    exact walk_large (by rw [dirEntry_of_index 32 (inProgram_iff.mp hin), hdir]) hpresent hlarge
  have hrights : (Walk.large (programPage n + 0x87)).grants US_BIT = true ∧
      (Walk.large (programPage n + 0x87)).grants RW_BIT = true := by
    clear hwalk hdir
    interval_cases n <;> decide
  exact ⟨hin, by rw [hwalk]; simp, hwalk ▸ hrights.1, hwalk ▸ hrights.2⟩

/-- Of the pointers that `sys_vidmap` accepts, those whose four bytes the program may write to are
    the ones that end inside the page. The pointer need not be aligned, and the process may have
    been started on any terminal. -/
theorem sys_vidmap_writable_iff (fs : Image) (machine : Kernel) (events : List Event) (s : System) (p : Process)
    (hrun : run (step fs) (boot machine) events = some s) (hrunning : s.kernel.running = .process p)
    (screen_start : UInt32) (hok : (sys_vidmap s.kernel screen_start).1 ≠ -1) :
    (∀ i < 4, ProgramWritable s.kernel.toPaging (screen_start + UInt32.ofNat i)) ↔
      screen_start.toNat + 4 ≤ PROGRAM_VIRT.toNat + FOUR_MB.toNat := by
  have hmapped := boot_userMapped hrun p hrunning
  obtain ⟨hlo, hhi⟩ := (sys_vidmap_accepts_iff s.kernel screen_start).mp hok
  have hbyte {i : Nat} (hi : i < 4) : (screen_start + UInt32.ofNat i).toNat = screen_start.toNat + i := by
    have haddr : PROGRAM_VIRT.toNat + FOUR_MB.toNat = 0x8400000 := by decide
    rw [UInt32.toNat_add, UInt32.toNat_ofNat']
    omega
  have hmb : FOUR_MB.toNat = 0x400000 := rfl
  constructor
  · intro hwritable
    have hlast := (hwritable 3 (by decide)).inside.2
    rw [hbyte (by decide)] at hlast
    omega
  · intro hend i hi
    refine hmapped.writable ⟨?_, ?_⟩
    · rw [hbyte hi]
      omega
    · rw [hbyte hi]
      omega

theorem sys_vidmap_writable_iff_last_word :
    let locals : Locals := ⟨fun _ => 0, fun _ => 0⟩
    ∃ s, run (step shellImage) (boot blankMachine) [.pit_interrupt locals] = some s ∧
      (∃ p, s.kernel.running = .process p) ∧ (sys_vidmap s.kernel 0x83FFFFC).1 ≠ -1 ∧
      ∀ i < 4, ProgramWritable s.kernel.toPaging (0x83FFFFC + UInt32.ofNat i) := by
  intro locals
  obtain ⟨s, hrun, hsome⟩ : ∃ s, run (step shellImage) (boot blankMachine) [.pit_interrupt locals] = some s ∧
      (runningProcess s.kernel).isSome = true := exists_run (by decide +kernel)
  obtain ⟨p, hp⟩ := Option.isSome_iff_exists.mp hsome
  have hrunning := runningProcess_eq_some.mp hp
  have hok : (sys_vidmap s.kernel 0x83FFFFC).1 ≠ -1 := (sys_vidmap_accepts_iff s.kernel _).mpr (by decide)
  exact ⟨s, hrun, ⟨p, hrunning⟩, hok,
    (sys_vidmap_writable_iff shellImage blankMachine _ s p hrun hrunning 0x83FFFFC hok).mpr (by decide)⟩

/-- A pointer to the very end of the page is accepted, and the store through it faults. -/
theorem sys_vidmap_past_page :
    let locals : Locals := ⟨fun _ => 0, fun _ => 0⟩
    ∃ s, run (step shellImage) (boot blankMachine) [.pit_interrupt locals] = some s ∧
      (runningProcess s.kernel).isSome = true ∧ (sys_vidmap s.kernel 0x8400000).1 ≠ -1 ∧
      walk s.kernel.toPaging 0x8400000 = .absent ∧
      ¬ ∀ i < 4, ProgramWritable s.kernel.toPaging (0x8400000 + UInt32.ofNat i) := by
  intro locals
  obtain ⟨s, hrun, hprocess, hok, habsent⟩ : ∃ s,
      run (step shellImage) (boot blankMachine) [.pit_interrupt locals] = some s ∧
      (runningProcess s.kernel).isSome = true ∧ (sys_vidmap s.kernel 0x8400000).1 ≠ -1 ∧
      walk s.kernel.toPaging 0x8400000 = .absent := exists_run (by decide +kernel)
  exact ⟨s, hrun, hprocess, hok, habsent, fun hwritable => (hwritable 0 (by decide)).present habsent⟩

end lacos.system
