import LacOS.System.Live

open memory lacos.file_system lacos.paging lacos.multi_term lacos.syscalls lacos.timer trace

namespace lacos.system

/-- The address that `sys_vidmap` gives out leads to the screen of the scheduled
    terminal and to no other. -/
def VidmapOwn (k : Kernel) : Prop :=
  ∀ t, resolve_virt_addr k.toPaging VIDMAP_VIRT_ADDR = (k.terminals t).vid_mem ↔ t = k.sched_term_id

instance (k : Kernel) : Decidable (VidmapOwn k) := by
  unfold VidmapOwn
  infer_instance

/-- The event leaves the page of `sys_vidmap` right: a tick resumes a task, and if the
    visible terminal changes, the scheduled one is neither the old nor the new one. -/
def VidmapKept (s : System) : Event → Prop
  | .pit_interrupt _ => (s.kernel.terminals (next_tid s.kernel.sched_term_id)).cur_task ≠ NULL
  | .switch_terminal new_term_id => 0 ≤ new_term_id ∧ new_term_id < MAX_TERM_NUM →
    new_term_id = (s.kernel.vis_term_id : Nat) ∨
      s.kernel.sched_term_id ≠ s.kernel.vis_term_id ∧ new_term_id ≠ (s.kernel.sched_term_id : Nat)
  | _ => True

instance (s : System) : (event : Event) → Decidable (VidmapKept s event)
  | .pit_interrupt _ => by
    dsimp only [VidmapKept]
    infer_instance
  | .switch_terminal _ => by
    dsimp only [VidmapKept]
    infer_instance
  | .sys_execute _ _ | .sys_halt _ _ | .exception _ _ | .entry_execute _ => isTrue trivial

/-- The entry of `sys_vidmap`'s page is that of the scheduled terminal's video page. -/
def VidmapEntry (k : Kernel) : Prop :=
  k.page_tables 0xC022000 = videoPage (pageOf k.vis_term_id k.sched_term_id) + 7

/-- No two terminals have the same video page. -/
theorem pageOf_inj (vis t u : Fin MAX_TERM_NUM) : videoPage (pageOf vis t) = videoPage (pageOf vis u) ↔ t = u := by
  revert vis t u
  decide

section Entry

variable {fs : Image} {page_tables : UInt32 → UInt32} {k k' : Kernel}

/-- The right entry makes the address lead to the screen of the scheduled terminal alone. -/
theorem VidmapEntry.own (hk : SpaceSound page_tables k) (hentry : VidmapEntry k) : VidmapOwn k := by
  intro t
  have hdir : k.page_directory 34 = 0xC022007 := hk.confined.vidmap_directory
  have hin : InVidmap VIDMAP_VIRT_ADDR := inVidmap_iff.mpr (by decide)
  rw [resolve_vidmap (pageOf_le _ _) hdir hentry hin, hk.paged, UInt32.sub_self, UInt32.add_zero, pageOf_inj, eq_comm]

/-- Only the tables and the two terminal numbers matter. -/
theorem VidmapEntry.congr (hentry : VidmapEntry k) (htables : k'.page_tables = k.page_tables)
    (hvis : k'.vis_term_id = k.vis_term_id) (hsched : k'.sched_term_id = k.sched_term_id) : VidmapEntry k' := by
  rw [VidmapEntry, htables, hvis, hsched]
  exact hentry

/-- `sys_execute` does not change the visible or the scheduled terminal, nor the table. -/
theorem VidmapEntry.executed (hentry : VidmapEntry k) {command : CString} {locals : Locals}
    (hexecuted : Executed fs k command locals k') : VidmapEntry k' := by
  obtain ⟨-, hrefused⟩ | ⟨n, -, -, -, -, hlaunched⟩ := hexecuted
  · exact hentry.congr (by rw [hrefused.paging]) hrefused.prints.vis_term_id hrefused.prints.sched_term_id
  · exact hentry.congr hlaunched.page_tables hlaunched.vis_term_id hlaunched.sched_term_id

/-- Neither does `sys_halt`. -/
theorem VidmapEntry.released {exit : Exit} {ending : Kernel} (hentry : VidmapEntry k) (hending : Ending k ending exit)
    (hreleased : Released ending k') : VidmapEntry k' := by
  have htables : k'.page_tables = k.page_tables := by rw [hreleased.page_tables, hending.paging]
  exact hentry.congr htables (hreleased.vis_term_id.trans hending.prints.vis_term_id)
    (hreleased.sched_term_id.trans hending.prints.sched_term_id)

/-- A task that is resumed gets the page of its terminal. -/
theorem vidmapEntry_resumed (hk : SpaceSound page_tables k) (hcur : k.cur_pcb ≠ NULL) (hresumed : TaskResumed k k') :
    VidmapEntry k' := by
  obtain ⟨n, hn, hpage⟩ := hk.cur_page hcur
  have hpaging := hresumed.paging
  rw [hpage, hk.paged, mapVidmap_tables (hk.confined.mapProgram hn) (pageOf_le _ _)] at hpaging
  have htables := congrArg Paging.page_tables hpaging
  simp only at htables
  rw [VidmapEntry, htables, hresumed.console, Function.update_self]

/-- Only the pages of the terminal that goes out and of the one that comes in change. -/
theorem pageOf_switched {vis sched t : Fin MAX_TERM_NUM} (ht : t = vis ∨ sched ≠ vis ∧ t ≠ sched) :
    pageOf t sched = pageOf vis sched := by
  obtain rfl | ⟨hvis, hsched⟩ := ht
  · rfl
  · rw [pageOf, pageOf, if_neg hvis, if_neg hsched.symm]

/-- What an event that meets the condition keeps. -/
theorem VidmapEntry.moves {s s' : System} {event : Event} (hk : SpaceSound page_tables s.kernel)
    (hentry : VidmapEntry s.kernel) (hkept : VidmapKept s event) (hmoves : Moves fs s event s') :
    VidmapEntry s'.kernel := by
  cases hmoves with
  | started locals k' hnull hexecuted => exact absurd hnull hkept
  | resumed locals k' htask hresumed => exact vidmapEntry_resumed (hk.handOver _) htask hresumed
  | switched new_term_id =>
    obtain hstay | ⟨t, rfl, hswitch⟩ := switch_terminal_cases s.kernel new_term_id
    · rw [hstay]
      exact hentry
    · have ht : t = s.kernel.vis_term_id ∨
          s.kernel.sched_term_id ≠ s.kernel.vis_term_id ∧ t ≠ s.kernel.sched_term_id := by
        have hin : (0 : Int) ≤ (t : Nat) ∧ ((t : Nat) : Int) < MAX_TERM_NUM :=
          ⟨Int.natCast_nonneg _, Int.ofNat_lt.mpr t.isLt⟩
        obtain hvis | ⟨hne, hsched⟩ := hkept hin
        · exact .inl (Fin.ext (Int.ofNat_inj.mp hvis))
        · exact .inr ⟨hne, fun heq => hsched (by rw [heq])⟩
      rw [hswitch, VidmapEntry, switchTo_toPaging, switchTo_vis_term_id, switchTo_sched_term_id, pageOf_switched ht]
      exact hentry
  | executed p command locals k' hrunning hexecuted => exact hentry.executed hexecuted
  | returned event exit locals p ending released frame hexit hrunning hcur hending hreleased hparent hframe =>
    have hreleased' : VidmapEntry released := hentry.released hending hreleased
    exact hreleased'.congr rfl rfl rfl
  | restarted event exit locals p ending released k' outcome hexit hrunning hcur hending hreleased hparent hexecuted =>
    have hcur' : ending.cur_pcb ≠ NULL := hending.cur_pcb ▸ hcur
    have hreleased' : VidmapEntry released := hentry.released hending hreleased
    have hbefore : VidmapEntry (beforeRestart released) := hreleased'
    exact hbefore.executed (hexecuted ((hk.ending hending).released hcur' hreleased).six)
  | entry_executed locals k' hrunning hspinning hexecuted => exact hentry.executed hexecuted

end Entry

/-- The page of `sys_vidmap` is right from any tick that resumes a task on, as long as no tick
    starts a shell and no key shows or hides the scheduled terminal. What happened before that
    tick does not matter, and processes may be started and end on any terminal. -/
theorem vidmap_coherent (fs : Image) (machine : Kernel) (before after : List Event) (locals : Locals)
    (s₀ s₁ s : System) (hbefore : run (step fs) (boot machine) before = some s₀)
    (htask : (s₀.kernel.terminals (next_tid s₀.kernel.sched_term_id)).cur_task ≠ NULL)
    (htick : step fs s₀ (.pit_interrupt locals) = some s₁) (hkept : Guarded (step fs) VidmapKept s₁ after)
    (hafter : run (step fs) s₁ after = some s) : VidmapOwn s.kernel := by
  have hspace := boot_spaceSound hbefore
  have hstart : SpaceSound machine.page_tables s₁.kernel ∧ VidmapEntry s₁.kernel := by
    have hmoves := step_moves hspace.six htick
    refine ⟨hspace.moves hmoves, ?_⟩
    cases hmoves with
    | started locals k' hnull hexecuted => exact absurd hnull htask
    | resumed locals k' htask hresumed => exact vidmapEntry_resumed (hspace.handOver _) htask hresumed
    | returned event exit locals p ending released frame hexit => cases hexit
    | restarted event exit locals p ending released k' outcome hexit => cases hexit
  have hkeep (s : System) (event : Event) (s' : System)
      (hs : SpaceSound machine.page_tables s.kernel ∧ VidmapEntry s.kernel) (hkept : VidmapKept s event)
      (hstep : step fs s event = some s') : SpaceSound machine.page_tables s'.kernel ∧ VidmapEntry s'.kernel := by
    have hmoves := step_moves hs.1.six hstep
    exact ⟨hs.1.moves hmoves, hs.2.moves hs.1 hkept hmoves⟩
  obtain ⟨hspace', hentry⟩ := run_invariant hkeep hstart hkept hafter
  exact hentry.own hspace'

theorem vidmap_coherent_second_round :
    let locals : Locals := ⟨fun _ => 0, fun _ => 0⟩
    let after : List Event := [.switch_terminal 2, .pit_interrupt locals, .sys_halt 0 locals]
    ∃ s, run (step shellImage) (boot blankMachine) (List.replicate 4 (.pit_interrupt locals) ++ after) = some s ∧
      s.kernel.sched_term_id = 2 ∧ VidmapOwn s.kernel := by
  intro locals after
  obtain ⟨s₀, hbefore, htask, htick⟩ : ∃ s₀, run (step shellImage) (boot blankMachine)
      (List.replicate 3 (.pit_interrupt locals)) = some s₀ ∧
      (s₀.kernel.terminals (next_tid s₀.kernel.sched_term_id)).cur_task ≠ NULL ∧
      (run (step shellImage) s₀ [.pit_interrupt locals]).any (fun s₁ => decide
        (Guarded (step shellImage) VidmapKept s₁ after ∧ (run (step shellImage) s₁ after).any
          (fun s => decide (s.kernel.sched_term_id = 2)) = true)) = true := exists_run (by decide +kernel)
  obtain ⟨s₁, htick, hkept, hafter⟩ := exists_run htick
  obtain ⟨s, hafter, hsched⟩ := exists_run hafter
  have hstep : step shellImage s₀ (.pit_interrupt locals) = some s₁ := by
    obtain ⟨s', hstep, hrun⟩ := run_cons_eq_some.mp htick
    cases hrun
    exact hstep
  refine ⟨s, ?_, hsched,
    vidmap_coherent shellImage blankMachine _ after locals s₀ s₁ s hbefore htask hstep hkept hafter⟩
  rw [List.replicate_succ', List.append_assoc, run_append, hbefore, Option.bind_some, List.singleton_append, run, hstep,
    Option.bind_some, hafter]

/-- The first shell of terminal 1 would draw on the screen of terminal 0; and once it
    has the right page, Alt+F2 leaves it drawing where the screen of terminal 1 was. -/
theorem vidmap_of_another_screen :
    let locals : Locals := ⟨fun _ => 0, fun _ => 0⟩
    ∀ events ∈ [[.pit_interrupt locals], List.replicate 4 (.pit_interrupt locals) ++ [.switch_terminal 1]],
      ∃ s, run (step shellImage) (boot blankMachine) events = some s ∧ (runningProcess s.kernel).isSome ∧
        s.kernel.sched_term_id = 1 ∧ ¬ VidmapOwn s.kernel := by
  intro locals events hevents
  simp only [List.mem_cons, List.not_mem_nil, or_false] at hevents
  obtain rfl | rfl := hevents
  · exact exists_run (by decide +kernel)
  · exact exists_run (by decide +kernel)

end lacos.system
