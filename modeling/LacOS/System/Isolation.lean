import LacOS.Syscalls.Execute.Load
import LacOS.System.Actions
import LacOS.System.Halting.Follows
import LacOS.System.Live

open memory lacos.lib lacos.file_system lacos.paging lacos.pcb lacos.multi_term lacos.syscalls lacos.timer
open lacos.idt_handle trace

namespace lacos.system

/-- What can happen to the memory of the processes: what happens to the kernel, or an action
    of the running program. -/
inductive Doing where
  | happening (happening : Happening)
  | action (action : Action)

/-- Only a process acts, and not inside its `sys_halt`. -/
def doingStep (fs : Image) (c : Computer) : Doing → Option Computer
  | .happening happening => happen fs c happening
  | .action action =>
    if c.pending = none ∧ c.kernel.cur_pcb ≠ NULL then (act fs c.kernel action).map ({ c with kernel := · }) else none

/-- Programs keep to their own pages, and no tick falls into a `sys_halt`. -/
def Allowed (c : Computer) : Doing → Prop
  | .happening happening => NoTickInside c happening
  | .action action => Proper c.kernel action

instance (c : Computer) (doing : Doing) : Decidable (Allowed c doing) := by
  cases doing <;> unfold Allowed <;> infer_instance

/-- The page at `PROGRAM_VIRT` is that of the current process. -/
def OwnMapped (k : Kernel) : Prop :=
  k.cur_pcb ≠ NULL → k.page_directory 32 = (k.pcbs k.cur_pcb).page_addr + 0x87

/-- The process in slot `n` has kept its slot, its block and the contents of its page. Its saved
    stack pointers are the kernel's own. -/
structure Undisturbed (n : Nat) (k k' : Kernel) : Prop where
  taken : Taken k'.pcb_status n
  block : ∃ esp, k'.pcbs (slotBlock n) = { k.pcbs (slotBlock n) with esp := esp }
  page : k'.pages (programPage n) = k.pages (programPage n)

/-- The six slots have six pages. -/
theorem programPage_inj {n m : Nat} (hn : n < 6) (hm : m < 6) (heq : programPage n = programPage m) : n = m := by
  have htoNat := congrArg UInt32.toNat heq
  rw [programPage_toNat hn, programPage_toNat hm] at htoNat
  omega

/-- `PROGRAM_VIRT` leads to the page whose entry is in the directory. -/
theorem resolve_program_virt {pg : Paging} {n : Nat} (hn : n < 6) (hdir : pg.page_directory 32 = programPage n + 0x87) :
    resolve_virt_addr pg PROGRAM_VIRT = programPage n := by
  rw [resolve_program hn hdir ⟨by decide, by decide⟩, UInt32.sub_self, UInt32.add_zero]

section OwnMapped

variable {fs : Image} {page_tables : UInt32 → UInt32} {k k' : Kernel}

/-- Mapping a program's page puts its entry into the directory, whatever was there. -/
theorem mapProgram_entry {n : Nat} (hn : n < 6) (pg : Paging) :
    (map_page pg (programPage n) PROGRAM_VIRT true true true true).2.page_directory 32 = programPage n + 0x87 := by
  rw [mapProgram_eq hn]
  exact Function.update_self 32 _ pg.page_directory

/-- A refused command leaves every block its page. -/
theorem refused_page_addr (hrefused : Refused k k') (p : UInt32) :
    (k'.pcbs p).page_addr = (k.pcbs p).page_addr := by
  obtain ⟨-, hpcbs⟩ | ⟨-, -, io_files, tail, hpcbs⟩ := hrefused.slots
  · rw [hpcbs]
  · rw [hpcbs]
    by_cases hp : p = blockAddr (find_empty_pcb k.pcb_status).1
    · rw [hp, Function.update_self]
    · rw [Function.update_of_ne hp]

/-- A program that `sys_execute` starts has its own page mapped, and a refusal changes nothing. -/
theorem OwnMapped.executed (hk : OwnMapped k) {command : CString} {locals : Locals}
    (hexecuted : Executed fs k command locals k') : OwnMapped k' := by
  intro hcur
  obtain ⟨-, hrefused⟩ | ⟨n, -, -, hn, -, hlaunched⟩ := hexecuted
  · rw [hrefused.cur_pcb] at hcur
    rw [hrefused.paging, hrefused.cur_pcb, refused_page_addr hrefused]
    exact hk hcur
  · rw [hlaunched.page_directory, hlaunched.cur_pcb, hlaunched.page_addr, mapProgram_entry hn]

/-- After a `sys_halt` the page of the parent is mapped, with the parent as the current process.
    -/
theorem ownMapped_released (hk : SpaceSound page_tables k) (hcur : k.cur_pcb ≠ NULL) (hreleased : Released k k') :
    OwnMapped k' := by
  intro hparent
  obtain ⟨slots, hlive⟩ := hk.live
  obtain ⟨n, hn, hpage⟩ := hlive.haltPage hcur
  rw [hreleased.cur_pcb] at hparent
  have haddr : (k'.pcbs (k.pcbs k.cur_pcb).parent_task).page_addr = haltPage k (k.pcbs k.cur_pcb) := by
    obtain ⟨io_files, hblock⟩ := hreleased.block (k.pcbs k.cur_pcb).parent_task
    rw [haltPage, if_pos hparent, hblock]
  rw [hreleased.cur_pcb, haddr, hreleased.page_directory, hpage, mapProgram_entry hn]

/-- A task that is resumed has its own page mapped. -/
theorem ownMapped_resumed (hk : SpaceSound page_tables k) (hresumed : TaskResumed k k') : OwnMapped k' := by
  intro hcur
  rw [hresumed.cur_pcb] at hcur
  obtain ⟨n, hn, hpage⟩ := hk.cur_page hcur
  rw [hresumed.cur_pcb, hresumed.pcbs, hresumed.paging, hpage, hk.paged,
    mapVidmap_directory (hk.confined.mapProgram hn) (pageOf_le _ _), mapProgram_entry hn]

end OwnMapped

/-- What is true of the memory of the processes all the time. -/
structure Mapped (page_tables : UInt32 → UInt32) (k : Kernel) : Prop where
  space : SpaceSound page_tables k
  own : OwnMapped k

/-- A system call leaves the kernel sound. -/
theorem SpaceSound.served {page_tables : UInt32 → UInt32} {k k' : Kernel} (hk : SpaceSound page_tables k)
    (hserved : Served k k') : SpaceSound page_tables k' := by
  obtain ⟨slots, hlive⟩ := hk.live
  refine ⟨⟨slots, ?_⟩, fun t => ?_, hserved.paging ▸ hk.confined⟩
  · refine hlive.congr (hserved.pcb_status ▸ hlive.six) (fun p => ?_) (hserved.cur_pcb ▸ hlive.cur_pcb) fun t => ?_
    · obtain ⟨io_files, hblock⟩ := hserved.block p
      exact ⟨io_files, _, _, _, hblock⟩
    · exact hserved.console.cur_task t ▸ hlive.cur_task t
  · exact (hserved.console.vid_mem t).trans (hserved.console.vis_term_id ▸ hk.paged t)

section Mapped

variable {fs : Image} {page_tables : UInt32 → UInt32} {k k' : Kernel} (hk : Mapped page_tables k)
include hk

/-- The page of the current process is the page of its slot. -/
theorem Mapped.ownPage_eq {n : Nat} (hn : n < 6) (hcur : k.cur_pcb = slotBlock n) : ownPage k = programPage n := by
  have hnull : k.cur_pcb ≠ NULL := hcur ▸ slotBlock_ne_null (by omega)
  obtain ⟨slots, hlive⟩ := hk.space.live
  obtain hzero | ⟨m, hm, hslot⟩ := hlive.cur_pcb
  · exact absurd hzero hnull
  · have hm6 := hlive.below m hm
    obtain rfl := (slotBlock_inj (by omega) (by omega)).mp (hcur.symm.trans hslot)
    refine resolve_program_virt hn ?_
    rw [hk.own hnull, hcur, hlive.page_addr n hm]

/-- A system call leaves the running program its page. -/
theorem Mapped.served (hserved : Served k k') : Mapped page_tables k' := by
  refine ⟨hk.space.served hserved, ?_⟩
  obtain ⟨_, hblock⟩ := hserved.block k.cur_pcb
  rw [OwnMapped, hserved.cur_pcb, hserved.paging, hblock]
  exact hk.own

/-- The contents of a page do not matter to what is mapped. -/
theorem Mapped.setOwnMemory (m : Mem) : Mapped page_tables (setOwnMemory k m) := by
  obtain ⟨slots, hlive⟩ := hk.space.live
  exact ⟨⟨⟨slots, { hlive with }⟩, hk.space.paged, { hk.space.confined with }⟩, hk.own⟩

/-- So does every action of the program. -/
theorem Mapped.acted (hacted : Acted k k') : Mapped page_tables k' := by
  obtain ⟨served, m, hserved, rfl⟩ := hacted
  exact (hk.served hserved).setOwnMemory m

end Mapped

/-- So does every event, with a page for the program that runs afterwards. -/
theorem Mapped.moves {fs : Image} {page_tables : UInt32 → UInt32} {s s' : System} {event : Event}
    (hs : Mapped page_tables s.kernel) (hmoves : Moves fs s event s') : Mapped page_tables s'.kernel := by
  refine ⟨hs.space.moves hmoves, ?_⟩
  cases hmoves with
  | started locals k' hnull hexecuted =>
    exact OwnMapped.executed (fun hcur => absurd hnull hcur) hexecuted
  | resumed locals k' htask hresumed => exact ownMapped_resumed (hs.space.handOver _) hresumed
  | switched new_term_id => exact switch_terminal_keeps hs.own (fun _ => hs.own) new_term_id
  | executed p command locals k' hrunning hexecuted => exact hs.own.executed hexecuted
  | returned event exit locals p ending released frame hexit hrunning hcur hending hreleased hparent hframe =>
    have hown : OwnMapped released := ownMapped_released (hs.space.ending hending) (hending.cur_pcb ▸ hcur) hreleased
    exact hown
  | restarted event exit locals p ending released k' outcome hexit hrunning hcur hending hreleased hparent hexecuted =>
    have hspace := hs.space.ending hending
    have hcur' : ending.cur_pcb ≠ NULL := hending.cur_pcb ▸ hcur
    have hnull : (beforeRestart released).cur_pcb = NULL := by
      rw [beforeRestart, hreleased.cur_pcb, hending.pcbs, hending.cur_pcb, hparent]
    exact OwnMapped.executed (fun hne => absurd hnull hne) (hexecuted (hspace.released hcur' hreleased).six)
  | entry_executed locals k' hrunning hspinning hexecuted => exact hs.own.executed hexecuted

section Undisturbed

variable {fs : Image} {page_tables : UInt32 → UInt32} {k k' k'' : Kernel} {n : Nat}

theorem undisturbed_self (htaken : Taken k.pcb_status n) : Undisturbed n k k :=
  ⟨htaken, ⟨_, rfl⟩, rfl⟩

/-- A process that is undisturbed twice is so altogether. -/
theorem Undisturbed.trans (h : Undisturbed n k k') (h' : Undisturbed n k' k'') : Undisturbed n k k'' := by
  obtain ⟨esp, hblock⟩ := h.block
  obtain ⟨esp', hblock'⟩ := h'.block
  exact ⟨h'.taken, ⟨esp', by rw [hblock', hblock]⟩, h'.page.trans h.page⟩

/-- A new process's page is the only one that `sys_execute` changes. -/
theorem launched_pages {m : Nat} {command : CString} {locals : Locals} {outcome : Outcome}
    (hexecute : sys_execute fs k command locals = some (outcome, k')) (hpasses : Passes fs k command locals)
    (hm : m < 6) (hlaunched : Launched k k' m) {page : UInt32} (hpage : page ≠ programPage m) :
    k'.pages page = k.pages page := by
  obtain ⟨hrefused, -⟩ | ⟨-, -, ⟨entry, rfl⟩, -⟩ := sys_execute_cases hexecute
  · exact absurd hpasses hrefused
  · obtain ⟨dentry, hdentry, -⟩ := (Option.any_eq_true _ _).mp hpasses.2
    obtain ⟨mapped, hpages, hpaging⟩ := sys_execute_paging hdentry hexecute
    have hdir : mapped.page_directory 32 = programPage m + 0x87 := by
      have hsame : k'.page_directory = mapped.page_directory := by rw [hpaging]; rfl
      rw [← hsame, hlaunched.page_directory, mapProgram_entry hm]
    have hown := resolve_program_virt hm hdir
    rw [hpaging]
    change Function.update mapped.pages (resolve_virt_addr mapped.toPaging PROGRAM_VIRT) _ page = k.pages page
    rw [hown, Function.update_of_ne hpage, hpages]

/-- `sys_execute` does not touch a slot that is taken: the new program is loaded to the page of a
    free one. -/
theorem undisturbed_executed (hsix : SixSlots k.pcb_status) (htaken : Taken k.pcb_status n) {command : CString}
    {locals : Locals} {outcome : Outcome} (hexecute : sys_execute fs k command locals = some (outcome, k')) :
    Undisturbed n k k' := by
  have hn := hsix n htaken
  have hother {m : Nat} (hm : m < 6) (hfree : ¬ Taken k.pcb_status m) : n ≠ m ∧ slotBlock n ≠ slotBlock m := by
    have hne : n ≠ m := fun heq => hfree (heq ▸ htaken)
    exact ⟨hne, fun heq => hne ((slotBlock_inj (by omega) (by omega)).mp heq)⟩
  obtain ⟨-, hrefused⟩ | ⟨m, hpasses, -, hm, hfree, hlaunched⟩ := sys_execute_executed hsix hexecute
  · have hpage : k'.pages = k.pages := by rw [hrefused.paging]
    obtain ⟨hstatus, hpcbs⟩ | ⟨m, hm, hfree, hstatus, io_files, tail, hpcbs⟩ := hrefused.six hsix
    · exact ⟨hstatus ▸ htaken, ⟨_, by rw [hpcbs]⟩, by rw [hpage]⟩
    · refine ⟨hstatus ▸ (taken_or (by omega) _ _).mpr (.inr htaken), ⟨(k.pcbs (slotBlock n)).esp, ?_⟩,
        by rw [hpage]⟩
      rw [hpcbs, Function.update_of_ne (hother hm hfree).2]
  · obtain ⟨hne, hblock⟩ := hother hm hfree
    refine ⟨hlaunched.pcb_status ▸ (taken_or (by omega) _ _).mpr (.inr htaken), hlaunched.other hblock, ?_⟩
    exact launched_pages hexecute hpasses hm hlaunched fun heq => hne (programPage_inj hn hm heq)

/-- The slot that `sys_halt` frees is that of the current process. -/
theorem taken_haltOffset (hk : SpaceSound page_tables k) (hcur : k.cur_pcb ≠ NULL) (haway : k.cur_pcb ≠ slotBlock n)
    {status : UInt32} (htaken : Taken status n) : Taken (status &&& ~~~(1 <<< (haltOffset k.cur_pcb - 1))) n := by
  obtain ⟨slots, hlive⟩ := hk.live
  obtain hnull | ⟨m, hm, hslot⟩ := hlive.cur_pcb
  · exact absurd hnull hcur
  · have hm6 := hlive.below m hm
    have hne : n ≠ m := fun heq => haway (heq ▸ hslot)
    change Taken (status &&& ~~~(1 <<< haltSlot k.cur_pcb)) n
    rw [hslot, haltSlot_block (by omega)]
    exact (taken_clear (by omega) _ _).mpr ⟨hne, htaken⟩

/-- One statement of `sys_halt`. -/
theorem undisturbed_exec {offset : UInt32} {next : HaltStatement} (htaken : Taken k.pcb_status n)
    (hslot : ∀ status, Taken status n → Taken (status &&& ~~~(1 <<< (offset - 1))) n)
    (haway : next = .close_pcb → k.cur_pcb ≠ slotBlock n) : Undisturbed n k (next.exec offset k) := by
  cases next with
  | map_page =>
    refine ⟨htaken, ⟨_, rfl⟩, ?_⟩
    rw [HaltStatement.exec, mapProgram_pages]
  | pcb_status => exact ⟨hslot _ htaken, ⟨_, rfl⟩, rfl⟩
  | close_pcb =>
    rw [HaltStatement.exec]
    by_cases hnull : k.cur_pcb = NULL
    · rw [close_pcb_null k hnull]
      exact undisturbed_self htaken
    · obtain ⟨block, hblock⟩ : ∃ block, (close_pcb k k.cur_pcb).2 = k.setPcb k.cur_pcb block :=
        ⟨_, by rw [close_pcb_eq k hnull]⟩
      have hother : (k.setPcb k.cur_pcb block).pcbs (slotBlock n) = k.pcbs (slotBlock n) := by
        simp only [Kernel.setPcb, Function.update_of_ne (Ne.symm (haway rfl))]
      rw [hblock]
      exact ⟨htaken, ⟨(k.pcbs (slotBlock n)).esp, by rw [hother]⟩, rfl⟩
  | cur_task => exact ⟨htaken, ⟨_, rfl⟩, rfl⟩
  | cur_pcb => exact ⟨htaken, ⟨_, rfl⟩, rfl⟩
  | restore =>
    rw [HaltStatement.exec]
    split
    · exact ⟨htaken, ⟨_, rfl⟩, rfl⟩
    · exact ⟨htaken, ⟨_, rfl⟩, rfl⟩

/-- Of the statements of `sys_halt` one changes the current process. -/
theorem exec_cur_pcb {offset : UInt32} {next : HaltStatement} (hnext : next ≠ .cur_pcb) :
    (next.exec offset k).cur_pcb = k.cur_pcb := by
  cases next with
  | map_page => rfl
  | pcb_status => rfl
  | close_pcb =>
    rw [HaltStatement.exec]
    by_cases hnull : k.cur_pcb = NULL
    · rw [close_pcb_null k hnull]
    · rw [close_pcb_eq k hnull]
      rfl
  | cur_task => rfl
  | cur_pcb => exact absurd rfl hnext
  | restore =>
    rw [HaltStatement.exec]
    split <;> rfl

/-- The statements of `sys_halt` one after the other. The descriptors are closed before
    `cur_pcb` is changed. -/
theorem undisturbed_foldl {offset : UInt32} {statements : List HaltStatement} (htaken : Taken k.pcb_status n)
    (hslot : ∀ status, Taken status n → Taken (status &&& ~~~(1 <<< (offset - 1))) n)
    (haway : HaltStatement.close_pcb ∈ statements → k.cur_pcb ≠ slotBlock n)
    (horder : statements.Pairwise fun first later => first = .cur_pcb → later ≠ .close_pcb) :
    Undisturbed n k (statements.foldl (HaltStatement.exec offset) k) := by
  induction statements generalizing k with
  | nil => exact undisturbed_self htaken
  | cons next rest ih =>
    obtain ⟨hnext, hrest⟩ := List.pairwise_cons.mp horder
    have hexec : Undisturbed n k (next.exec offset k) :=
      undisturbed_exec htaken hslot fun heq => haway (heq ▸ List.mem_cons_self)
    refine hexec.trans (ih hexec.taken (fun hclose => ?_) hrest)
    rw [exec_cur_pcb fun heq => hnext _ hclose heq rfl]
    exact haway (List.mem_cons_of_mem _ hclose)

/-- The process that halts gives up its own slot, whichever statement it has come to. -/
theorem undisturbed_halting (hk : SpaceSound page_tables k) (hcur : k.cur_pcb ≠ NULL) (htaken : Taken k.pcb_status n)
    (haway : k.cur_pcb ≠ slotBlock n) {done : List HaltStatement} (hdone : done <+: haltStatements) :
    Undisturbed n k (done.foldl (HaltStatement.exec (haltOffset k.cur_pcb)) k) := by
  have horder : haltStatements.Pairwise fun first later => first = .cur_pcb → later ≠ .close_pcb := by decide
  exact undisturbed_foldl htaken (fun _ => taken_haltOffset hk hcur haway) (fun _ => haway)
    (horder.sublist hdone.sublist)

/-- How `sys_halt` goes on from the release of the process, as far as processes are concerned. -/
theorem sys_halt_release {status : UInt8} {locals : Locals} {halted : Halted}
    (hhalt : sys_halt fs k status locals = some (halted, k')) :
    k'.pcb_status = (release k).pcb_status ∧ k'.pcbs = (release k).pcbs ∧ k'.pages = (release k).pages ∨
      ∃ outcome, sys_execute fs (beforeRestart (release k)) shell locals = some (outcome, k') := by
  obtain ⟨-, released, rfl, -, ⟨-, frame, -, -, rfl⟩ | ⟨-, outcome, hexecute, -⟩⟩ := sys_halt_cases hhalt
  · exact .inl ⟨rfl, rfl, rfl⟩
  · exact .inr ⟨outcome, hexecute⟩

/-- A `sys_halt` of another process leaves the process its slot, its block and its page. -/
theorem undisturbed_halted (hk : SpaceSound page_tables k) (htaken : Taken k.pcb_status n)
    (haway : k.cur_pcb ≠ slotBlock n) {status : UInt8} {locals : Locals} {halted : Halted}
    (hhalt : sys_halt fs k status locals = some (halted, k')) : Undisturbed n k k' := by
  have hcur := (sys_halt_cases hhalt).1
  have hrelease : Undisturbed n k (release k) :=
    undisturbed_halting hk hcur htaken haway (List.prefix_append releaseStatements _)
  obtain ⟨hstatus, hpcbs, hpages⟩ | ⟨outcome, hexecute⟩ := sys_halt_release hhalt
  · exact ⟨hstatus ▸ hrelease.taken, hpcbs ▸ hrelease.block, hpages ▸ hrelease.page⟩
  · have hsix := (hk.released hcur (release_released hcur)).six
    have hbefore : Undisturbed n (release k) (beforeRestart (release k)) := ⟨hrelease.taken, ⟨_, rfl⟩, rfl⟩
    exact (hrelease.trans hbefore).trans (undisturbed_executed hsix hrelease.taken hexecute)

/-- A switch of tasks saves stack pointers and maps a page, and may start a shell in a free slot.
    -/
theorem undisturbed_switched (hk : SpaceSound page_tables k) (htaken : Taken k.pcb_status n) {t : Fin MAX_TERM_NUM}
    {locals : Locals} (hswitch : switch_tasks fs k t locals = some k') : Undisturbed n k k' := by
  obtain ⟨-, rfl⟩ | ⟨-, ⟨-, outcome, hexecute⟩ | ⟨-, hresumed⟩⟩ := switch_tasks_cases hswitch
  · exact undisturbed_self htaken
  · have hbefore : Undisturbed n k (beforeRestart (handOver k t)) := ⟨htaken, ⟨_, rfl⟩, rfl⟩
    exact hbefore.trans (undisturbed_executed hk.six htaken hexecute)
  · refine ⟨hresumed.pcb_status ▸ htaken, ⟨(k.pcbs (slotBlock n)).esp, ?_⟩, ?_⟩
    · rw [hresumed.pcbs]
      rfl
    · rw [hresumed.paging, map_page_pages, map_page_pages]
      rfl

/-- The running program writes to its own page and its own descriptors. -/
theorem undisturbed_acted (hk : Mapped page_tables k) (hcur : k.cur_pcb ≠ NULL) (htaken : Taken k.pcb_status n)
    (haway : k.cur_pcb ≠ slotBlock n) (hacted : Acted k k') : Undisturbed n k k' := by
  obtain ⟨served, m, hserved, rfl⟩ := hacted
  obtain ⟨slots, hlive⟩ := hk.space.live
  obtain hnull | ⟨i, hi, hslot⟩ := hlive.cur_pcb
  · exact absurd hnull hcur
  · have hi6 := hlive.below i hi
    have hne : n ≠ i := fun heq => haway (heq ▸ hslot)
    have hpage : programPage n ≠ ownPage served := by
      rw [ownPage, hserved.paging, ← ownPage, hk.ownPage_eq hi6 hslot]
      exact fun heq => hne (programPage_inj (hk.space.six n htaken) hi6 heq)
    refine ⟨hserved.pcb_status ▸ htaken, ⟨(k.pcbs (slotBlock n)).esp, hserved.other (Ne.symm haway)⟩, ?_⟩
    change Function.update served.pages (ownPage served) m (programPage n) = _
    rw [Function.update_of_ne hpage, hserved.paging]

/-- No event disturbs a process that is not the current one. By cases on what the event does. -/
theorem undisturbed_step {s s' : System} {event : Event} (hs : Mapped page_tables s.kernel)
    (htaken : Taken s.kernel.pcb_status n) (haway : s.kernel.cur_pcb ≠ slotBlock n)
    (hstep : step fs s event = some s') : Undisturbed n s.kernel s'.kernel := by
  cases event with
  | pit_interrupt locals =>
    obtain ⟨k₁, hticked, rfl⟩ := Option.map_eq_some_iff.mp hstep
    obtain ⟨k₂, hswitch, rfl⟩ := Option.map_eq_some_iff.mp hticked
    obtain ⟨slots, hlive⟩ := hs.space.live
    have hspace : SpaceSound page_tables (cli s.kernel) := ⟨⟨slots, { hlive with }⟩, hs.space.paged, hs.space.confined⟩
    have hswitched := undisturbed_switched hspace htaken hswitch
    exact ⟨hswitched.taken, hswitched.block, hswitched.page⟩
  | switch_terminal new_term_id =>
    cases hstep
    exact switch_terminal_keeps (undisturbed_self htaken) (fun _ => ⟨htaken, ⟨_, rfl⟩, rfl⟩) new_term_id
  | sys_execute command locals =>
    obtain ⟨p, -, hstep⟩ := Option.bind_eq_some_iff.mp hstep
    obtain ⟨⟨outcome, k₁⟩, hexecute, hstep⟩ := Option.bind_eq_some_iff.mp hstep
    cases hstep
    exact undisturbed_executed hs.space.six htaken hexecute
  | sys_halt status locals =>
    obtain ⟨p, -, hstep⟩ := Option.bind_eq_some_iff.mp hstep
    obtain ⟨⟨halted, k₁⟩, hhalt, hstep⟩ := Option.bind_eq_some_iff.mp hstep
    cases hstep
    exact undisturbed_halted hs.space htaken haway hhalt
  | exception exception locals =>
    obtain ⟨p, -, hstep⟩ := Option.bind_eq_some_iff.mp hstep
    obtain ⟨⟨halted, k₁⟩, hhandle, hstep⟩ := Option.bind_eq_some_iff.mp hstep
    cases hstep
    obtain ⟨ending, heq⟩ : ∃ ending,
        { s.kernel.onConsole (printText · exception.message) with except_raised := true } = ending := ⟨_, rfl⟩
    have hending : Ending s.kernel ending .excepted := heq ▸ ending_handle s.kernel exception
    have hsame : Undisturbed n s.kernel ending := by
      refine ⟨?_, ⟨(s.kernel.pcbs (slotBlock n)).esp, by rw [hending.pcbs]⟩, by rw [hending.paging]⟩
      rw [hending.tasks]
      exact htaken
    have hhalt : sys_halt fs ending 0 locals = some (halted, k₁) := heq ▸ hhandle
    exact hsame.trans (undisturbed_halted (hs.space.ending hending) hsame.taken (hending.cur_pcb ▸ haway) hhalt)
  | entry_execute locals =>
    rw [step] at hstep
    split at hstep
    · obtain ⟨⟨outcome, k₁⟩, hexecute, rfl⟩ := Option.map_eq_some_iff.mp hstep
      exact undisturbed_executed hs.space.six htaken hexecute
    · cases hstep

/-- In the middle of a `sys_halt` as before it. -/
theorem Follows.undisturbed {c : Computer} {s : System} (hc : Follows c s) (hs : SpaceSound page_tables s.kernel)
    (htaken : Taken s.kernel.pcb_status n) (haway : c.pending ≠ none → s.kernel.cur_pcb ≠ slotBlock n) :
    Undisturbed n s.kernel c.kernel := by
  obtain ⟨-, hsystem, -⟩ | ⟨next, hpending⟩ := hc.pending_cases
  · rw [hsystem]
    exact undisturbed_self htaken
  have haway := haway (hpending ▸ Option.some_ne_none next)
  cases hc with
  | idle hsystem hunfinished =>
    rw [hsystem]
    exact undisturbed_self htaken
  | halting p done rest status hrunning hall hrest hcur hsystem hunfinished =>
    rw [hsystem]
    by_cases hfirst : done = []
    · exact hfirst ▸ undisturbed_self htaken
    · exact undisturbed_halting hs (hcur hfirst) htaken haway ⟨rest, hall⟩
  | jumping p status hrunning hcur hparent hsystem hunfinished =>
    rw [hsystem]
    exact undisturbed_halting hs hcur htaken haway (List.prefix_refl _)
  | restarting p status hrunning hcur hnull hsystem hunfinished =>
    rw [hsystem]
    exact undisturbed_halting hs hcur htaken haway (List.prefix_refl _)
  | returning p status frame hrunning hcur hparent hframe hsystem hunfinished =>
    have hdone : Undisturbed n s.kernel (haltDone s.kernel) :=
      undisturbed_halting hs hcur htaken haway (List.prefix_refl _)
    rw [hsystem]
    exact ⟨hdone.taken, hdone.block, hdone.page⟩

end Undisturbed

/-- The process in slot `n` is not the current one, or becomes it only as the parent that a
    `sys_halt` goes back to; and whoever runs keeps to its own page. -/
def Away (n : Nat) (c : Computer) (doing : Doing) : Prop :=
  (c.pending = none → c.kernel.cur_pcb ≠ slotBlock n) ∧ Allowed c doing

instance (n : Nat) (c : Computer) (doing : Doing) : Decidable (Away n c doing) :=
  inferInstanceAs (Decidable (_ ∧ _))

section Doings

variable {fs : Image} {page_tables : UInt32 → UInt32} {n : Nat} {k : Kernel} {c c' : Computer} {doing : Doing}

/-- The computer works on a system whose processes have the pages they should have. -/
def MappedWork (page_tables : UInt32 → UInt32) (c : Computer) : Prop :=
  ∃ s, Follows c s ∧ Mapped page_tables s.kernel

/-- The process in slot `n` is as it was, and no `sys_halt` that goes on is its own. -/
def AwayWork (page_tables : UInt32 → UInt32) (n : Nat) (k : Kernel) (c : Computer) : Prop :=
  ∃ s, Follows c s ∧ Mapped page_tables s.kernel ∧ Undisturbed n k s.kernel ∧
    (c.pending ≠ none → s.kernel.cur_pcb ≠ slotBlock n)

/-- An action is one of the system at work, in a process that has nothing to finish. -/
theorem act_idle {action : Action} {s : System} (hc : Follows c s)
    (hstep : doingStep fs c (.action action) = some c') :
    c.toSystem = s ∧ c.kernel.cur_pcb ≠ NULL ∧ ∃ k', act fs c.kernel action = some k' ∧
      Follows c' { s with kernel := k' } ∧ c'.pending = none := by
  rw [doingStep] at hstep
  split at hstep
  · rename_i hfree
    obtain ⟨k', hact, rfl⟩ := Option.map_eq_some_iff.mp hstep
    obtain ⟨rfl, hunfinished⟩ := hc.idle_of_pending hfree.1
    exact ⟨rfl, hfree.2, k', hact, .idle rfl hunfinished, by rw [Computer.pending, hunfinished]⟩
  · cases hstep

/-- Everything that is allowed leaves the processes the pages they should have, also between the
    statements of a `sys_halt`. -/
theorem MappedWork.step (hc : MappedWork page_tables c) (hallowed : Allowed c doing)
    (hstep : doingStep fs c doing = some c') : MappedWork page_tables c' := by
  cases doing with
  | happening happening =>
    have hkeep (s : System) (event : Event) (s' : System) (hs : Mapped page_tables s.kernel) (_ : True)
        (hstep : step fs s event = some s') : Mapped page_tables s'.kernel :=
      hs.moves (step_moves hs.space.six hstep)
    exact follows_keeps (fun s hs => hs.space.six) hkeep hallowed (fun _ _ _ => trivial) hc hstep
  | action action =>
    obtain ⟨s, hc, hs⟩ := hc
    obtain ⟨rfl, -, k', hact, hc', -⟩ := act_idle hc hstep
    exact ⟨_, hc', hs.acted (act_acted hallowed hact)⟩

/-- Nothing that happens elsewhere disturbs the process. Its own return as the parent of a
    `sys_halt` is included. -/
theorem AwayWork.step (hc : AwayWork page_tables n k c) (haway : Away n c doing)
    (hstep : doingStep fs c doing = some c') : AwayWork page_tables n k c' := by
  obtain ⟨s, hc, hs, hsame, hhalting⟩ := hc
  have hother : s.kernel.cur_pcb ≠ slotBlock n := by
    by_cases hpending : c.pending = none
    · obtain ⟨rfl, -⟩ := hc.idle_of_pending hpending
      exact haway.1 hpending
    · exact hhalting hpending
  cases doing with
  | happening happening =>
    obtain hc' | ⟨event, s', -, hevent, hc', hdone⟩ := hc.happens hs.space.six haway.2 hstep
    · exact ⟨s, hc', hs, hsame, fun _ => hother⟩
    · refine ⟨s', hc', hs.moves (step_moves hs.space.six hevent),
        hsame.trans (undisturbed_step hs hsame.taken hother hevent), fun hpending => ?_⟩
      rw [hdone.resolve_left hpending]
      exact hother
  | action action =>
    obtain ⟨rfl, hcur, k', hact, hc', hdone⟩ := act_idle hc hstep
    have hacted := act_acted haway.2 hact
    exact ⟨_, hc', hs.acted hacted, hsame.trans (undisturbed_acted hs hcur hsame.taken hother hacted),
      fun hpending => absurd hdone hpending⟩

end Doings

end lacos.system
