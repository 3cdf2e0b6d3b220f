import LacOS.System.Live

open memory lacos.lib lacos.file_system lacos.paging lacos.pcb lacos.multi_term lacos.syscalls lacos.timer

namespace lacos.system

/-- The processes of a terminal: the one that runs when the terminal is scheduled, then
    the one that waits for it, and so on down to the terminal's shell. -/
abbrev Stacks := Fin MAX_TERM_NUM → List Process

def topPcb : List Process → UInt32
  | [] => NULL
  | p :: _ => p.pcb

def topContext : List Process → Context
  | [] => .entry
  | p :: _ => .process p

/-- The process has the slot `n`, and its block says where it runs. -/
structure Seated (k : Kernel) (t : Fin MAX_TERM_NUM) (p : Process) (n : Nat) : Prop where
  below : n < 6
  pcb : p.pcb = slotBlock n
  taken : Taken k.pcb_status n
  page_addr : (k.pcbs p.pcb).page_addr = programPage n
  esp0 : (k.pcbs p.pcb).esp0 = stackTop n
  term_num : (k.pcbs p.pcb).term_num = UInt8.ofNat t
  id : p.id < k.next_id

/-- Each process has been started by the next one, which is in the middle of the
    `sys_execute` that has done so. -/
def Chained (k : Kernel) : List Process → Prop
  | [] => True
  | p :: rest => (k.pcbs p.pcb).parent_task = topPcb rest ∧
    (∀ q ∈ rest.head?, (k.pcbs q.pcb).esp = some { caller := .process q, child := p }) ∧ Chained k rest

/-- The blocks are those of the processes on the stacks. -/
structure Stacked (tasks : Stacks) (k : Kernel) : Prop where
  seated : ∀ t, ∀ p ∈ tasks t, ∃ n, Seated k t p n
  distinct : ∀ t, ((tasks t).map Process.pcb).Nodup
  chained : ∀ t, Chained k (tasks t)
  cur_task : ∀ t, (k.terminals t).cur_task = topPcb (tasks t)

/-- What is current and what runs is the top of the scheduled terminal's stack, and
    each other terminal has its own saved. There is no process there only before the
    first tick. -/
structure Active (tasks : Stacks) (k : Kernel) : Prop where
  cur_pcb : k.cur_pcb = topPcb (tasks k.sched_term_id)
  running : k.running = topContext (tasks k.sched_term_id)
  saved : ∀ t ≠ k.sched_term_id, tasks t ≠ [] → (k.terminals t).esp = topContext (tasks t)
  mapped : tasks k.sched_term_id ≠ [] → resolve_virt_addr k.toPaging PROGRAM_VIRT = (k.pcbs k.cur_pcb).page_addr ∧
    k.tss_esp0 = (k.pcbs k.cur_pcb).esp0
  booting : tasks k.sched_term_id = [] → (∀ t, tasks t = []) ∧ k.starting_new_shell = false

section Stacked

variable {tasks : Stacks} {k k' : Kernel}

/-- Only parents, and the stack pointers of those that wait, matter for a chain. -/
theorem Chained.congr {stack : List Process} (hchained : Chained k stack)
    (hparent : ∀ p ∈ stack, (k'.pcbs p.pcb).parent_task = (k.pcbs p.pcb).parent_task)
    (hesp : ∀ p ∈ stack.tail, (k'.pcbs p.pcb).esp = (k.pcbs p.pcb).esp) : Chained k' stack := by
  induction stack with
  | nil => exact trivial
  | cons p rest ih =>
    obtain ⟨htop, hframe, hrest⟩ := hchained
    refine ⟨?_, fun q hq => ?_, ih hrest (fun q hq => hparent q (List.mem_cons_of_mem p hq)) fun q hq => ?_⟩
    · rw [hparent p List.mem_cons_self, htop]
    · rw [hesp q (List.mem_of_mem_head? hq), hframe q hq]
    · exact hesp q (List.mem_of_mem_tail hq)

/-- A process in a slot has a block. -/
theorem Seated.ne_null {t : Fin MAX_TERM_NUM} {p : Process} {n : Nat} (hp : Seated k t p n) : p.pcb ≠ NULL := by
  have hn := hp.below
  rw [hp.pcb]
  exact slotBlock_ne_null (by omega)

/-- The block of a process is not that of a free slot. -/
theorem Seated.ne_free {t : Fin MAX_TERM_NUM} {p : Process} {n m : Nat} (hp : Seated k t p n) (hm : m < 6)
    (hfree : ¬ Taken k.pcb_status m) : p.pcb ≠ slotBlock m := by
  intro heq
  rw [hp.pcb] at heq
  have hn := hp.below
  rw [slotBlock_inj (by omega) (by omega)] at heq
  exact hfree (heq ▸ hp.taken)

/-- A process has a block of its own if the terminals' numbers are in the blocks. -/
theorem Stacked.same_terminal (hk : Stacked tasks k) {t u : Fin MAX_TERM_NUM} {p q : Process} (hp : p ∈ tasks t)
    (hq : q ∈ tasks u) (heq : p.pcb = q.pcb) : t = u := by
  obtain ⟨n, hp⟩ := hk.seated t p hp
  obtain ⟨m, hq⟩ := hk.seated u q hq
  have hnum := hp.term_num
  rw [heq, hq.term_num] at hnum
  have hinj : ∀ t u : Fin MAX_TERM_NUM, UInt8.ofNat u = UInt8.ofNat t → t = u := by decide
  exact hinj t u hnum

/-- A terminal with processes has a task. -/
theorem Stacked.top_ne_null (hk : Stacked tasks k) {t : Fin MAX_TERM_NUM} (hne : tasks t ≠ []) :
    topPcb (tasks t) ≠ NULL := by
  cases hstack : tasks t with
  | nil => exact absurd hstack hne
  | cons p rest =>
    obtain ⟨n, hp⟩ := hk.seated t p (by rw [hstack]; exact List.mem_cons_self)
    exact hp.ne_null

/-- A process keeps its seat if its slot stays taken and its block changes in what no seat depends
    on. -/
theorem Seated.congr {t : Fin MAX_TERM_NUM} {p : Process} {n : Nat} (hp : Seated k t p n)
    (htaken : Taken k'.pcb_status n) (hnext : k.next_id ≤ k'.next_id)
    (hblock : ∃ io_files pcb_num tail esp, k'.pcbs p.pcb =
      { k.pcbs p.pcb with io_files := io_files, pcb_num := pcb_num, tail := tail, esp := esp }) : Seated k' t p n := by
  obtain ⟨io_files, pcb_num, tail, esp, hblock⟩ := hblock
  refine ⟨hp.below, hp.pcb, htaken, ?_, ?_, ?_, Nat.lt_of_lt_of_le hp.id hnext⟩
  · rw [hblock]
    exact hp.page_addr
  · rw [hblock]
    exact hp.esp0
  · rw [hblock]
    exact hp.term_num

/-- The same processes in a kernel whose blocks have other descriptors or names. -/
theorem Stacked.congr (hk : Stacked tasks k) (htaken : ∀ n, Taken k.pcb_status n → Taken k'.pcb_status n)
    (hnext : k.next_id ≤ k'.next_id) (hcur_task : ∀ t, (k'.terminals t).cur_task = (k.terminals t).cur_task)
    (hblocks : ∀ t, ∀ p ∈ tasks t, ∃ io_files pcb_num tail, k'.pcbs p.pcb =
      { k.pcbs p.pcb with io_files := io_files, pcb_num := pcb_num, tail := tail }) : Stacked tasks k' := by
  refine ⟨fun t p hp => ?_, hk.distinct, fun t => ?_, fun t => (hcur_task t).trans (hk.cur_task t)⟩
  · obtain ⟨n, hseated⟩ := hk.seated t p hp
    obtain ⟨io_files, pcb_num, tail, hblock⟩ := hblocks t p hp
    exact ⟨n, hseated.congr (htaken n hseated.taken) hnext ⟨io_files, pcb_num, tail, _, hblock⟩⟩
  · refine (hk.chained t).congr (fun p hp => ?_) fun p hp => ?_
    · obtain ⟨_, _, _, hblock⟩ := hblocks t p hp
      rw [hblock]
    · obtain ⟨_, _, _, hblock⟩ := hblocks t p (List.mem_of_mem_tail hp)
      rw [hblock]

/-- The block of a free slot is none of the processes on the stacks. -/
theorem Stacked.ne_free (hk : Stacked tasks k) {n : Nat} (hn : n < 6) (hfree : ¬ Taken k.pcb_status n)
    {t : Fin MAX_TERM_NUM} {p : Process} (hp : p ∈ tasks t) : p.pcb ≠ slotBlock n := by
  obtain ⟨m, hseated⟩ := hk.seated t p hp
  exact hseated.ne_free hn hfree

/-- A refused call leaves the stacks as they are. -/
theorem Stacked.refused (hk : Stacked tasks k) (hsix : SixSlots k.pcb_status) (hrefused : Refused k k') :
    Stacked tasks k' := by
  have hnext : k.next_id ≤ k'.next_id := hrefused.next_id ▸ le_refl _
  obtain ⟨hstatus, hpcbs⟩ | ⟨n, hn, hfree, hstatus, io_files, tail, hpcbs⟩ := hrefused.six hsix
  · refine hk.congr (fun m hm => hstatus ▸ hm) hnext hrefused.cur_task fun t p hp => ?_
    exact ⟨_, _, _, by rw [hpcbs]⟩
  · refine hk.congr (fun m hm => ?_) hnext hrefused.cur_task fun t p hp => ?_
    · rw [hstatus, taken_or (by omega)]
      exact .inr hm
    · rw [hpcbs, Function.update_of_ne (hk.ne_free hn hfree hp)]
      exact ⟨_, _, _, rfl⟩

/-- The stack pointers are saved in no process but the top one of the terminal. -/
theorem Stacked.ne_parent (hk : Stacked tasks k) {t u : Fin MAX_TERM_NUM} (hparent : startParent k = topPcb (tasks t))
    {p : Process} (hp : p ∈ tasks u) (hother : u ≠ t ∨ p ∈ (tasks t).tail) : p.pcb ≠ startParent k := by
  intro heq
  rw [hparent] at heq
  cases hstack : tasks t with
  | nil =>
    obtain ⟨n, hseated⟩ := hk.seated u p hp
    rw [hstack] at heq
    exact hseated.ne_null heq
  | cons q rest =>
    rw [hstack] at heq hother
    have hq : q ∈ tasks t := by
      rw [hstack]
      exact List.mem_cons_self
    obtain hu | hrest := hother
    · exact hu (hk.same_terminal hp hq heq)
    · have hdistinct := hk.distinct t
      rw [hstack, List.map_cons, List.nodup_cons] at hdistinct
      have hmem : p.pcb ∈ rest.map Process.pcb := List.mem_map_of_mem hrest
      rw [topPcb] at heq
      exact hdistinct.1 (heq ▸ hmem)

/-- A launched process is seated in its slot, on the terminal it is started on. -/
theorem seated_of_launched {n : Nat} (hn : n < 6) (hlaunched : Launched k k' n) :
    Seated k' (startTerm k) (newProcess k (slotBlock n)) n := by
  refine ⟨hn, newProcess_pcb k _, ?_, hlaunched.page_addr, hlaunched.esp0, ?_, ?_⟩
  · rw [hlaunched.pcb_status, taken_or (by omega)]
    exact .inl rfl
  · rw [newProcess_pcb, hlaunched.term_num]
  · rw [newProcess_id, hlaunched.next_id]
    exact Nat.lt_succ_self _

/-- A launch leaves the processes on the stacks their seats. Of their blocks it changes no
    more than the stack pointers of the parent. -/
theorem Stacked.seated_launched (hk : Stacked tasks k) {n : Nat} (hn : n < 6) (hfree : ¬ Taken k.pcb_status n)
    (hlaunched : Launched k k' n) {t : Fin MAX_TERM_NUM} {p : Process} (hp : p ∈ tasks t) : ∃ m, Seated k' t p m := by
  obtain ⟨m, hseated⟩ := hk.seated t p hp
  obtain ⟨esp, hesp⟩ := hlaunched.other (hk.ne_free hn hfree hp)
  refine ⟨m, hseated.congr ?_ (by rw [hlaunched.next_id]; exact Nat.le_succ _) ⟨_, _, _, esp, hesp⟩⟩
  rw [hlaunched.pcb_status, taken_or (by omega)]
  exact .inr hseated.taken

/-- A launch leaves the chains of the processes that wait: the parent is at the top of its
    stack, where no chain needs its stack pointers yet. -/
theorem Stacked.chained_launched (hk : Stacked tasks k) {n : Nat} (hn : n < 6) (hfree : ¬ Taken k.pcb_status n)
    (hlaunched : Launched k k' n) {t : Fin MAX_TERM_NUM} (hparent : startParent k = topPcb (tasks t))
    (u : Fin MAX_TERM_NUM) : Chained k' (tasks u) := by
  have hsame {p : Process} (hp : p ∈ tasks u) (hother : u ≠ t ∨ p ∈ (tasks t).tail) : k'.pcbs p.pcb = k.pcbs p.pcb :=
    hlaunched.others _ (hk.ne_free hn hfree hp) fun _ => hk.ne_parent hparent hp hother
  refine (hk.chained u).congr (fun p hp => ?_) fun p hp => ?_
  · obtain ⟨esp, hesp⟩ := hlaunched.other (hk.ne_free hn hfree hp)
    rw [hesp]
  · by_cases hu : u = t
    · rw [hsame (List.mem_of_mem_tail hp) (.inr (hu ▸ hp))]
    · rw [hsame (List.mem_of_mem_tail hp) (.inl hu)]

/-- A process that is started goes on top of the stack of its terminal. -/
theorem Stacked.push (hk : Stacked tasks k) {n : Nat} (hn : n < 6) (hfree : ¬ Taken k.pcb_status n)
    (hlaunched : Launched k k' n) {t : Fin MAX_TERM_NUM} (hterm : startTerm k = t)
    (hparent : startParent k = topPcb (tasks t))
    (hrunning : k.starting_new_shell = false → k.running = topContext (tasks t)) :
    Stacked (Function.update tasks t (newProcess k (slotBlock n) :: tasks t)) k' := by
  have hnew : Seated k' t (newProcess k (slotBlock n)) n := hterm ▸ seated_of_launched hn hlaunched
  have hblock {u : Fin MAX_TERM_NUM} {p : Process} (hp : p ∈ tasks u) : p.pcb ≠ slotBlock n := hk.ne_free hn hfree hp
  have hold {u : Fin MAX_TERM_NUM} {p : Process} (hp : p ∈ tasks u) : ∃ m, Seated k' u p m :=
    hk.seated_launched hn hfree hlaunched hp
  have hchain := hk.chained_launched hn hfree hlaunched hparent
  refine ⟨fun u p hp => ?_, fun u => ?_, fun u => ?_, fun u => ?_⟩
  · by_cases hu : u = t
    · subst hu
      rw [Function.update_self] at hp
      obtain rfl | hp := List.mem_cons.mp hp
      · exact ⟨n, hnew⟩
      · exact hold hp
    · rw [Function.update_of_ne hu] at hp
      exact hold hp
  · by_cases hu : u = t
    · subst hu
      rw [Function.update_self, List.map_cons, List.nodup_cons]
      refine ⟨fun hmem => ?_, hk.distinct u⟩
      obtain ⟨p, hp, heq⟩ := List.mem_map.mp hmem
      exact hblock hp heq
    · rw [Function.update_of_ne hu]
      exact hk.distinct u
  · by_cases hu : u = t
    · subst hu
      rw [Function.update_self]
      refine ⟨?_, fun p hp => ?_, hchain u⟩
      · rw [newProcess_pcb, hlaunched.parent_task, hparent]
      · -- The process below has called `sys_execute`: a shell is started on an empty stack.
        obtain ⟨rest, hstack⟩ : ∃ rest, tasks u = p :: rest := List.head?_eq_some_iff.mp hp
        have htop : startParent k = p.pcb := by rw [hparent, hstack, topPcb]
        have hmem : p ∈ tasks u := List.mem_of_mem_head? hp
        have hshell : k.starting_new_shell = false := by
          by_contra hstarting
          obtain ⟨m, hseated⟩ := hk.seated u p hmem
          rw [startParent, if_pos (by simpa using hstarting)] at htop
          exact hseated.ne_null htop.symm
        have hsaved := hlaunched.parent (htop ▸ hblock hmem) hshell
        rw [htop] at hsaved
        rw [hsaved, hrunning hshell, hstack, topContext]
    · rw [Function.update_of_ne hu]
      exact hchain u
  · rw [hlaunched.cur_task, hterm]
    by_cases hu : u = t
    · rw [if_pos hu, hu, Function.update_self, topPcb, newProcess_pcb]
    · rw [if_neg hu, Function.update_of_ne hu]
      exact hk.cur_task u

/-- The end of a process leaves the chains of all others. -/
theorem Chained.released {stack : List Process} (hchained : Chained k stack) (hreleased : Released k k') :
    Chained k' stack := by
  refine hchained.congr (fun q _ => ?_) fun q _ => ?_
  · obtain ⟨io_files, hsame⟩ := hreleased.block q.pcb
    rw [hsame]
  · obtain ⟨io_files, hsame⟩ := hreleased.block q.pcb
    rw [hsame]

/-- A process that halts goes from the top of the stack of the scheduled terminal. -/
theorem Stacked.pop (hk : Stacked tasks k) {p : Process} {rest : List Process}
    (hstack : tasks k.sched_term_id = p :: rest) (hcur : k.cur_pcb = p.pcb) (hreleased : Released k k') :
    Stacked (Function.update tasks k.sched_term_id rest) k' := by
  have hp : p ∈ tasks k.sched_term_id := by
    rw [hstack]
    exact List.mem_cons_self
  have hdistinct := hk.distinct k.sched_term_id
  have hchained := hk.chained k.sched_term_id
  rw [hstack, List.map_cons, List.nodup_cons] at hdistinct
  rw [hstack] at hchained
  obtain ⟨n, hseated⟩ := hk.seated _ p hp
  have hn := hseated.below
  have hold {u : Fin MAX_TERM_NUM} {q : Process} (hq : q ∈ tasks u) (hne : q.pcb ≠ p.pcb) : ∃ m, Seated k' u q m := by
    obtain ⟨m, hm⟩ := hk.seated u q hq
    obtain ⟨io_files, hsame⟩ := hreleased.block q.pcb
    refine ⟨m, hm.congr ?_ (hreleased.next_id ▸ le_refl _) ⟨io_files, _, _, _, hsame⟩⟩
    rw [hreleased.pcb_status, hcur, hseated.pcb, haltSlot_block (by omega), taken_clear (by omega)]
    refine ⟨fun hmn => hne ?_, hm.taken⟩
    rw [hm.pcb, hseated.pcb, hmn]
  refine ⟨fun u q hq => ?_, fun u => ?_, fun u => ?_, fun u => ?_⟩
  · by_cases hu : u = k.sched_term_id
    · rw [hu, Function.update_self] at hq
      have hmem : q.pcb ∈ rest.map Process.pcb := List.mem_map_of_mem hq
      rw [hu]
      exact hold (by rw [hstack]; exact List.mem_cons_of_mem p hq) fun heq => hdistinct.1 (heq ▸ hmem)
    · rw [Function.update_of_ne hu] at hq
      exact hold hq fun heq => hu (hk.same_terminal hq hp heq)
  · by_cases hu : u = k.sched_term_id
    · rw [hu, Function.update_self]
      exact hdistinct.2
    · rw [Function.update_of_ne hu]
      exact hk.distinct u
  · by_cases hu : u = k.sched_term_id
    · rw [hu, Function.update_self]
      exact hchained.2.2.released hreleased
    · rw [Function.update_of_ne hu]
      exact (hk.chained u).released hreleased
  · rw [hreleased.cur_task]
    by_cases hu : u = k.sched_term_id
    · rw [if_pos hu, hu, Function.update_self, hcur]
      exact hchained.1
    · rw [if_neg hu, Function.update_of_ne hu]
      exact hk.cur_task u

end Stacked

/-- The kernel works on the stacks. -/
structure Represents (tasks : Stacks) (k : Kernel) : Prop extends Stacked tasks k, Active tasks k

section Represents

variable {fs : Image} {page_tables : UInt32 → UInt32} {tasks : Stacks} {k k' : Kernel}

/-- The fields that the active process depends on. -/
theorem Active.congr (hk : Active tasks k) (hcur : k'.cur_pcb = k.cur_pcb) (hrunning : k'.running = k.running)
    (hsched : k'.sched_term_id = k.sched_term_id) (hesp : ∀ t, (k'.terminals t).esp = (k.terminals t).esp)
    (hpaging : k'.toPaging = k.toPaging) (hesp0 : k'.tss_esp0 = k.tss_esp0)
    (hshell : k'.starting_new_shell = k.starting_new_shell)
    (hblock : tasks k.sched_term_id ≠ [] → (k'.pcbs k.cur_pcb).page_addr = (k.pcbs k.cur_pcb).page_addr ∧
      (k'.pcbs k.cur_pcb).esp0 = (k.pcbs k.cur_pcb).esp0) : Active tasks k' := by
  refine ⟨?_, ?_, fun t ht hne => ?_, fun hne => ?_, fun hempty => ?_⟩
  · rw [hcur, hsched]
    exact hk.cur_pcb
  · rw [hrunning, hsched]
    exact hk.running
  · rw [hesp]
    exact hk.saved t (hsched ▸ ht) hne
  · rw [hsched] at hne
    obtain ⟨hpage, hstack⟩ := hblock hne
    rw [hpaging, hesp0, hcur, hpage, hstack]
    exact hk.mapped hne
  · rw [hshell]
    exact hk.booting (hsched ▸ hempty)

/-- A refused call leaves the kernel at work on the same stacks. -/
theorem Represents.refused (hk : Represents tasks k) (hsix : SixSlots k.pcb_status) (hrefused : Refused k k') :
    Represents tasks k' := by
  refine ⟨hk.toStacked.refused hsix hrefused, hk.toActive.congr hrefused.cur_pcb hrefused.running
    hrefused.prints.sched_term_id hrefused.esp hrefused.paging hrefused.tss_esp0 hrefused.starting_new_shell
    fun hne => ?_⟩
  obtain ⟨hstatus, hpcbs⟩ | ⟨n, hn, hfree, hstatus, io_files, tail, hpcbs⟩ := hrefused.six hsix
  · rw [hpcbs]
    exact ⟨rfl, rfl⟩
  · -- The slot that has been taken was free, that of the current process is not.
    have hother : k.cur_pcb ≠ slotBlock n := by
      cases hstack : tasks k.sched_term_id with
      | nil => exact absurd hstack hne
      | cons p rest =>
        obtain ⟨m, hseated⟩ := hk.seated k.sched_term_id p (by rw [hstack]; exact List.mem_cons_self)
        rw [hk.cur_pcb, hstack]
        exact hseated.ne_free hn hfree
    rw [hpcbs, Function.update_of_ne hother]
    exact ⟨rfl, rfl⟩

/-- A process is started on the scheduled terminal. -/
theorem Stacked.launched (hk : Stacked tasks k) {n : Nat} (hn : n < 6) (hfree : ¬ Taken k.pcb_status n)
    (hlaunched : Launched k k' n) (hterm : startTerm k = k.sched_term_id)
    (hparent : startParent k = topPcb (tasks k.sched_term_id))
    (hrunning : k.starting_new_shell = false → k.running = topContext (tasks k.sched_term_id))
    (hsaved : ∀ t ≠ k.sched_term_id, tasks t ≠ [] → (k.terminals t).esp = topContext (tasks t)) :
    Represents (Function.update tasks k.sched_term_id (newProcess k (slotBlock n) :: tasks k.sched_term_id)) k' := by
  refine ⟨hk.push hn hfree hlaunched hterm hparent hrunning, ?_, ?_, fun t ht hne => ?_, fun _ => ⟨?_, ?_⟩,
    fun hempty => ?_⟩
  · rw [hlaunched.sched_term_id, Function.update_self, topPcb, newProcess_pcb, hlaunched.cur_pcb]
  · rw [hlaunched.sched_term_id, Function.update_self, topContext, hlaunched.running]
  · rw [hlaunched.sched_term_id] at ht
    rw [Function.update_of_ne ht] at hne ⊢
    rw [hlaunched.terminals, update_task_esp]
    exact hsaved t ht hne
  · rw [hlaunched.cur_pcb, hlaunched.page_addr]
    exact resolve_mapProgram hn hlaunched.page_directory
  · rw [hlaunched.tss_esp0, hlaunched.cur_pcb, hlaunched.esp0]
  · rw [hlaunched.sched_term_id, Function.update_self] at hempty
    cases hempty

/-- A handler has printed its message. -/
theorem Represents.ending (hk : Represents tasks k) {exit : Exit} (hending : Ending k k' exit) :
    Represents tasks k' := by
  have hsched := hending.prints.sched_term_id
  refine ⟨hk.toStacked.congr (fun n hn => ?_) (by rw [hending.tasks]) hending.cur_task
      fun t p hp => ⟨_, _, _, by rw [hending.pcbs]⟩,
    hk.toActive.congr hending.cur_pcb (by rw [hending.tasks]) hsched hending.esp hending.paging (by rw [hending.tasks])
      (by rw [hending.tasks]) fun _ => by rw [hending.pcbs]; exact ⟨rfl, rfl⟩⟩
  rw [hending.tasks]
  exact hn

/-- What runs is the top of the scheduled terminal's stack. -/
theorem Represents.top (hk : Represents tasks k) {p : Process} (hrunning : k.running = .process p) :
    ∃ rest, tasks k.sched_term_id = p :: rest ∧ k.cur_pcb = p.pcb := by
  have htop := hk.running
  have hcur := hk.cur_pcb
  rw [hrunning] at htop
  cases hstack : tasks k.sched_term_id with
  | nil =>
    rw [hstack] at htop
    cases htop
  | cons q rest =>
    rw [hstack] at htop hcur
    cases htop
    exact ⟨rest, rfl, hcur⟩

/-- The process whose end a handler has announced is still on top. -/
theorem Represents.ending_top (hk : Represents tasks k) {exit : Exit} (hending : Ending k k' exit) {p : Process}
    (hrunning : k.running = .process p) : ∃ rest, tasks k'.sched_term_id = p :: rest ∧ k'.cur_pcb = p.pcb := by
  apply (hk.ending hending).top
  rw [hending.tasks]
  exact hrunning

/-- The running process halts, and its parent goes on where it has started it. -/
theorem Represents.returned (hk : Represents tasks k) {p : Process} {rest : List Process}
    (hstack : tasks k.sched_term_id = p :: rest) (hcur : k.cur_pcb = p.pcb)
    (hreleased : Released k k') (hparent : (k.pcbs k.cur_pcb).parent_task ≠ NULL) {frame : Frame}
    (hframe : (k'.pcbs (k.pcbs k.cur_pcb).parent_task).esp = some frame) :
    frame.child = p ∧ Represents (Function.update tasks k.sched_term_id rest) (resumeParent k' frame) := by
  have hpop := hk.toStacked.pop hstack hcur hreleased
  have hsched := hreleased.sched_term_id
  have hchained := hk.chained k.sched_term_id
  rw [hstack] at hchained
  rw [hcur, hchained.1] at hparent hframe
  cases rest with
  | nil => exact absurd rfl hparent
  | cons q below =>
    rw [topPcb] at hframe hparent
    have hq : q ∈ tasks k.sched_term_id := by
      rw [hstack]
      exact List.mem_cons_of_mem p List.mem_cons_self
    obtain ⟨n, hseated⟩ := hk.seated _ q hq
    -- Freeing the block of the process leaves that of its parent.
    have hblock : k'.pcbs q.pcb = k.pcbs q.pcb := by
      rw [hreleased.pcbs, Function.update_of_ne]
      rw [hcur]
      have hdistinct := hk.distinct k.sched_term_id
      rw [hstack, List.map_cons, List.nodup_cons] at hdistinct
      exact fun heq => hdistinct.1 (heq ▸ List.mem_map_of_mem List.mem_cons_self)
    have hframe' : frame = { caller := .process q, child := p } := by
      have hsaved := hchained.2.1 q rfl
      rw [hblock, hsaved] at hframe
      exact (Option.some.inj hframe).symm
    have hcur' : k'.cur_pcb = q.pcb := by rw [hreleased.cur_pcb, hcur, hchained.1, topPcb]
    refine ⟨by rw [hframe'], hpop.congr (fun _ hn => hn) (le_refl _) (fun _ => rfl) fun _ _ _ => ⟨_, _, _, rfl⟩, ?_⟩
    constructor
    case cur_pcb =>
      change k'.cur_pcb = topPcb (Function.update tasks k.sched_term_id (q :: below) k'.sched_term_id)
      rw [hsched, Function.update_self, topPcb, hcur']
    case running =>
      change frame.caller = topContext (Function.update tasks k.sched_term_id (q :: below) k'.sched_term_id)
      rw [hsched, Function.update_self, topContext, hframe']
    case saved =>
      intro t ht hne
      change t ≠ k'.sched_term_id at ht
      rw [hsched] at ht
      rw [Function.update_of_ne ht] at hne ⊢
      change (k'.terminals t).esp = topContext (tasks t)
      rw [hreleased.terminals, update_task_esp]
      exact hk.saved t ht hne
    case mapped =>
      intro hne
      refine ⟨?_, rfl⟩
      change resolve_virt_addr k'.toPaging PROGRAM_VIRT = (k'.pcbs k'.cur_pcb).page_addr
      have hpage : haltPage k (k.pcbs k.cur_pcb) = programPage n := by
        rw [haltPage, hcur, hchained.1, topPcb, if_pos hparent, hseated.page_addr]
      have hdir := hreleased.page_directory
      rw [hpage] at hdir
      rw [hcur', hblock, hseated.page_addr]
      exact resolve_mapProgram hseated.below hdir
    case booting =>
      intro hempty
      change Function.update tasks k.sched_term_id (q :: below) k'.sched_term_id = [] at hempty
      rw [hsched, Function.update_self] at hempty
      cases hempty

/-- The kernel starts a shell on the scheduled terminal, which has no process. -/
theorem Stacked.restarted (hk : Stacked tasks k) (hempty : tasks k.sched_term_id = [])
    (hsaved : ∀ t ≠ k.sched_term_id, tasks t ≠ [] → (k.terminals t).esp = topContext (tasks t)) {locals : Locals}
    (hpasses : Passes fs k shell locals) (hexecuted : Executed fs (beforeRestart k) shell locals k') :
    ∃ n, Launched (beforeRestart k) k' n ∧
      Represents (Function.update tasks k.sched_term_id [newProcess (beforeRestart k) (slotBlock n)]) k' := by
  obtain ⟨hfails, -⟩ | ⟨n, -, -, hn, hfree, hlaunched⟩ := hexecuted
  · exact absurd hpasses hfails
  · have hbefore : Stacked tasks (beforeRestart k) :=
      hk.congr (fun _ hn => hn) (le_refl _) (fun _ => rfl) fun _ _ _ => ⟨_, _, _, rfl⟩
    have hparent : startParent (beforeRestart k) = topPcb (tasks k.sched_term_id) := by
      rw [hempty]
      rfl
    refine ⟨n, hlaunched, ?_⟩
    have hnew := hbefore.launched hn hfree hlaunched (startTerm_beforeRestart k) hparent
      (fun hshell => Bool.noConfusion hshell) hsaved
    change Represents (Function.update tasks k.sched_term_id (_ :: tasks k.sched_term_id)) k' at hnew
    rw [hempty] at hnew
    exact hnew

/-- Handing the processor over changes no stack. -/
theorem Stacked.handOver (hk : Stacked tasks k) (t : Fin MAX_TERM_NUM) : Stacked tasks (handOver k t) :=
  hk.congr (fun _ hn => hn) (le_refl _) (handOver_cur_task k t) fun _ _ _ => ⟨_, _, _, rfl⟩

/-- Once the tick has saved the stack pointers, each terminal has its own. -/
theorem Represents.saved_handOver (hk : Represents tasks k) (t : Fin MAX_TERM_NUM) {u : Fin MAX_TERM_NUM}
    (hne : tasks u ≠ []) : ((timer.handOver k t).terminals u).esp = topContext (tasks u) := by
  rw [handOver_esp]
  split
  · rename_i hsched
    rw [hsched]
    exact hk.running
  · rename_i hsched
    exact hk.saved u hsched hne

/-- A terminal without a task has no processes. -/
theorem Stacked.empty_of_null (hk : Stacked tasks k) {t : Fin MAX_TERM_NUM} (hnull : (k.terminals t).cur_task = NULL) :
    tasks t = [] := by
  by_contra hne
  rw [hk.cur_task] at hnull
  exact hk.top_ne_null hne hnull

/-- The task of the scheduled terminal is resumed. -/
theorem Stacked.resumed (hk : Stacked tasks k) (hspace : SpaceSound page_tables k)
    (hcur : k.cur_pcb = topPcb (tasks k.sched_term_id)) (htop : tasks k.sched_term_id ≠ [])
    (hsaved : ∀ t, tasks t ≠ [] → (k.terminals t).esp = topContext (tasks t)) (hresumed : TaskResumed k k') :
    Represents tasks k' := by
  have hsched : k'.sched_term_id = k.sched_term_id := by rw [hresumed.console]
  have hstacked : Stacked tasks k' := by
    refine hk.congr (fun n hn => ?_) (hresumed.next_id ▸ le_refl _) (fun u => ?_) fun u p hp => ?_
    · rw [hresumed.pcb_status]
      exact hn
    · rw [hresumed.console]
    · rw [hresumed.pcbs]
      exact ⟨_, _, _, rfl⟩
  refine ⟨hstacked, ?_, ?_, fun u _ hu => ?_, fun _ => ?_, fun hempty => ?_⟩
  · rw [hresumed.cur_pcb, hcur, hsched]
  · rw [hresumed.running, hsched]
    exact hsaved _ htop
  · rw [hresumed.console]
    exact hsaved u hu
  · obtain ⟨n, hn, hpage⟩ := hspace.cur_page (hcur ▸ hk.top_ne_null htop)
    have hdir : k'.page_directory =
        (map_page k.toPaging (programPage n) PROGRAM_VIRT true true true true).2.page_directory := by
      rw [hresumed.paging, hpage, hspace.paged, mapVidmap_directory (hspace.confined.mapProgram hn) (pageOf_le _ _)]
    rw [hresumed.cur_pcb, hresumed.pcbs, hpage, hresumed.tss_esp0]
    exact ⟨resolve_mapProgram hn hdir, rfl⟩
  · rw [hsched] at hempty
    exact absurd hempty htop

end Represents

end lacos.system
