import LacOS.System.Parents
import LacOS.System.Stacks

open memory lacos.lib lacos.file_system lacos.paging lacos.pcb lacos.multi_term lacos.syscalls lacos.timer trace

namespace lacos.system

/-- The process is the current one, on the scheduled terminal, with its own page and its
    own kernel stack. -/
structure Current (k : Kernel) (p : Process) : Prop where
  not_null : k.cur_pcb ≠ NULL
  cur_pcb : k.cur_pcb = p.pcb
  cur_task : k.cur_pcb = (k.terminals k.sched_term_id).cur_task
  term_num : (k.pcbs k.cur_pcb).term_num = UInt8.ofNat k.sched_term_id
  page : resolve_virt_addr k.toPaging PROGRAM_VIRT = (k.pcbs k.cur_pcb).page_addr
  esp0 : k.tss_esp0 = (k.pcbs k.cur_pcb).esp0

def Coherent (k : Kernel) : Prop := ∀ p, k.running = .process p → Current k p

/-- The new process is a child of `p` and takes its place on its terminal. -/
structure ChildOf (k k' : Kernel) (p : Process) : Prop where
  parent_task : (k'.pcbs k'.cur_pcb).parent_task = p.pcb
  cur_task : ∀ t, (k'.terminals t).cur_task =
    if (k.pcbs p.pcb).term_num = UInt8.ofNat t then k'.cur_pcb else (k.terminals t).cur_task

/-- A process that can start another one does so on the visible terminal, and the kernel
    has resumed a task since it last started a shell. -/
def AtHome (fs : Image) (s : System) : Event → Prop
  | .sys_execute command locals => Passes fs s.kernel command locals →
    s.kernel.vis_term_id = s.kernel.sched_term_id ∧ s.kernel.starting_new_shell = false
  | _ => True

instance (fs : Image) (s : System) (event : Event) : Decidable (AtHome fs s event) := by
  unfold AtHome
  split <;> infer_instance

namespace Computer

/-- A process that runs, and is not inside a `sys_halt`, is the current one. -/
def Coherent (c : Computer) : Prop := c.pending = none → system.Coherent c.kernel

/-- The running process is the current one before and after what happens, and a process
    it starts is its child. -/
def StepCoherent (fs : Image) (c : Computer) (happening : Happening) : Prop :=
  c.Coherent ∧ ∀ c', happen fs c happening = some c' → c'.Coherent ∧
    ∀ command locals p, happening = .event (.sys_execute command locals) → c.kernel.running = .process p →
      Passes fs c.kernel command locals → ChildOf c.kernel c'.kernel p

def AtHome (fs : Image) (c : Computer) : Happening → Prop
  | .event event => system.AtHome fs c.toSystem event
  | .statement _ => True

instance (fs : Image) (c : Computer) : (happening : Happening) → Decidable (AtHome fs c happening)
  | .event event => inferInstanceAs (Decidable (system.AtHome fs c.toSystem event))
  | .statement _ => isTrue trivial

end Computer

section Represents

variable {fs : Image} {page_tables : UInt32 → UInt32} {tasks : Stacks} {k k' : Kernel}

/-- The process at the top of the scheduled stack is the current one, with its own page and kernel
    stack. -/
theorem Represents.coherent (hk : Represents tasks k) : Coherent k := by
  intro p hrunning
  obtain ⟨rest, hstack, hcur⟩ := hk.top hrunning
  have hne : tasks k.sched_term_id ≠ [] := by
    rw [hstack]
    exact List.cons_ne_nil p rest
  obtain ⟨n, hseated⟩ := hk.seated k.sched_term_id p (by rw [hstack]; exact List.mem_cons_self)
  obtain ⟨hpage, hesp0⟩ := hk.mapped hne
  refine ⟨hcur ▸ hseated.ne_null, hcur, ?_, hcur ▸ hseated.term_num, hpage, hesp0⟩
  rw [hk.cur_pcb, hk.cur_task]

/-- The running process starts another one. -/
theorem Represents.launched (hk : Represents tasks k) {n : Nat} (hn : n < 6) (hfree : ¬ Taken k.pcb_status n)
    (hlaunched : Launched k k' n) (hvis : k.vis_term_id = k.sched_term_id)
    (hshell : k.starting_new_shell = false) :
    Represents (Function.update tasks k.sched_term_id (newProcess k (slotBlock n) :: tasks k.sched_term_id)) k' := by
  have hterm : startTerm k = k.sched_term_id := by rw [startTerm, hshell, if_neg Bool.false_ne_true, hvis]
  have hparent : startParent k = topPcb (tasks k.sched_term_id) := by
    rw [startParent, hshell, if_neg Bool.false_ne_true, hvis, hk.cur_task]
  exact hk.toStacked.launched hn hfree hlaunched hterm hparent (fun _ => hk.running) hk.saved

/-- A process that is started from the visible terminal is the child of the one that runs, since
    its parent is that terminal's task. -/
theorem Represents.childOf (hk : Represents tasks k) {p : Process} (hrunning : k.running = .process p) {n : Nat}
    (hlaunched : Launched k k' n) (hvis : k.vis_term_id = k.sched_term_id) (hshell : k.starting_new_shell = false) :
    ChildOf k k' p := by
  have hcurrent := hk.coherent p hrunning
  have hterm : startTerm k = k.sched_term_id := by rw [startTerm, hshell, if_neg Bool.false_ne_true, hvis]
  refine ⟨?_, fun t => ?_⟩
  · rw [hlaunched.cur_pcb, hlaunched.parent_task, startParent, hshell, if_neg Bool.false_ne_true, hvis,
      ← hcurrent.cur_task, hcurrent.cur_pcb]
  · have hinj : ∀ t u : Fin MAX_TERM_NUM, UInt8.ofNat u = UInt8.ofNat t ↔ t = u := by decide
    rw [hlaunched.cur_task, hterm, hlaunched.cur_pcb, ← hcurrent.cur_pcb, hcurrent.term_num]
    simp only [hinj]

/-- Alt and a function key change what is shown. -/
theorem Represents.switched (hk : Represents tasks k) (hpaged : Paged k.toConsole) (t : Fin MAX_TERM_NUM) :
    Represents tasks (switchTo k t) := by
  have hterm (u : Fin MAX_TERM_NUM) := switchTo_terminals hpaged t u
  refine ⟨hk.toStacked.congr (fun _ hn => hn) (le_refl _) (fun u => ?_) fun _ _ _ => ⟨_, _, _, rfl⟩,
    hk.toActive.congr rfl rfl (switchTo_sched_term_id k t) (fun u => ?_) rfl rfl rfl fun _ => ⟨rfl, rfl⟩⟩
  · rw [hterm]
  · rw [hterm]

/-- A tick to a terminal without a task starts a shell there, alone on its stack. -/
theorem Represents.started (hk : Represents tasks k) {t : Fin MAX_TERM_NUM}
    (hnull : (k.terminals t).cur_task = NULL) {locals : Locals} (hpasses : Passes fs k shell locals)
    (hexecuted : Executed fs (beforeRestart (timer.handOver k t)) shell locals k') :
    ∃ p : Process, p.id = k.next_id ∧ Represents (Function.update tasks t [p]) k' := by
  have hempty := hk.toStacked.empty_of_null hnull
  have hsaved (u : Fin MAX_TERM_NUM) (_ : u ≠ t) (hne : tasks u ≠ []) := hk.saved_handOver t hne
  obtain ⟨n, -, hnew⟩ := (hk.toStacked.handOver t).restarted hempty hsaved hpasses hexecuted
  exact ⟨_, rfl, hnew⟩

end Represents

/-- What an event does to the stacks and to the record. -/
inductive StackMove (tasks : Stacks) (s : System) (event : Event) (tasks' : Stacks) (s' : System) : Prop where
  | kept (htasks : tasks' = tasks) (hexits : s'.exits = s.exits) (hreturns : s'.returns = s.returns)
  | started (t : Fin MAX_TERM_NUM) (p : Process) (hid : p.id = s.kernel.next_id)
      (htasks : tasks' = Function.update tasks t (p :: tasks t)) (hexits : s'.exits = s.exits)
      (hreturns : s'.returns = s.returns)
  | halted (t : Fin MAX_TERM_NUM) (p : Process) (rest : List Process) (exit : Exit) (locals : Locals)
      (hexit : event.exit = some (exit, locals)) (hparent : (s.kernel.pcbs s.kernel.cur_pcb).parent_task ≠ NULL)
      (hstack : tasks t = p :: rest) (htasks : tasks' = Function.update tasks t rest)
      (hexits : s'.exits = (p, exit) :: s.exits)
      (hreturns : s'.returns = (p, if s.kernel.except_raised || decide (exit = .excepted) then 256
        else (exit.status.toNat : Int)) :: s.returns)
  | replaced (t : Fin MAX_TERM_NUM) (p q : Process) (exit : Exit) (hstack : tasks t = [p])
      (hid : q.id = s.kernel.next_id) (htasks : tasks' = Function.update tasks t [q])
      (hexits : s'.exits = (p, exit) :: s.exits) (hreturns : s'.returns = s.returns)

section Moves

variable {fs : Image} {page_tables : UInt32 → UInt32} {tasks : Stacks} {s s' : System} {event : Event}

/-- A shell that halts is replaced, if the shell can be started. -/
theorem Represents.restarted {k released k' : Kernel} (hk : Represents tasks k) (hspace : SpaceSound page_tables k)
    {p : Process} {rest : List Process} (hstack : tasks k.sched_term_id = p :: rest) (hcur : k.cur_pcb = p.pcb)
    (hnull : (k.pcbs k.cur_pcb).parent_task = NULL) (hreleased : Released k released) {locals : Locals}
    (hexecutable : Executable fs shell locals) (hexecuted : Executed fs (beforeRestart released) shell locals k') :
    tasks k.sched_term_id = [p] ∧ ∃ q : Process, q.id = k.next_id ∧
      Represents (Function.update tasks k.sched_term_id [q]) k' := by
  have hp : p ∈ tasks k.sched_term_id := by
    rw [hstack]
    exact List.mem_cons_self
  obtain ⟨n, hseated⟩ := hk.seated _ p hp
  have hcur' : k.cur_pcb ≠ NULL := hcur ▸ hseated.ne_null
  have hspace' := hspace.released hcur' hreleased
  have hpop := hk.toStacked.pop hstack hcur hreleased
  have hsched := hreleased.sched_term_id
  have hrest : rest = [] := by
    have htask := hpop.cur_task k.sched_term_id
    rw [hreleased.cur_task, if_pos rfl, hnull, Function.update_self] at htask
    by_contra hne
    have htop := hpop.top_ne_null (t := k.sched_term_id) (by rwa [Function.update_self])
    rw [Function.update_self] at htop
    exact htop htask.symm
  subst hrest
  obtain ⟨slots, hlive⟩ := hspace.live
  have hpasses : Passes fs released shell locals := ⟨hlive.room hcur' hreleased, hexecutable⟩
  have hempty : Function.update tasks k.sched_term_id [] released.sched_term_id = [] := by
    rw [hsched, Function.update_self]
  have hsaved (t : Fin MAX_TERM_NUM) (ht : t ≠ released.sched_term_id)
      (hne : Function.update tasks k.sched_term_id [] t ≠ []) :
      (released.terminals t).esp = topContext (Function.update tasks k.sched_term_id [] t) := by
    rw [hsched] at ht
    rw [Function.update_of_ne ht] at hne ⊢
    rw [hreleased.terminals, update_task_esp]
    exact hk.saved t ht hne
  obtain ⟨m, -, hnew⟩ := hpop.restarted hempty hsaved hpasses hexecuted
  rw [hsched, Function.update_idem] at hnew
  exact ⟨hstack, _, hreleased.next_id, hnew⟩

/-- Each event moves the stacks. -/
theorem Represents.moves (hspace : SpaceSound page_tables s.kernel) (hk : Represents tasks s.kernel)
    (hshells : ShellsStart fs s event) (hhome : AtHome fs s event) (hmoves : Moves fs s event s') :
    ∃ tasks', StackMove tasks s event tasks' s' ∧ Represents tasks' s'.kernel := by
  cases hmoves with
  | started locals k' hnull hexecuted =>
    obtain ⟨p, hid, hnew⟩ := hk.started hnull (hshells hnull) hexecuted
    refine ⟨_, .started (next_tid s.kernel.sched_term_id) p hid rfl rfl rfl, ?_⟩
    rw [hk.toStacked.empty_of_null hnull]
    exact hnew
  | resumed locals k' htask hresumed =>
    have htop : tasks (next_tid s.kernel.sched_term_id) ≠ [] := by
      intro hempty
      rw [hk.cur_task, hempty] at htask
      exact htask rfl
    exact ⟨tasks, .kept rfl rfl rfl, (hk.toStacked.handOver _).resumed (hspace.handOver _)
      (hk.cur_task _) htop (fun t hne => hk.saved_handOver _ hne) hresumed⟩
  | switched new_term_id =>
    exact ⟨tasks, .kept rfl rfl rfl, switch_terminal_keeps hk (hk.switched hspace.paged) new_term_id⟩
  | executed p command locals k' hrunning hexecuted =>
    obtain ⟨-, hrefused⟩ | ⟨n, hpasses, -, hn, hfree, hlaunched⟩ := hexecuted
    · exact ⟨tasks, .kept rfl rfl rfl, hk.refused hspace.six hrefused⟩
    · obtain ⟨hvis, hshell⟩ := hhome hpasses
      exact ⟨_, .started s.kernel.sched_term_id _ rfl rfl rfl rfl, hk.launched hn hfree hlaunched hvis hshell⟩
  | returned event exit locals p ending released frame hexit hrunning hcur hending hreleased hparent hframe =>
    have hending' := hk.ending hending
    obtain ⟨rest, hstack, hcur'⟩ := hk.ending_top hending hrunning
    rw [← hending.cur_pcb, ← hending.pcbs] at hparent hframe
    obtain ⟨hchild, hnew⟩ := hending'.returned hstack hcur' hreleased hparent hframe
    have hraised : ending.except_raised = (s.kernel.except_raised || decide (exit = .excepted)) := by rw [hending.tasks]
    refine ⟨_, .halted ending.sched_term_id p rest exit locals hexit ?_ hstack rfl rfl ?_, hnew⟩
    · rw [← hending.cur_pcb, ← hending.pcbs]
      exact hparent
    · rw [← hraised, ← hchild]
      rfl
  | restarted event exit locals p ending released k' outcome hexit hrunning hcur hending hreleased hparent hexecuted =>
    have hending' := hk.ending hending
    have hspace' := hspace.ending hending
    obtain ⟨rest, hstack, hcur'⟩ := hk.ending_top hending hrunning
    have hexecutable := executable_of_exit hshells hexit hparent
    rw [← hending.cur_pcb, ← hending.pcbs] at hparent
    have hsix := (hspace'.released (hending.cur_pcb ▸ hcur) hreleased).six
    obtain ⟨hsingle, q, hid, hnew⟩ :=
      hending'.restarted hspace' hstack hcur' hparent hreleased hexecutable (hexecuted hsix)
    refine ⟨_, .replaced ending.sched_term_id p q exit hsingle ?_ rfl rfl rfl, hnew⟩
    rw [hid, hending.tasks]
  | entry_executed locals k' hrunning hspinning hexecuted =>
    obtain ⟨-, hrefused⟩ | ⟨n, -, hparent, -, -, -⟩ := hexecuted
    · exact ⟨tasks, .kept rfl rfl rfl, hk.refused hspace.six hrefused⟩
    · -- While `entry` runs no terminal has a task.
      have hempty : tasks s.kernel.sched_term_id = [] := by
        cases hstack : tasks s.kernel.sched_term_id with
        | nil => rfl
        | cons p rest =>
          have htop := hk.running
          rw [hrunning, hstack] at htop
          cases htop
      obtain ⟨hnone, hshell⟩ := hk.booting hempty
      have hnull : startParent s.kernel = NULL := by
        rw [startParent, hshell, if_neg Bool.false_ne_true, hk.cur_task, hnone, topPcb]
      exact absurd hnull (hparent hshell)

end Moves

/-- At first all stacks are empty. -/
theorem boot_represents (machine : Kernel) : Represents (fun _ => []) (boot machine).kernel := by
  have hbooted := entry_booted machine
  refine ⟨⟨fun t p hp => absurd hp (List.not_mem_nil), fun t => List.nodup_nil, fun t => trivial, hbooted.tasks⟩,
    hbooted.cur_pcb, hbooted.running, fun t _ hne => absurd rfl hne, fun hne => absurd rfl hne, fun _ => ?_⟩
  exact ⟨fun _ => rfl, hbooted.starting_new_shell⟩

/-- The events keep the stacks, whatever they are. -/
theorem represents_step {fs : Image} {machine : Kernel} {s s' : System} {event : Event}
    (hs : SpaceSound machine.page_tables s.kernel ∧ ∃ tasks, Represents tasks s.kernel)
    (hguard : ShellsStart fs s event ∧ AtHome fs s event) (hstep : step fs s event = some s') :
    SpaceSound machine.page_tables s'.kernel ∧ ∃ tasks, Represents tasks s'.kernel := by
  obtain ⟨hspace, tasks, hk⟩ := hs
  have hmoves := step_moves hspace.six hstep
  obtain ⟨tasks', -, hk'⟩ := hk.moves hspace hguard.1 hguard.2 hmoves
  exact ⟨hspace.moves hmoves, tasks', hk'⟩

/-- A process that is at home when it calls `sys_execute` is so in the completed events. -/
theorem Computer.AtHome.completes {fs : Image} {c : Computer} {s : System} {happening : Happening} {event : Event}
    (hhome : c.AtHome fs happening) (hcompletes : Completes c s happening event) : system.AtHome fs s event := by
  cases hcompletes with
  | event event hsystem hhalt => exact hsystem ▸ hhome
  | switched new_term_id => trivial
  | restarted status locals hpending hnull => trivial
  | returned child status locals hpending hparent hraised => trivial

/-- The running process finds itself the parent of the one it starts. -/
theorem represents_child {fs : Image} {page_tables : UInt32 → UInt32} {tasks : Stacks} {s s' : System}
    (hspace : SpaceSound page_tables s.kernel) (hk : Represents tasks s.kernel) {command : CString} {locals : Locals}
    (hhome : AtHome fs s (.sys_execute command locals)) (hstep : step fs s (.sys_execute command locals) = some s')
    {p : Process} (hrunning : s.kernel.running = .process p) (hpasses : Passes fs s.kernel command locals) :
    ChildOf s.kernel s'.kernel p := by
  obtain ⟨hvis, hshell⟩ := hhome hpasses
  cases step_moves hspace.six hstep with
  | executed q command locals k' hrunning' hexecuted =>
    obtain ⟨hfails, -⟩ | ⟨n, -, -, -, -, hlaunched⟩ := hexecuted
    · exact absurd hpasses hfails
    · exact hk.childOf hrunning hlaunched hvis hshell
  | returned event exit locals p ending released frame hexit => cases hexit
  | restarted event exit locals p ending released k' outcome hexit => cases hexit

/-- Three ticks fall into the `sys_halt` of a child, after it has mapped the page of its
    parent. The last one resumes the child, with its own page, and the parent goes on
    with that. -/
theorem parent_on_page_of_child :
    let locals : Locals := ⟨fun _ => 0, fun _ => 0⟩
    let tick : Happening := .event (.pit_interrupt locals)
    let happenings : List Happening := List.replicate 4 tick ++
      [.event (.switch_terminal 1), .event (.sys_execute shell locals), .event (.sys_halt 0 locals),
        .statement locals] ++ List.replicate 3 tick ++ List.replicate 7 (.statement locals)
    Guarded (happen shellImage)
        (fun c happening => c.ShellsStart shellImage happening ∧ c.AtHome shellImage happening)
        (Computer.start blankMachine) happenings ∧
      ∃ c, run (happen shellImage) (Computer.start blankMachine) happenings = some c ∧
        c.pending = none ∧ (runningProcess c.kernel).isSome ∧
        resolve_virt_addr c.kernel.toPaging PROGRAM_VIRT ≠ (c.kernel.pcbs c.kernel.cur_pcb).page_addr := by
  intro locals tick happenings
  exact ⟨by decide +kernel, exists_run (by decide +kernel)⟩

end lacos.system
