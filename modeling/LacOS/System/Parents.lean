import LacOS.System.Halting.Follows
import LacOS.System.Live

open memory lacos.lib lacos.file_system lacos.pcb lacos.multi_term lacos.syscalls lacos.timer lacos.idt_handle trace

namespace lacos.system

/-- A shell that the kernel has to start itself, on a terminal without a task or in
    place of one that halts, can be started. -/
def ShellsStart (fs : Image) (s : System) : Event → Prop
  | .pit_interrupt locals =>
    (s.kernel.terminals (next_tid s.kernel.sched_term_id)).cur_task = NULL → Passes fs s.kernel shell locals
  | .sys_halt _ locals => (s.kernel.pcbs s.kernel.cur_pcb).parent_task = NULL → Executable fs shell locals
  | .exception _ locals => (s.kernel.pcbs s.kernel.cur_pcb).parent_task = NULL → Executable fs shell locals
  | _ => True

/-- The first tick comes before `entry` can start a shell itself. -/
def TicksFirst (fs : Image) (s : System) : Event → Prop
  | .entry_execute locals => ¬ Passes fs s.kernel shell locals
  | _ => True

instance (fs : Image) (s : System) (event : Event) : Decidable (ShellsStart fs s event) := by
  unfold ShellsStart
  split <;> infer_instance

instance (fs : Image) (s : System) (event : Event) : Decidable (TicksFirst fs s event) := by
  unfold TicksFirst
  split <;> infer_instance

namespace Computer

/-- The statement that is to come calls `sys_execute` for a new shell. -/
def restarts (c : Computer) : Bool :=
  match c.pending with
  | some (.restarting _) => true
  | _ => false

/-- A shell that the kernel has to start itself can be started. -/
def ShellsStart (fs : Image) (c : Computer) : Happening → Prop
  | .event (.sys_halt _ _) => True
  | .event event => system.ShellsStart fs c.toSystem event
  | .statement locals => c.restarts = true → Executable fs shell locals

def TicksFirst (fs : Image) (c : Computer) : Happening → Prop
  | .event event => system.TicksFirst fs c.toSystem event
  | .statement _ => True

instance (fs : Image) (c : Computer) (happening : Happening) : Decidable (ShellsStart fs c happening) := by
  unfold ShellsStart
  split <;> infer_instance

instance (fs : Image) (c : Computer) (happening : Happening) : Decidable (TicksFirst fs c happening) := by
  unfold TicksFirst
  split <;> infer_instance

/-- The call of `sys_execute` that an event makes: the kernel it finds, the command and
    the stack. -/
def eventCall (k : Kernel) (spinning : Bool) : Event → Option (Kernel × CString × Locals)
  | .pit_interrupt locals =>
    if (k.terminals (next_tid k.sched_term_id)).cur_task = NULL then
      some (beforeRestart (handOver (cli k) (next_tid k.sched_term_id)), shell, locals)
    else none
  | .sys_execute command locals => (runningProcess k).map fun _ => (k, command, locals)
  | .exception exception locals =>
    let k := { k.onConsole (printText · exception.message) with except_raised := true }
    if k.cur_pcb ≠ NULL ∧ (haltDone k).cur_pcb = NULL then (runningProcess k).map fun _ => (haltDone k, shell, locals)
    else none
  | .entry_execute locals => if k.running = .entry ∧ spinning = false then some (k, shell, locals) else none
  | .switch_terminal _ | .sys_halt _ _ => none

/-- The call of `sys_execute` that is made. -/
def executeCall (c : Computer) : Happening → Option (Kernel × CString × Locals)
  | .event event =>
    if event.interrupts = true ∨ c.pending = none then eventCall c.kernel c.spinning event else none
  | .statement locals => if c.restarts then (runningProcess c.kernel).map fun _ => (c.kernel, shell, locals) else none

end Computer

/-- The terminals that have a task: none at first, then with each tick one more, and in
    the end all of them. -/
inductive Started (k : Kernel) : Prop where
  | booting (hrunning : k.running = .entry) (hsched : k.sched_term_id = 0)
      (htasks : ∀ t, (k.terminals t).cur_task = NULL)
  | starting (hshell : k.starting_new_shell = true) (hsched : k.sched_term_id ≠ 0)
      (htasks : ∀ t, (k.terminals t).cur_task ≠ NULL ↔ t ≠ 0 ∧ t ≤ k.sched_term_id)
  | all (htasks : ∀ t, (k.terminals t).cur_task ≠ NULL)

section Started

variable {fs : Image} {k k' : Kernel}

/-- Only the running context, the scheduled terminal and the tasks matter for how far the start
    has come. -/
theorem Started.congr (hk : Started k) (hrunning : k'.running = k.running) (hsched : k'.sched_term_id = k.sched_term_id)
    (hshell : k'.starting_new_shell = k.starting_new_shell)
    (htasks : ∀ t, (k'.terminals t).cur_task = (k.terminals t).cur_task) : Started k' := by
  obtain ⟨hrun, hs, ht⟩ | ⟨hsh, hs, ht⟩ | ht := hk
  · exact .booting (hrunning.trans hrun) (hsched.trans hs) fun t => (htasks t).trans (ht t)
  · refine .starting (hshell.trans hsh) (hsched ▸ hs) fun t => ?_
    rw [htasks, hsched]
    exact ht t
  · exact .all fun t => (htasks t) ▸ ht t

/-- A call that is refused does not start anything. -/
theorem Started.refused (hk : Started k) (hrefused : Refused k k') : Started k' :=
  hk.congr hrefused.running hrefused.prints.sched_term_id hrefused.starting_new_shell hrefused.cur_task

/-- A process or a shell takes the place of a task on a terminal that has one. -/
theorem Started.replaced (hk : Started k) {p : Process} (hrunning : k.running = .process p) {t : Fin MAX_TERM_NUM}
    {task : UInt32} (htask : task ≠ NULL) (ht : k.starting_new_shell = true → t = k.sched_term_id)
    (hsched : k'.sched_term_id = k.sched_term_id) (hshell : k.starting_new_shell = true → k'.starting_new_shell = true)
    (htasks : ∀ u, (k'.terminals u).cur_task = if u = t then task else (k.terminals u).cur_task) : Started k' := by
  obtain ⟨hrun, -, -⟩ | ⟨hsh, hs, hold⟩ | hold := hk
  · rw [hrun] at hrunning
    cases hrunning
  · obtain rfl := ht hsh
    refine .starting (hshell hsh) (hsched ▸ hs) fun u => ?_
    rw [htasks, hsched]
    split
    · rename_i hu
      simp only [htask, hu, hs, le_refl, ne_eq, not_false_eq_true, and_self]
    · exact hold u
  · refine .all fun u => ?_
    rw [htasks]
    split
    · exact htask
    · exact hold u

/-- A tick gives the next terminal its first task. -/
theorem Started.ticked (hk : Started k) (hnull : (k.terminals (next_tid k.sched_term_id)).cur_task = NULL)
    {task : UInt32} (htask : task ≠ NULL) (hsched : k'.sched_term_id = next_tid k.sched_term_id)
    (hshell : k'.starting_new_shell = true) (htasks : ∀ u, (k'.terminals u).cur_task =
      if u = next_tid k.sched_term_id then task else (k.terminals u).cur_task) : Started k' := by
  have hnew (u : Fin MAX_TERM_NUM) : (k'.terminals u).cur_task ≠ NULL ↔
      u = next_tid k.sched_term_id ∨ (k.terminals u).cur_task ≠ NULL := by
    rw [htasks]
    split
    · rename_i hu
      simp only [htask, hu, ne_eq, not_false_eq_true, true_or]
    · rename_i hu
      simp only [hu, false_or]
  obtain ⟨-, hs, hold⟩ | ⟨-, hs, hold⟩ | hold := hk
  · rw [hs] at hsched hnew
    refine .starting hshell (hsched ▸ by decide) fun u => ?_
    have hfirst : ∀ u : Fin MAX_TERM_NUM, u = next_tid 0 ↔ u ≠ 0 ∧ u ≤ next_tid 0 := by decide
    rw [hnew, hsched, ← hfirst, hold]
    simp only [ne_eq, not_true_eq_false, or_false]
  · generalize k.sched_term_id = sched at hs hsched hnew hold
    by_cases hlast : next_tid sched = 0
    · have hall : ∀ sched u : Fin MAX_TERM_NUM, next_tid sched = 0 → u = next_tid sched ∨ u ≠ 0 ∧ u ≤ sched := by decide
      exact .all fun u => (hnew u).mpr ((hall sched u hlast).imp_right (hold u).mpr)
    · refine .starting hshell (hsched ▸ hlast) fun u => ?_
      have hmore : ∀ sched u : Fin MAX_TERM_NUM, next_tid sched ≠ 0 →
          (u = next_tid sched ∨ u ≠ 0 ∧ u ≤ sched ↔ u ≠ 0 ∧ u ≤ next_tid sched) := by decide
      rw [hnew, hsched, hold, hmore sched u hlast]
  · exact absurd hnull (hold _)

/-- A tick that finds a task finds one on every terminal. -/
theorem Started.all_of_task (hk : Started k) (htask : (k.terminals (next_tid k.sched_term_id)).cur_task ≠ NULL) :
    ∀ t, (k.terminals t).cur_task ≠ NULL := by
  obtain ⟨-, -, hold⟩ | ⟨-, hs, hold⟩ | hold := hk
  · exact absurd (hold _) htask
  · have hnext : ∀ sched : Fin MAX_TERM_NUM, sched ≠ 0 → ¬ (next_tid sched ≠ 0 ∧ next_tid sched ≤ sched) := by decide
    exact absurd ((hold _).mp htask) (hnext _ hs)
  · exact hold

end Started

/-- When a shell halts, the kernel starts another one, which the assumption on shells covers. -/
theorem executable_of_exit {fs : Image} {s : System} {event : Event} (hshells : ShellsStart fs s event)
    {exit : Exit} {locals : Locals}
    (hexit : event.exit = some (exit, locals)) (hnull : (s.kernel.pcbs s.kernel.cur_pcb).parent_task = NULL) :
    Executable fs shell locals := by
  cases event with
  | sys_halt status locals' =>
    cases hexit
    exact hshells hnull
  | exception exception locals' =>
    cases hexit
    exact hshells hnull
  | _ => cases hexit

/-- What one event keeps. -/
theorem Started.moves {fs : Image} {page_tables : UInt32 → UInt32} {s s' : System} {event : Event}
    (hspace : SpaceSound page_tables s.kernel) (hk : Started s.kernel) (hshells : ShellsStart fs s event)
    (hfirst : TicksFirst fs s event) (hmoves : Moves fs s event s') : Started s'.kernel := by
  cases hmoves with
  | started locals k' hnull hexecuted =>
    obtain ⟨hpasses, -⟩ | ⟨n, -, -, hn, -, hlaunched⟩ := hexecuted
    · exact absurd (hshells hnull) hpasses
    · have hblock : slotBlock n ≠ NULL := slotBlock_ne_null (by omega)
      refine hk.ticked hnull hblock hlaunched.sched_term_id hlaunched.starting_new_shell fun u => ?_
      rw [hlaunched.cur_task, startTerm_beforeRestart, beforeRestart_terminals, handOver_cur_task,
        handOver_sched_term_id]
  | resumed locals k' htask hresumed =>
    refine .all fun u => ?_
    rw [hresumed.console, handOver_cur_task]
    exact hk.all_of_task htask u
  | switched new_term_id =>
    refine switch_terminal_keeps hk (fun t => ?_) new_term_id
    refine hk.congr rfl (switchTo_sched_term_id _ t) rfl fun u => ?_
    rw [switchTo_terminals hspace.paged]
  | executed p command locals k' hrunning hexecuted =>
    obtain ⟨-, hrefused⟩ | ⟨n, -, -, hn, -, hlaunched⟩ := hexecuted
    · exact hk.refused hrefused
    · refine hk.replaced hrunning (slotBlock_ne_null (by omega)) (fun hshell => ?_) hlaunched.sched_term_id
        (fun hshell => hlaunched.starting_new_shell.trans hshell) hlaunched.cur_task
      rw [startTerm, hshell, if_pos rfl]
  | returned event exit locals p ending released frame hexit hrunning hcur hending hreleased hparent hframe =>
    have hsched := hending.prints.sched_term_id
    refine hk.replaced hrunning hparent (fun _ => rfl) (hreleased.sched_term_id.trans hsched)
      (fun hshell => ?_) fun u => ?_
    · have hsame : released.starting_new_shell = s.kernel.starting_new_shell := by
        rw [hreleased.starting_new_shell, hending.tasks]
      exact hsame.trans hshell
    · have htask := hreleased.cur_task u
      rw [hsched, hending.cur_pcb, hending.pcbs, hending.cur_task] at htask
      exact htask
  | restarted event exit locals p ending released k' outcome hexit hrunning hcur hending hreleased hparent hexecuted =>
    have hcur' : ending.cur_pcb ≠ NULL := hending.cur_pcb ▸ hcur
    have hspace' := hspace.ending hending
    have hexecutable := executable_of_exit hshells hexit hparent
    obtain ⟨slots, hlive⟩ := hspace'.live
    obtain ⟨hpasses, -⟩ | ⟨n, -, -, hn, -, hlaunched⟩ := hexecuted (hspace'.released hcur' hreleased).six
    · have hroom := hlive.room hcur' hreleased
      exact absurd ⟨hroom, hexecutable⟩ hpasses
    · have hblock : slotBlock n ≠ NULL := slotBlock_ne_null (by omega)
      have hsched : released.sched_term_id = s.kernel.sched_term_id :=
        hreleased.sched_term_id.trans hending.prints.sched_term_id
      refine hk.replaced hrunning hblock (fun _ => rfl) (hlaunched.sched_term_id.trans hsched)
        (fun _ => hlaunched.starting_new_shell) fun u => ?_
      rw [System.ended_kernel, hlaunched.cur_task, startTerm_beforeRestart, hsched]
      split
      · rfl
      · rename_i hu
        have hold := hreleased.cur_task u
        rw [hending.prints.sched_term_id, if_neg hu, hending.cur_task] at hold
        exact hold
  | entry_executed locals k' hrunning hspinning hexecuted =>
    obtain ⟨-, hrefused⟩ | ⟨n, hpasses, -, -, -, -⟩ := hexecuted
    · exact hk.refused hrefused
    · exact absurd hpasses hfirst

/-- A process without a parent was a shell, and `sys_halt` says that a new one is to be started.
    -/
theorem haltDone_starting {k : Kernel} (hnull : (haltDone k).cur_pcb = NULL) : (haltDone k).starting_new_shell = true := by
  rw [haltDone_eq] at hnull ⊢
  by_cases hparent : (release k).cur_pcb = NULL
  · rw [exec_restore_shell hparent]
    rfl
  · rw [exec_restore_parent hparent] at hnull
    exact absurd hnull hparent

namespace Computer

/-- If `sys_execute` is called for a regular process that passes the checks, the visible
    terminal has the task that becomes the parent. -/
def ParentPresent (fs : Image) (c : Computer) (happening : Happening) : Prop :=
  ∀ k command locals, c.executeCall happening = some (k, command, locals) → k.starting_new_shell = false →
    Passes fs k command locals → (k.terminals k.vis_term_id).cur_task ≠ NULL

section Calls

variable {fs : Image} {c : Computer} {s : System} {k k' : Kernel} {command : CString} {locals : Locals}

/-- The call that is listed is made: what the event does is what the call makes of the
    kernel. -/
theorem step_call {event : Event} (hcall : eventCall s.kernel s.spinning event = some (k, command, locals)) :
    ∃ finish : Outcome × Kernel → System, ∀ fs, step fs s event = (sys_execute fs k command locals).map finish := by
  cases event with
  | pit_interrupt locals' =>
    rw [eventCall] at hcall
    split at hcall
    · rename_i hnull
      cases hcall
      refine ⟨fun result => { s with kernel := sti result.2 }, fun fs => ?_⟩
      have hticked : switch_tasks fs (cli s.kernel) (next_tid s.kernel.sched_term_id) locals =
          (sys_execute fs (beforeRestart (handOver (cli s.kernel) (next_tid s.kernel.sched_term_id))) shell
            locals).map (·.2) := by
        rw [switch_tasks_eq (k := cli s.kernel) (next_tid_ne s.kernel.sched_term_id)]
        exact if_pos hnull
      rw [step, pit_interrupt]
      simp only [cli_toConsole, hticked, Option.map_map, Function.comp_def]
    · cases hcall
  | switch_terminal new_term_id => cases hcall
  | sys_execute command' locals' =>
    obtain ⟨p, hp, hcall⟩ := Option.map_eq_some_iff.mp hcall
    cases hcall
    refine ⟨fun result => { s with kernel := result.2 }, fun fs => ?_⟩
    rw [step, hp]
    cases sys_execute fs s.kernel command locals <;> rfl
  | sys_halt status locals' => cases hcall
  | exception exception locals' =>
    obtain ⟨ending, hending⟩ : ∃ ending,
        { s.kernel.onConsole (printText · exception.message) with except_raised := true } = ending := ⟨_, rfl⟩
    have hrunning : runningProcess ending = runningProcess s.kernel := hending ▸ rfl
    simp only [eventCall, hending] at hcall
    split at hcall
    · rename_i hnull
      obtain ⟨p, hp, hcall⟩ := Option.map_eq_some_iff.mp hcall
      cases hcall
      have hcur : ending.cur_pcb ≠ NULL := hending ▸ hnull.1
      refine ⟨fun result => s.ended p .excepted (.restarted result.1, result.2), fun fs => ?_⟩
      rw [step, ← hrunning, hp, handle, hending, sys_halt, if_neg hcur]
      simp only [if_neg (not_not.mpr hnull.2)]
      cases sys_execute fs (haltDone ending) shell locals <;> rfl
    · cases hcall
  | entry_execute locals' =>
    rw [eventCall] at hcall
    split at hcall
    · rename_i hfirst
      cases hcall
      exact ⟨fun result => { s with kernel := result.2, spinning := true }, fun fs => by rw [step, if_pos hfirst]⟩
    · cases hcall

/-- No call is left out: an event without one does the same whatever the file system has. -/
theorem step_no_call {event : Event} (hhalt : ∀ status locals, event ≠ .sys_halt status locals)
    (hcall : eventCall s.kernel s.spinning event = none) (fs fs' : Image) : step fs s event = step fs' s event := by
  cases event with
  | pit_interrupt locals =>
    rw [eventCall] at hcall
    split at hcall
    · cases hcall
    · rename_i htask
      have hticked (fs : Image) : switch_tasks fs (cli s.kernel) (next_tid s.kernel.sched_term_id) locals =
          resumeTask (handOver (cli s.kernel) (next_tid s.kernel.sched_term_id)) := by
        rw [switch_tasks_eq (k := cli s.kernel) (next_tid_ne s.kernel.sched_term_id)]
        exact if_neg htask
      rw [step, step, pit_interrupt, pit_interrupt]
      simp only [cli_toConsole, hticked]
  | switch_terminal new_term_id => rfl
  | sys_execute command locals =>
    have hnone := Option.map_eq_none_iff.mp hcall
    rw [step, step, hnone, Option.bind_eq_bind, Option.bind_none, Option.bind_none]
  | sys_halt status locals => exact absurd rfl (hhalt status locals)
  | exception exception locals =>
    obtain ⟨ending, hending⟩ : ∃ ending,
        { s.kernel.onConsole (printText · exception.message) with except_raised := true } = ending := ⟨_, rfl⟩
    have hrunning : runningProcess ending = runningProcess s.kernel := hending ▸ rfl
    simp only [eventCall, hending] at hcall
    split at hcall
    · have hnone := hrunning ▸ Option.map_eq_none_iff.mp hcall
      rw [step, step, hnone, Option.bind_eq_bind, Option.bind_none, Option.bind_none]
    · rename_i hnull
      by_cases hcur : ending.cur_pcb = NULL
      · rw [step, step, handle, handle, hending, sys_halt, sys_halt, if_pos hcur, if_pos hcur]
      · have hsame : ending.cur_pcb = s.kernel.cur_pcb := hending ▸ rfl
        have hparent : (haltDone ending).cur_pcb ≠ NULL := fun hshell => hnull ⟨hsame ▸ hcur, hshell⟩
        rw [step, step, handle, handle, hending, sys_halt, sys_halt, if_neg hcur, if_neg hcur]
        simp only [if_pos hparent]
  | entry_execute locals =>
    rw [eventCall] at hcall
    split at hcall
    · cases hcall
    · rename_i hfirst
      rw [step, step, if_neg hfirst, if_neg hfirst]

/-- Where `sys_execute` is called, what happens depends on the file system by that call alone. -/
theorem happen_call {happening : Happening} (hcall : c.executeCall happening = some (k, command, locals)) :
    ∃ finish : Outcome × Kernel → Computer, ∀ fs, happen fs c happening =
      (sys_execute fs k command locals).map finish := by
  cases happening with
  | event event =>
    rw [executeCall] at hcall
    split at hcall
    · rename_i hfree
      have hhalt (status : UInt8) (locals' : Locals) : event ≠ .sys_halt status locals' := by
        rintro rfl
        cases hcall
      obtain ⟨finish, hfinish⟩ := step_call hcall
      refine ⟨fun result => { c with toSystem := finish result }, fun fs => ?_⟩
      rw [happen_event hhalt, if_pos hfree, hfinish, Option.map_map]
      rfl
    · cases hcall
  | statement locals' =>
    rw [executeCall] at hcall
    split at hcall
    · rename_i hrestarts
      obtain ⟨p, hp, hcall⟩ := Option.map_eq_some_iff.mp hcall
      cases hcall
      rw [restarts] at hrestarts
      split at hrestarts
      · rename_i status hpending
        refine ⟨fun result => { c.goOn result.2 none with exits := (p, .halted status) :: c.exits }, fun fs => ?_⟩
        rw [happen, hpending, Option.bind_some, statement, hp]
        cases sys_execute fs c.kernel shell locals <;> rfl
      · cases hrestarts
    · cases hcall

/-- Where `sys_execute` is not called, the file system does not matter. -/
theorem happen_no_call {happening : Happening} (hcall : c.executeCall happening = none) (fs fs' : Image) :
    happen fs c happening = happen fs' c happening := by
  cases happening with
  | event event =>
    by_cases hhalt : ∀ status locals, event ≠ .sys_halt status locals
    · rw [executeCall] at hcall
      rw [happen_event hhalt, happen_event hhalt]
      split at hcall
      · rw [step_no_call hhalt hcall fs fs']
      · rename_i hbusy
        rw [if_neg hbusy, if_neg hbusy]
    · simp only [not_forall, not_not] at hhalt
      obtain ⟨status, locals, rfl⟩ := hhalt
      rw [happen, happen]
  | statement locals =>
    rw [happen, happen]
    cases hpending : c.pending with
    | none => rw [Option.bind_none, Option.bind_none]
    | some next =>
      rw [Option.bind_some, Option.bind_some]
      cases next with
      | halting rest offset status =>
        cases rest with
        | nil => rw [statement, statement]
        | cons first rest => rw [statement, statement]
      | jumping status => rw [statement, statement]
      | returning child status => rw [statement, statement]
      | restarting status =>
        have hrestarts : c.restarts = true := by rw [restarts, hpending]
        rw [executeCall, if_pos hrestarts] at hcall
        have hnone := Option.map_eq_none_iff.mp hcall
        rw [statement, statement, hnone, Option.bind_eq_bind, Option.bind_none, Option.bind_none]

/-- A regular process finds its parent. -/
theorem parent_of_event {event : Event} (hk : Started k) {spinning : Bool}
    (hfirst : ∀ locals, event = .entry_execute locals → ¬ Passes fs k shell locals)
    (hcall : eventCall k spinning event = some (k', command, locals)) (hshell : k'.starting_new_shell = false)
    (hpasses : Passes fs k' command locals) : (k'.terminals k'.vis_term_id).cur_task ≠ NULL := by
  cases event with
  | pit_interrupt locals' =>
    rw [eventCall] at hcall
    split at hcall
    · cases hcall
      cases hshell
    · cases hcall
  | switch_terminal new_term_id => cases hcall
  | sys_execute command' locals' =>
    obtain ⟨p, hp, hcall⟩ := Option.map_eq_some_iff.mp hcall
    cases hcall
    obtain ⟨hrunning, -, -⟩ | ⟨hstarting, -, -⟩ | htasks := hk
    · rw [runningProcess_eq_some, hrunning] at hp
      cases hp
    · rw [hstarting] at hshell
      cases hshell
    · exact htasks _
  | sys_halt status locals' => cases hcall
  | exception exception locals' =>
    obtain ⟨ending, hending⟩ : ∃ ending,
        { k.onConsole (printText · exception.message) with except_raised := true } = ending := ⟨_, rfl⟩
    simp only [eventCall, hending] at hcall
    split at hcall
    · rename_i hnull
      obtain ⟨p, -, hcall⟩ := Option.map_eq_some_iff.mp hcall
      cases hcall
      rw [haltDone_starting hnull.2] at hshell
      cases hshell
    · cases hcall
  | entry_execute locals' =>
    rw [eventCall] at hcall
    split at hcall
    · cases hcall
      exact absurd hpasses (hfirst _ rfl)
    · cases hcall

/-- The call of a new shell in place of one that halts needs no parent. -/
theorem starting_of_restarts (hc : Follows c s) (hrestarts : c.restarts = true) :
    c.kernel.starting_new_shell = true := by
  cases hc with
  | idle hsystem hunfinished =>
    rw [restarts, pending, hunfinished] at hrestarts
    cases hrestarts
  | halting p done rest status hrunning hall hrest hcur hsystem hunfinished =>
    rw [restarts, pending_only (hsystem ▸ (foldl_exec_steady _ _ _).running.trans hrunning) hunfinished] at hrestarts
    cases hrestarts
  | jumping p status hrunning hcur hparent hsystem hunfinished =>
    rw [restarts, pending_only (hsystem ▸ (haltDone_steady _).running.trans hrunning) hunfinished] at hrestarts
    cases hrestarts
  | restarting p status hrunning hcur hnull hsystem hunfinished =>
    rw [hsystem]
    exact haltDone_starting hnull
  | returning p status frame hrunning hcur hparent hframe hsystem hunfinished =>
    rw [restarts, pending_only (hsystem ▸ rfl) hunfinished] at hrestarts
    cases hrestarts

/-- A regular process finds its parent, whatever `sys_execute` is called by. -/
theorem parent_present {happening : Happening} (hc : Follows c s) (hs : Started s.kernel)
    (htick : NoTickInside c happening) (hfirst : c.TicksFirst fs happening) : c.ParentPresent fs happening := by
  intro k command locals hcall hshell hpasses
  cases happening with
  | event event =>
    rw [executeCall] at hcall
    split at hcall
    · rename_i hfree
      have hpending : event.interrupts = true → c.pending = none := by
        intro hinterrupts
        cases event with
        | pit_interrupt locals' => exact htick
        | switch_terminal new_term_id => cases hcall
        | _ => cases hinterrupts
      obtain ⟨rfl, -⟩ := hc.idle_of_pending (hfree.elim hpending id)
      exact parent_of_event hs (fun locals' heq => by subst heq; exact hfirst) hcall hshell hpasses
    · cases hcall
  | statement locals' =>
    rw [executeCall] at hcall
    split at hcall
    · rename_i hrestarts
      obtain ⟨p, -, hcall⟩ := Option.map_eq_some_iff.mp hcall
      cases hcall
      rw [starting_of_restarts hc hrestarts] at hshell
      cases hshell
    · cases hcall

/-- What is asked of the happenings is asked of the events they complete. -/
theorem ShellsStart.completes {happening : Happening} {event : Event} (hshells : c.ShellsStart fs happening)
    (hcompletes : Completes c s happening event) : system.ShellsStart fs s event := by
  cases hcompletes with
  | event event hsystem hhalt =>
    cases event with
    | sys_halt status locals => exact absurd rfl (hhalt status locals)
    | _ => exact hsystem ▸ hshells
  | switched new_term_id => trivial
  | restarted status locals hpending hnull =>
    intro _
    exact hshells (by rw [restarts, hpending])
  | returned child status locals hpending hparent hraised => exact fun hnull => absurd hnull hparent

/-- The first tick comes before the boot shell for the completed events as well. -/
theorem TicksFirst.completes {happening : Happening} {event : Event} (hfirst : c.TicksFirst fs happening)
    (hcompletes : Completes c s happening event) : system.TicksFirst fs s event := by
  cases hcompletes with
  | event event hsystem hhalt => exact hsystem ▸ hfirst
  | switched new_term_id => trivial
  | restarted status locals hpending hnull => trivial
  | returned child status locals hpending hparent hraised => trivial

end Calls

end Computer

/-- At first no terminal has a task. -/
theorem entry_started (machine : Kernel) : Started (entry machine) := by
  have hbooted := entry_booted machine
  exact .booting hbooted.running hbooted.sched_term_id hbooted.tasks

/-- No missing parent: if no tick falls into a `sys_halt`, the first tick comes before
    `entry`'s own call and the kernel can start the shells it needs, every `sys_execute`
    for a regular process finds the task to save the stack pointers in. Nothing is asked
    of the programs, which may halt and be switched as they like. -/
theorem parents_present (fs : Image) (machine : Kernel) (happenings : List Happening)
    (hguard : Guarded (happen fs)
      (fun c happening => NoTickInside c happening ∧ c.ShellsStart fs happening ∧ c.TicksFirst fs happening)
      (Computer.start machine) happenings) :
    Guarded (happen fs) (Computer.ParentPresent fs) (Computer.start machine) happenings := by
  have hstep (s : System) (event : Event) (s' : System)
      (hs : SpaceSound machine.page_tables s.kernel ∧ Started s.kernel)
      (hguard : ShellsStart fs s event ∧ TicksFirst fs s event) (hstep : step fs s event = some s') :
      SpaceSound machine.page_tables s'.kernel ∧ Started s'.kernel := by
    have hmoves := step_moves hs.1.six hstep
    exact ⟨hs.1.moves hmoves, hs.2.moves hs.1 hguard.1 hguard.2 hmoves⟩
  have hkeep (c : Computer) (happening : Happening) (c' : Computer)
      (hc : ∃ s, Follows c s ∧ SpaceSound machine.page_tables s.kernel ∧ Started s.kernel)
      (hallowed : NoTickInside c happening ∧ c.ShellsStart fs happening ∧ c.TicksFirst fs happening)
      (hhappen : happen fs c happening = some c') :
      ∃ s, Follows c' s ∧ SpaceSound machine.page_tables s.kernel ∧ Started s.kernel :=
    follows_keeps (fun s hs => hs.1.six) hstep hallowed.1
      (fun s event hcompletes => ⟨hallowed.2.1.completes hcompletes, hallowed.2.2.completes hcompletes⟩) hc hhappen
  refine guarded_of_invariant (fun c happening hc hallowed => ?_) hkeep ?_ hguard
  · obtain ⟨s, hc, -, hs⟩ := hc
    exact Computer.parent_present hc hs hallowed.1 hallowed.2.2
  · exact ⟨_, start_follows machine, entry_spaceSound machine, entry_started machine⟩

theorem parents_present_after_four_ticks :
    let locals : Locals := ⟨fun _ => 0, fun _ => 0⟩
    let tick : Happening := .event (.pit_interrupt locals)
    let happenings : List Happening := [tick, tick, tick, tick, .event (.switch_terminal 2),
      .event (.sys_execute shell locals), .event (.sys_halt 0 locals), .statement locals]
    (run (happen shellImage) (Computer.start blankMachine) happenings).isSome ∧
      Guarded (happen shellImage) (Computer.ParentPresent shellImage) (Computer.start blankMachine) happenings := by
  intro locals tick happenings
  exact ⟨by decide +kernel, parents_present shellImage blankMachine happenings (by decide +kernel)⟩

/-- Before the first tick `entry` calls `sys_execute` for a regular process, and no
    terminal has a task yet. -/
theorem entry_execute_without_parent :
    let locals : Locals := ⟨fun _ => 0, fun _ => 0⟩
    let happening : Happening := .event (.entry_execute locals)
    (happen shellImage (Computer.start blankMachine) happening).isNone ∧
      ¬ Guarded (happen shellImage) (Computer.ParentPresent shellImage) (Computer.start blankMachine)
        [happening] := by
  intro locals happening
  have hbooted := entry_booted blankMachine
  have hpasses : Passes shellImage (entry blankMachine) shell locals := by decide +kernel
  refine ⟨by decide +kernel, ?_⟩
  rintro ⟨hpresent, -⟩
  refine hpresent (entry blankMachine) shell locals ?_ hbooted.starting_new_shell hpasses (hbooted.tasks _)
  rw [Computer.executeCall, if_pos (.inr rfl), Computer.eventCall]
  exact if_pos ⟨hbooted.running, rfl⟩

/-- So does a program if a tick falls into the `sys_halt` of the visible terminal's shell:
    that terminal has no task until its new shell is started, and the new shell is not
    started before its terminal's turn comes again. -/
theorem execute_inside_halt :
    let locals : Locals := ⟨fun _ => 0, fun _ => 0⟩
    let tick : Happening := .event (.pit_interrupt locals)
    let happenings : List Happening := [tick, tick, tick, tick, .event (.switch_terminal 1),
      .event (.sys_halt 0 locals), .statement locals, .statement locals, .statement locals, .statement locals, tick]
    Guarded (happen shellImage)
        (fun c happening => c.ShellsStart shellImage happening ∧ c.TicksFirst shellImage happening)
        (Computer.start blankMachine) happenings ∧
      ∃ c, run (happen shellImage) (Computer.start blankMachine) happenings = some c ∧
        (happen shellImage c (.event (.sys_execute shell locals))).isNone ∧
        ¬ c.ParentPresent shellImage (.event (.sys_execute shell locals)) := by
  intro locals tick happenings
  obtain ⟨c, hrun⟩ : ∃ c, run (happen shellImage) (Computer.start blankMachine) happenings = some c :=
    Option.isSome_iff_exists.mp (by decide +kernel)
  have hfacts : ((run (happen shellImage) (Computer.start blankMachine) happenings).all fun c =>
      (happen shellImage c (.event (.sys_execute shell locals))).isNone ∧ c.pending = none ∧
        (runningProcess c.kernel).isSome ∧ c.kernel.starting_new_shell = false ∧
        Passes shellImage c.kernel shell locals ∧ (c.kernel.terminals c.kernel.vis_term_id).cur_task = NULL) = true := by
    decide +kernel
  rw [hrun, Option.all_some, decide_eq_true_iff] at hfacts
  obtain ⟨hnone, hpending, hrunning, hshell, hpasses, hnull⟩ := hfacts
  obtain ⟨p, hp⟩ := Option.isSome_iff_exists.mp hrunning
  refine ⟨by decide +kernel, c, hrun, hnone, fun hpresent => ?_⟩
  refine hpresent c.kernel shell locals ?_ hshell hpasses hnull
  rw [Computer.executeCall, if_pos (.inr hpending), Computer.eventCall, hp, Option.map_some]

end lacos.system
