import LacOS.MultiTerm.Placement
import LacOS.System.Halting
import LacOS.System.Step

open memory lacos.lib lacos.file_system lacos.paging lacos.pcb lacos.multi_term lacos.syscalls lacos.timer

namespace lacos.system

section Exec

variable (offset : UInt32) (k : Kernel) (next : HaltStatement) (statements : List HaltStatement)

/-- Without a current process there is no block to give back. -/
theorem close_pcb_null (hnull : k.cur_pcb = NULL) : (close_pcb k k.cur_pcb).2 = k := by
  rw [close_pcb, if_pos hnull]

/-- What a statement of `sys_halt` leaves as it is. -/
structure Steady (k k' : Kernel) : Prop where
  running : k'.running = k.running
  except_raised : k'.except_raised = k.except_raised
  status : ∀ n, Taken k'.pcb_status n → Taken k.pcb_status n

/-- One statement of `sys_halt` leaves what is steady. -/
theorem exec_steady : Steady k (next.exec offset k) := by
  cases next with
  | map_page => exact ⟨rfl, rfl, fun _ hn => hn⟩
  | pcb_status =>
    refine ⟨rfl, rfl, fun n hn => ?_⟩
    change Taken (k.pcb_status &&& _) n at hn
    rw [Taken, UInt32.toNat_and, Nat.testBit_and, Bool.and_eq_true] at hn
    exact hn.1
  | close_pcb =>
    by_cases hnull : k.cur_pcb = NULL
    · rw [HaltStatement.exec, close_pcb_null k hnull]
      exact ⟨rfl, rfl, fun _ hn => hn⟩
    · rw [HaltStatement.exec, close_pcb_eq k hnull]
      exact ⟨rfl, rfl, fun _ hn => hn⟩
  | cur_task => exact ⟨rfl, rfl, fun _ hn => hn⟩
  | cur_pcb => exact ⟨rfl, rfl, fun _ hn => hn⟩
  | restore =>
    rw [HaltStatement.exec]
    split
    · exact ⟨rfl, rfl, fun _ hn => hn⟩
    · exact ⟨rfl, rfl, fun _ hn => hn⟩

/-- Any statements of `sys_halt` leave what is steady. -/
theorem foldl_exec_steady : Steady k (statements.foldl (HaltStatement.exec offset) k) := by
  induction statements generalizing k with
  | nil => exact ⟨rfl, rfl, fun _ hn => hn⟩
  | cons next rest ih =>
    have hnext := exec_steady offset k next
    have hrest := ih (next.exec offset k)
    exact ⟨hrest.running.trans hnext.running, hrest.except_raised.trans hnext.except_raised,
      fun n hn => hnext.status n (hrest.status n hn)⟩

/-- Another terminal becomes visible before a statement or after it. -/
theorem exec_switchTo (t : Fin MAX_TERM_NUM) :
    next.exec offset (switchTo k t) = switchTo (next.exec offset k) t := by
  cases next with
  | map_page => rfl
  | pcb_status => rfl
  | close_pcb =>
    by_cases hnull : k.cur_pcb = NULL
    · rw [HaltStatement.exec, HaltStatement.exec, close_pcb_null k hnull, close_pcb_null (switchTo k t) hnull]
    · rw [HaltStatement.exec, HaltStatement.exec, close_pcb_eq k hnull, close_pcb_eq (switchTo k t) hnull]
      rfl
  | cur_task =>
    have hsched : (switchTo k t).sched_term_id = k.sched_term_id := switchTo_sched_term_id k t
    rw [HaltStatement.exec, HaltStatement.exec, hsched]
    exact (switchTo_setTask k.sched_term_id (k.pcbs k.cur_pcb).parent_task k t).symm
  | cur_pcb => rfl
  | restore =>
    rw [HaltStatement.exec, HaltStatement.exec, switchTo_toTasks]
    split <;> rfl

/-- A switch of the visible terminal between statements of `sys_halt` can be moved before them. -/
theorem foldl_exec_switchTo (t : Fin MAX_TERM_NUM) :
    statements.foldl (HaltStatement.exec offset) (switchTo k t) =
      switchTo (statements.foldl (HaltStatement.exec offset) k) t := by
  induction statements generalizing k with
  | nil => rfl
  | cons next rest ih => rw [List.foldl_cons, List.foldl_cons, exec_switchTo, ih]

end Exec

/-- A key for another terminal does what it says while no more than six slots are taken. -/
theorem switch_terminal_eq {k : Kernel} (hsix : SixSlots k.pcb_status) (new_term_id : Int) :
    switch_terminal k new_term_id =
      if h : 0 ≤ new_term_id ∧ new_term_id < MAX_TERM_NUM then
        switchTo k ⟨new_term_id.toNat, (Int.toNat_lt h.1).mpr h.2⟩
      else k := by
  have hle : ¬ our_popcount k.pcb_status > MAX_PROCESSES := UInt32.not_lt.mpr (our_popcount_le hsix)
  rw [switch_terminal]
  simp only [if_neg hle]

/-- What has been done of a `sys_halt` and what another key does can be exchanged. -/
theorem switch_terminal_commutes {f : Kernel → Kernel} (hf : ∀ k t, f (switchTo k t) = switchTo (f k) t)
    (hsteady : ∀ k, Steady k (f k)) {k : Kernel} (hsix : SixSlots k.pcb_status) (new_term_id : Int) :
    switch_terminal (f k) new_term_id = f (switch_terminal k new_term_id) := by
  rw [switch_terminal_eq hsix, switch_terminal_eq fun n hn => hsix n ((hsteady k).status n hn)]
  split
  · rw [hf]
  · rfl

/-- One context has something to do. -/
def only (context : Context) (next : Unfinished) : Context → Option Unfinished :=
  Function.update (fun _ => none) context (some next)

/-- The computer at work on a system: there is nothing to do, or of the `sys_halt` of the
    running process some statements have been executed, or all of them, or it has jumped
    to the parent. -/
inductive Follows (c : Computer) (s : System) : Prop where
  | idle (hsystem : c.toSystem = s) (hunfinished : c.unfinished = fun _ => none)
  | halting (p : Process) (done rest : List HaltStatement) (status : UInt8) (hrunning : s.kernel.running = .process p)
      (hall : done ++ rest = haltStatements) (hrest : rest ≠ []) (hcur : done ≠ [] → s.kernel.cur_pcb ≠ NULL)
      (hsystem : c.toSystem =
        { s with kernel := done.foldl (HaltStatement.exec (haltOffset s.kernel.cur_pcb)) s.kernel })
      (hunfinished : c.unfinished = only (.process p) (.halting rest (haltOffset s.kernel.cur_pcb) status))
  | jumping (p : Process) (status : UInt8) (hrunning : s.kernel.running = .process p) (hcur : s.kernel.cur_pcb ≠ NULL)
      (hparent : (haltDone s.kernel).cur_pcb ≠ NULL) (hsystem : c.toSystem = { s with kernel := haltDone s.kernel })
      (hunfinished : c.unfinished = only (.process p) (.jumping status))
  | restarting (p : Process) (status : UInt8) (hrunning : s.kernel.running = .process p)
      (hcur : s.kernel.cur_pcb ≠ NULL) (hnull : (haltDone s.kernel).cur_pcb = NULL)
      (hsystem : c.toSystem = { s with kernel := haltDone s.kernel })
      (hunfinished : c.unfinished = only (.process p) (.restarting status))
  | returning (p : Process) (status : UInt8) (frame : Frame) (hrunning : s.kernel.running = .process p)
      (hcur : s.kernel.cur_pcb ≠ NULL) (hparent : (haltDone s.kernel).cur_pcb ≠ NULL)
      (hframe : ((haltDone s.kernel).pcbs (haltDone s.kernel).cur_pcb).esp = some frame)
      (hsystem : c.toSystem =
        { s with kernel := { haltDone s.kernel with running := frame.caller }, exits := (p, .halted status) :: s.exits })
      (hunfinished : c.unfinished = only frame.caller (.returning frame.child status))

/-- At first there is nothing to finish. -/
theorem start_follows (machine : Kernel) : Follows (Computer.start machine) (boot machine) := .idle rfl rfl

theorem only_same (context : Context) (next : Unfinished) : only context next context = some next := by
  rw [only, Function.update_self]

theorem update_only (context : Context) (next other : Unfinished) :
    Function.update (only context next) context (some other) = only context other := by
  rw [only, Function.update_idem, only]

theorem update_only_none (context : Context) (next : Unfinished) :
    Function.update (only context next) context none = fun _ => none := by
  rw [only, Function.update_idem, Function.update_eq_self_iff]

/-- The running context has to do what it is the only one to have left. -/
theorem pending_only {c : Computer} {context : Context} {next : Unfinished} (hrunning : c.kernel.running = context)
    (hunfinished : c.unfinished = only context next) : c.pending = some next := by
  rw [Computer.pending, hunfinished, hrunning, only_same]

/-- The event that a happening completes: any but a `sys_halt` at once, a `sys_halt` with
    its last statement. -/
inductive Completes (c : Computer) (s : System) : Happening → Event → Prop where
  | event (event : Event) (hsystem : c.toSystem = s) (hhalt : ∀ status locals, event ≠ .sys_halt status locals) :
      Completes c s (.event event) event
  | switched (new_term_id : Int) : Completes c s (.event (.switch_terminal new_term_id)) (.switch_terminal new_term_id)
  | restarted (status : UInt8) (locals : Locals) (hpending : c.pending = some (.restarting status))
      (hnull : (s.kernel.pcbs s.kernel.cur_pcb).parent_task = NULL) :
      Completes c s (.statement locals) (.sys_halt status locals)
  | returned (child : Process) (status : UInt8) (locals : Locals) (hpending : c.pending = some (.returning child status))
      (hparent : (s.kernel.pcbs s.kernel.cur_pcb).parent_task ≠ NULL)
      (hraised : c.kernel.except_raised = s.kernel.except_raised) :
      Completes c s (.statement locals) (.sys_halt status locals)

section Simulation

variable {fs : Image} {c c' : Computer} {s : System}

/-- What the running context has still to do while a `sys_halt` goes on. -/
theorem Follows.pending_cases (hc : Follows c s) :
    (c.pending = none ∧ c.toSystem = s ∧ c.unfinished = fun _ => none) ∨ ∃ next, c.pending = some next := by
  cases hc with
  | idle hsystem hunfinished => exact .inl ⟨by rw [Computer.pending, hunfinished], hsystem, hunfinished⟩
  | halting p done rest status hrunning hall hrest hcur hsystem hunfinished =>
    exact .inr ⟨_, pending_only (hsystem ▸ (foldl_exec_steady _ _ _).running.trans hrunning) hunfinished⟩
  | jumping p status hrunning hcur hparent hsystem hunfinished =>
    exact .inr ⟨_, pending_only (hsystem ▸ (foldl_exec_steady _ _ _).running.trans hrunning) hunfinished⟩
  | restarting p status hrunning hcur hnull hsystem hunfinished =>
    exact .inr ⟨_, pending_only (hsystem ▸ (foldl_exec_steady _ _ _).running.trans hrunning) hunfinished⟩
  | returning p status frame hrunning hcur hparent hframe hsystem hunfinished =>
    exact .inr ⟨_, pending_only (hsystem ▸ rfl) hunfinished⟩

/-- With nothing to finish in the running context, the computer is the system. -/
theorem Follows.idle_of_pending (hc : Follows c s) (hpending : c.pending = none) :
    c.toSystem = s ∧ c.unfinished = fun _ => none := by
  obtain ⟨-, hidle⟩ | ⟨next, hnext⟩ := hc.pending_cases
  · exact hidle
  · rw [hpending] at hnext
    cases hnext

theorem haltDone_steady (k : Kernel) : Steady k (haltDone k) := foldl_exec_steady _ _ _

/-- A switch does not depend on the context that it interrupts. -/
theorem switch_terminal_running (k : Kernel) (context : Context) (new_term_id : Int) :
    switch_terminal { k with running := context } new_term_id =
      { switch_terminal k new_term_id with running := context } := by
  rw [switch_terminal, switch_terminal]
  split
  · split <;> rfl
  · rfl

/-- Alt and a function key come to the same at every statement. -/
theorem Follows.switched (hc : Follows c s) (hsix : SixSlots s.kernel.pcb_status) (new_term_id : Int) :
    Follows { c with kernel := switch_terminal c.kernel new_term_id }
      { s with kernel := switch_terminal s.kernel new_term_id } := by
  obtain ⟨system, unfinished⟩ := c
  have htasks := switch_terminal_toTasks s.kernel new_term_id
  have hcommutes (statements : List HaltStatement) (offset : UInt32) :
      switch_terminal (statements.foldl (HaltStatement.exec offset) s.kernel) new_term_id =
        statements.foldl (HaltStatement.exec offset) (switch_terminal s.kernel new_term_id) :=
    switch_terminal_commutes (fun k t => foldl_exec_switchTo offset k statements t)
      (fun k => foldl_exec_steady offset k statements) hsix new_term_id
  have hhalted : haltDone (switch_terminal s.kernel new_term_id) = switch_terminal (haltDone s.kernel) new_term_id := by
    rw [haltDone, haltDone, htasks, hcommutes]
  have htasks' := switch_terminal_toTasks (haltDone s.kernel) new_term_id
  cases hc with
  | idle hsystem hunfinished =>
    subst hsystem
    exact .idle rfl hunfinished
  | halting p done rest status hrunning hall hrest hcur hsystem hunfinished =>
    subst hsystem
    refine .halting p done rest status (htasks ▸ hrunning) hall hrest (htasks ▸ hcur) ?_ ?_
    · simp only [hcommutes, htasks]
    · simp only [htasks]
      exact hunfinished
  | jumping p status hrunning hcur hparent hsystem hunfinished =>
    subst hsystem
    refine .jumping p status (htasks ▸ hrunning) (htasks ▸ hcur) ?_ (by simp only [hhalted]) hunfinished
    simp only [hhalted, htasks']
    exact hparent
  | restarting p status hrunning hcur hnull hsystem hunfinished =>
    subst hsystem
    refine .restarting p status (htasks ▸ hrunning) (htasks ▸ hcur) ?_ (by simp only [hhalted]) hunfinished
    simp only [hhalted, htasks']
    exact hnull
  | returning p status frame hrunning hcur hparent hframe hsystem hunfinished =>
    subst hsystem
    refine .returning p status frame (htasks ▸ hrunning) (htasks ▸ hcur) ?_ ?_ ?_ hunfinished
    · simp only [hhalted, htasks']
      exact hparent
    · simp only [hhalted, htasks']
      exact hframe
    · simp only [hhalted, switch_terminal_running]

/-- The call of `sys_halt` by itself changes nothing. -/
theorem Follows.called (hc : Follows c s) (hpending : c.pending = none) {status : UInt8}
    (hcall : c.beginHalt status = some c') : Follows c' s := by
  obtain ⟨hsystem, hunfinished⟩ := hc.idle_of_pending hpending
  obtain ⟨system, unfinished⟩ := c
  subst hsystem hunfinished
  obtain ⟨p, hp, hcall⟩ := Option.bind_eq_some_iff.mp hcall
  cases hcall
  have hrunning := runningProcess_eq_some.mp hp
  refine .halting p [] haltStatements status hrunning rfl (by decide) (fun hne => absurd rfl hne) rfl ?_
  simp only [Computer.goOn, only]
  rw [hrunning]

/-- Neither does the end of `sys_execute`. -/
theorem we_are_done_running (k : Kernel) (context : Context) (ret_val : Int) :
    we_are_done { k with running := context } ret_val =
      ((we_are_done k ret_val).1, { (we_are_done k ret_val).2 with running := context }) := by
  rw [we_are_done, we_are_done]
  simp only
  split <;> rfl

/-- One more statement of `sys_halt`. -/
theorem Follows.executed {p : Process} {done rest : List HaltStatement} {status : UInt8} {next : HaltStatement}
    (hrunning : s.kernel.running = .process p) (hall : done ++ next :: rest = haltStatements)
    (hcur : done ≠ [] → s.kernel.cur_pcb ≠ NULL)
    (hsystem : c.toSystem = { s with kernel := done.foldl (HaltStatement.exec (haltOffset s.kernel.cur_pcb)) s.kernel })
    (hunfinished : c.unfinished = only (.process p) (.halting (next :: rest) (haltOffset s.kernel.cur_pcb) status))
    (hderef : ¬ (next.dereferences = true ∧ c.kernel.cur_pcb = NULL)) :
    Follows (c.goOn (next.exec (haltOffset s.kernel.cur_pcb) c.kernel)
      (some (Computer.remaining (next.exec (haltOffset s.kernel.cur_pcb) c.kernel) (haltOffset s.kernel.cur_pcb)
        status rest))) s := by
  obtain ⟨system, unfinished⟩ := c
  subst hsystem hunfinished
  have hrunning' : (done.foldl (HaltStatement.exec (haltOffset s.kernel.cur_pcb)) s.kernel).running = .process p :=
    (foldl_exec_steady _ _ _).running.trans hrunning
  have hfold : next.exec (haltOffset s.kernel.cur_pcb)
      (done.foldl (HaltStatement.exec (haltOffset s.kernel.cur_pcb)) s.kernel) =
        (done ++ [next]).foldl (HaltStatement.exec (haltOffset s.kernel.cur_pcb)) s.kernel := by
    rw [List.foldl_append, List.foldl_cons, List.foldl_nil]
  -- The first statement reads through `cur_pcb`.
  have hcur' : s.kernel.cur_pcb ≠ NULL := by
    cases done with
    | nil =>
      have hfirst : next = .map_page := by
        rw [List.nil_append, haltStatements, releaseStatements] at hall
        exact (List.cons.inj hall).1
      subst hfirst
      exact fun hnull => hderef ⟨rfl, hnull⟩
    | cons first done => exact hcur (List.cons_ne_nil _ _)
  cases rest with
  | cons after rest =>
    refine .halting p (done ++ [next]) (after :: rest) status hrunning ?_ (List.cons_ne_nil _ _) (fun _ => hcur') ?_ ?_
    · rw [← hall, List.append_assoc, List.singleton_append]
    · simp only [Computer.goOn, hfold]
    · simp only [Computer.goOn, hrunning', update_only, Computer.remaining]
  | nil =>
    have hhalted : next.exec (haltOffset s.kernel.cur_pcb)
        (done.foldl (HaltStatement.exec (haltOffset s.kernel.cur_pcb)) s.kernel) = haltDone s.kernel := by
      rw [hfold, hall, haltDone]
    simp only [Computer.goOn, hrunning', hhalted, update_only, Computer.remaining]
    split
    · rename_i hparent
      exact .jumping p status hrunning hcur' hparent rfl rfl
    · rename_i hnull
      exact .restarting p status hrunning hcur' (not_not.mp hnull) rfl rfl

/-- A `sys_halt` as one event, from the result of the whole call. -/
theorem step_sys_halt {p : Process} (hrunning : s.kernel.running = .process p) {status : UInt8} {locals : Locals}
    {result : Halted × Kernel} (hhalt : sys_halt fs s.kernel status locals = some result) :
    step fs s (.sys_halt status locals) = some (s.ended p (.halted status) result) := by
  rw [step, runningProcess_eq_some.mpr hrunning, hhalt]
  rfl

/-- A new shell takes the place of the halting one. -/
theorem Follows.restarted {p : Process} {status : UInt8} {locals : Locals} (hrunning : s.kernel.running = .process p)
    (hcur : s.kernel.cur_pcb ≠ NULL) (hnull : (haltDone s.kernel).cur_pcb = NULL)
    (hsystem : c.toSystem = { s with kernel := haltDone s.kernel })
    (hunfinished : c.unfinished = only (.process p) (.restarting status))
    (hstatement : c.statement fs locals (.restarting status) = some c') :
    ∃ s', step fs s (.sys_halt status locals) = some s' ∧ c'.toSystem = s' ∧ c'.unfinished = fun _ => none := by
  obtain ⟨system, unfinished⟩ := c
  subst hsystem hunfinished
  have hrunning' : (haltDone s.kernel).running = .process p := (haltDone_steady _).running.trans hrunning
  obtain ⟨q, hq, hstatement⟩ := Option.bind_eq_some_iff.mp hstatement
  obtain ⟨⟨outcome, k⟩, hexecute, hstatement⟩ := Option.bind_eq_some_iff.mp hstatement
  cases hstatement
  rw [runningProcess_eq_some, hrunning'] at hq
  cases hq
  have hhalt : sys_halt fs s.kernel status locals = some (.restarted outcome, k) := by
    rw [sys_halt, if_neg hcur]
    simp only [if_neg (not_not.mpr hnull), hexecute, Option.map_some]
  refine ⟨_, step_sys_halt hrunning hhalt, rfl, ?_⟩
  simp only [Computer.goOn, hrunning', update_only_none]

/-- The halting process goes back to the `sys_execute` that has started it. -/
theorem Follows.jumped {p : Process} {status : UInt8} {locals : Locals} (hrunning : s.kernel.running = .process p)
    (hcur : s.kernel.cur_pcb ≠ NULL) (hparent : (haltDone s.kernel).cur_pcb ≠ NULL)
    (hsystem : c.toSystem = { s with kernel := haltDone s.kernel })
    (hunfinished : c.unfinished = only (.process p) (.jumping status))
    (hstatement : c.statement fs locals (.jumping status) = some c') : Follows c' s := by
  obtain ⟨system, unfinished⟩ := c
  subst hsystem hunfinished
  have hrunning' : (haltDone s.kernel).running = .process p := (haltDone_steady _).running.trans hrunning
  rw [Computer.statement, if_neg hparent] at hstatement
  obtain ⟨frame, hframe, hstatement⟩ := Option.bind_eq_some_iff.mp hstatement
  obtain ⟨q, hq, hstatement⟩ := Option.bind_eq_some_iff.mp hstatement
  cases hstatement
  rw [runningProcess_eq_some, hrunning'] at hq
  cases hq
  refine .returning p status frame hrunning hcur hparent hframe rfl ?_
  simp only [Computer.jump, hrunning', update_only_none]
  rfl

/-- The `sys_execute` that the halting process goes back to returns. -/
theorem Follows.returned {p : Process} {status : UInt8} {frame : Frame} (hrunning : s.kernel.running = .process p)
    (hcur : s.kernel.cur_pcb ≠ NULL) (hparent : (haltDone s.kernel).cur_pcb ≠ NULL)
    (hframe : ((haltDone s.kernel).pcbs (haltDone s.kernel).cur_pcb).esp = some frame)
    (hsystem : c.toSystem =
      { s with kernel := { haltDone s.kernel with running := frame.caller }, exits := (p, .halted status) :: s.exits })
    (hunfinished : c.unfinished = only frame.caller (.returning frame.child status)) {locals : Locals}
    (hstatement : c.statement fs locals (.returning frame.child status) = some c') :
    ∃ s', step fs s (.sys_halt status locals) = some s' ∧ c'.toSystem = s' ∧ c'.unfinished = fun _ => none := by
  obtain ⟨system, unfinished⟩ := c
  subst hsystem hunfinished
  obtain ⟨value, k, hdone⟩ : ∃ value k, we_are_done (haltDone s.kernel) status.toNat = (value, k) := ⟨_, _, rfl⟩
  simp only [Computer.statement, we_are_done_running, hdone] at hstatement
  cases hstatement
  have hhalt : sys_halt fs s.kernel status locals = some (.resumed frame value, { k with running := frame.caller }) := by
    rw [sys_halt, if_neg hcur]
    simp only [if_pos hparent, hframe, Option.map_some, hdone]
  refine ⟨_, step_sys_halt hrunning hhalt, rfl, ?_⟩
  simp only [Computer.goOn, update_only_none]

/-- Each statement leaves the system as it is, or completes the `sys_halt`. -/
theorem Follows.statement (hc : Follows c s) {locals : Locals}
    (hstatement : c.pending.bind (c.statement fs locals) = some c') :
    Follows c' s ∨ ∃ event s', Completes c s (.statement locals) event ∧ step fs s event = some s' ∧
      c'.toSystem = s' ∧ c'.unfinished = fun _ => none := by
  obtain ⟨next, hpending, hstatement⟩ := Option.bind_eq_some_iff.mp hstatement
  have hnext {context : Context} {other : Unfinished} (hrunning : c.kernel.running = context)
      (hunfinished : c.unfinished = only context other) : next = other :=
    Option.some.inj (hpending.symm.trans (pending_only hrunning hunfinished))
  cases hc with
  | idle hsystem hunfinished =>
    rw [Computer.pending, hunfinished] at hpending
    cases hpending
  | halting p done rest status hrunning hall hrest hcur hsystem hunfinished =>
    obtain rfl := hnext (hsystem ▸ (foldl_exec_steady _ _ _).running.trans hrunning) hunfinished
    cases rest with
    | nil => exact absurd rfl hrest
    | cons first rest =>
      rw [Computer.statement] at hstatement
      split at hstatement
      · cases hstatement
      · rename_i hderef
        cases hstatement
        exact .inl (.executed hrunning hall hcur hsystem hunfinished hderef)
  | jumping p status hrunning hcur hparent hsystem hunfinished =>
    obtain rfl := hnext (hsystem ▸ (haltDone_steady _).running.trans hrunning) hunfinished
    exact .inl (Follows.jumped hrunning hcur hparent hsystem hunfinished hstatement)
  | restarting p status hrunning hcur hnull hsystem hunfinished =>
    obtain rfl := hnext (hsystem ▸ (haltDone_steady _).running.trans hrunning) hunfinished
    obtain ⟨s', hstep, hidle⟩ := Follows.restarted hrunning hcur hnull hsystem hunfinished hstatement
    exact .inr ⟨_, s', .restarted status locals hpending (haltDone_cur_pcb hcur ▸ hnull), hstep, hidle⟩
  | returning p status frame hrunning hcur hparent hframe hsystem hunfinished =>
    obtain rfl := hnext (hsystem ▸ rfl) hunfinished
    obtain ⟨s', hstep, hidle⟩ := Follows.returned hrunning hcur hparent hframe hsystem hunfinished hstatement
    refine .inr ⟨_, s', .returned frame.child status locals hpending ?_ ?_, hstep, hidle⟩
    · rwa [← haltDone_cur_pcb hcur]
    · rw [hsystem]
      exact (haltDone_steady _).except_raised

/-- While no tick falls into a `sys_halt`, whatever happens to the computer leaves the
    system as it is or is an event of it. Only Alt and a function key do not wait for the
    end of a `sys_halt`. -/
theorem Follows.happens (hc : Follows c s) (hsix : SixSlots s.kernel.pcb_status) {happening : Happening}
    (htick : NoTickInside c happening) (hhappen : happen fs c happening = some c') :
    Follows c' s ∨ ∃ event s', Completes c s happening event ∧ step fs s event = some s' ∧ Follows c' s' ∧
      (c'.pending = none ∨ s'.kernel.toTasks = s.kernel.toTasks) := by
  have hidle {s' : System} (hdone : c'.toSystem = s' ∧ c'.unfinished = fun _ => none) :
      Follows c' s' ∧ (c'.pending = none ∨ s'.kernel.toTasks = s.kernel.toTasks) :=
    ⟨.idle hdone.1 hdone.2, .inl (by rw [Computer.pending, hdone.2])⟩
  cases happening with
  | statement locals =>
    obtain hsame | ⟨event, s', hcompletes, hstep, hdone⟩ := hc.statement hhappen
    · exact .inl hsame
    · exact .inr ⟨event, s', hcompletes, hstep, hidle hdone⟩
  | event event =>
    have hevent (hhalt : ∀ status locals, event ≠ .sys_halt status locals)
        (hpending : event.interrupts = true → c.pending = none) :
        ∃ event' s', Completes c s (.event event) event' ∧ step fs s event' = some s' ∧ Follows c' s' ∧
          (c'.pending = none ∨ s'.kernel.toTasks = s.kernel.toTasks) := by
      rw [happen_event hhalt] at hhappen
      split at hhappen
      · rename_i hfree
        obtain ⟨hsystem, hunfinished⟩ := hc.idle_of_pending (hfree.elim hpending id)
        obtain ⟨s', hstep, rfl⟩ := Option.map_eq_some_iff.mp hhappen
        rw [hsystem] at hstep
        exact ⟨event, s', .event event hsystem hhalt, hstep, hidle ⟨rfl, hunfinished⟩⟩
      · cases hhappen
    cases event with
    | pit_interrupt locals => exact .inr (hevent (fun _ _ heq => nomatch heq) fun _ => htick)
    | switch_terminal new_term_id =>
      cases hhappen
      exact .inr ⟨_, _, .switched new_term_id, rfl, hc.switched hsix new_term_id,
        .inr (switch_terminal_toTasks s.kernel new_term_id)⟩
    | sys_execute command locals => exact .inr (hevent (fun _ _ heq => nomatch heq) fun heq => nomatch heq)
    | sys_halt status locals =>
      rw [happen] at hhappen
      split at hhappen
      · rename_i hpending
        exact .inl (hc.called hpending hhappen)
      · cases hhappen
    | exception exception locals => exact .inr (hevent (fun _ _ heq => nomatch heq) fun heq => nomatch heq)
    | entry_execute locals => exact .inr (hevent (fun _ _ heq => nomatch heq) fun heq => nomatch heq)

/-- What the events keep that a happening can complete, the happening keeps of the system
    that is worked on. -/
theorem follows_keeps {inv : System → Prop} {guard : System → Event → Prop} {happening : Happening}
    (hsix : ∀ s, inv s → SixSlots s.kernel.pcb_status)
    (hstep : ∀ s event s', inv s → guard s event → step fs s event = some s' → inv s')
    (htick : NoTickInside c happening) (hguard : ∀ s event, Completes c s happening event → guard s event)
    (hc : ∃ s, Follows c s ∧ inv s) (hhappen : happen fs c happening = some c') : ∃ s, Follows c' s ∧ inv s := by
  obtain ⟨s, hfollows, hs⟩ := hc
  obtain hsame | ⟨event, s', hcompletes, hevent, hfollows', -⟩ := hfollows.happens (hsix s hs) htick hhappen
  · exact ⟨s, hsame, hs⟩
  · exact ⟨s', hfollows', hstep s event s' hs (hguard s event hcompletes) hevent⟩

end Simulation

end lacos.system
