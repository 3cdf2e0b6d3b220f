import LacOS.System.Processes

open memory lacos.lib lacos.file_system lacos.paging lacos.pcb lacos.multi_term lacos.syscalls lacos.timer
open lacos.idt_handle trace

namespace lacos.system

/-- What each `sys_execute` has returned is how the very process it had started ended. -/
def Reports (s : System) : Prop :=
  ∀ child value, (child, value) ∈ s.returns → (value = 256 ↔ (child, Exit.excepted) ∈ s.exits) ∧
    (value ≠ 256 → ∃ status : UInt8, (child, Exit.halted status) ∈ s.exits ∧ value = status.toNat)

/-- A process with a parent does not halt while `except_raised` is left from a shell. -/
def FlagClear (s : System) : Event → Prop
  | .sys_halt _ _ => (s.kernel.pcbs s.kernel.cur_pcb).parent_task ≠ NULL → s.kernel.except_raised = false
  | _ => True

instance (s : System) : (event : Event) → Decidable (FlagClear s event)
  | .sys_halt _ _ => by
    dsimp only [FlagClear]
    infer_instance
  | .pit_interrupt _ | .switch_terminal _ | .sys_execute _ _ | .exception _ _ | .entry_execute _ => isTrue trivial

/-- The processes that have ended are on no stack, and each call that has returned has
    returned what its child ended with, which it did once. -/
structure Recorded (tasks : Stacks) (s : System) : Prop where
  ended : ∀ p exit, (p, exit) ∈ s.exits → p.id < s.kernel.next_id ∧ ∀ t, p ∉ tasks t
  single : ∀ child value, (child, value) ∈ s.returns →
    ∃ exit : Exit, value = exit.report ∧ ∀ e, (child, e) ∈ s.exits ↔ e = exit

/-- A status is one byte, so that only an exception is reported as 256. -/
theorem Exit.report_eq_iff (exit : Exit) : exit.report = 256 ↔ exit = .excepted := by
  cases exit with
  | halted status =>
    have hlt := status.toNat_lt
    simp only [Exit.report, reduceCtorEq, iff_false]
    omega
  | excepted => simp [Exit.report]

/-- The invariant implies what is to be shown of each report. -/
theorem Recorded.reports {tasks : Stacks} {s : System} (hs : Recorded tasks s) : Reports s := by
  intro child value hcall
  obtain ⟨exit, rfl, hexit⟩ := hs.single child value hcall
  refine ⟨?_, fun hne => ?_⟩
  · rw [Exit.report_eq_iff, hexit, eq_comm]
  · cases exit with
    | halted status => exact ⟨status, (hexit _).mpr rfl, rfl⟩
    | excepted => exact absurd rfl hne

section Recorded

variable {fs : Image} {tasks tasks' : Stacks} {s s' : System} {event : Event}

/-- A process that has ended stays so: no number is given out twice, and a stack gains the new
    process only. -/
theorem Recorded.still_ended (hs : Recorded tasks s) (hnext : s.kernel.next_id ≤ s'.kernel.next_id)
    (htasks : ∀ t, ∀ p ∈ tasks' t, p ∈ tasks t ∨ p.id = s.kernel.next_id) {p : Process} {exit : Exit}
    (hp : (p, exit) ∈ s.exits) : p.id < s'.kernel.next_id ∧ ∀ t, p ∉ tasks' t := by
  obtain ⟨hid, hnot⟩ := hs.ended p exit hp
  refine ⟨Nat.lt_of_lt_of_le hid hnext, fun t ht => ?_⟩
  obtain hold | hnew := htasks t p ht
  · exact hnot t hold
  · exact absurd hnew (Nat.ne_of_lt hid)

/-- The record once the process on top of a stack has ended. -/
theorem Recorded.ends (hs : Recorded tasks s) (hk : Stacked tasks s.kernel)
    (hnext : s.kernel.next_id ≤ s'.kernel.next_id)
    {t : Fin MAX_TERM_NUM} {p : Process} {rest : List Process} (hstack : tasks t = p :: rest) {exit : Exit}
    (hexits : s'.exits = (p, exit) :: s.exits)
    (htasks : ∀ u, ∀ q ∈ tasks' u, (q ∈ tasks u ∧ q ≠ p) ∨ q.id = s.kernel.next_id)
    (hreturns : ∀ child value, (child, value) ∈ s'.returns →
      (child, value) ∈ s.returns ∨ child = p ∧ value = exit.report) : Recorded tasks' s' := by
  have hp : p ∈ tasks t := by
    rw [hstack]
    exact List.mem_cons_self
  have hfirst (e : Exit) : (p, e) ∉ s.exits := fun he => (hs.ended p e he).2 t hp
  refine ⟨fun q e hq => ?_, fun child value hcall => ?_⟩
  · rw [hexits, List.mem_cons] at hq
    obtain heq | hq := hq
    · obtain ⟨rfl, rfl⟩ := Prod.mk.inj heq
      obtain ⟨n, hseated⟩ := hk.seated t q hp
      refine ⟨Nat.lt_of_lt_of_le hseated.id hnext, fun u hu => ?_⟩
      obtain ⟨-, hne⟩ | hnew := htasks u q hu
      · exact hne rfl
      · exact absurd hnew (Nat.ne_of_lt hseated.id)
    · exact hs.still_ended hnext (fun u q hu => (htasks u q hu).imp_left And.left) hq
  · obtain hold | ⟨rfl, rfl⟩ := hreturns child value hcall
    · obtain ⟨exit', hvalue, hexit⟩ := hs.single child value hold
      refine ⟨exit', hvalue, fun e => ?_⟩
      have hne : child ≠ p := by
        rintro rfl
        exact hfirst exit' ((hexit exit').mpr rfl)
      rw [hexits, List.mem_cons, Prod.mk.injEq, ← hexit]
      simp only [hne, false_and, false_or]
    · refine ⟨exit, rfl, fun e => ?_⟩
      rw [hexits, List.mem_cons, Prod.mk.injEq]
      simp only [hfirst, or_false, true_and]

/-- The numbers of processes only grow. -/
theorem Moves.next_id_le {page_tables : UInt32 → UInt32} (hspace : SpaceSound page_tables s.kernel)
    (hmoves : Moves fs s event s') : s.kernel.next_id ≤ s'.kernel.next_id := by
  cases hmoves with
  | started locals k' hnull hexecuted => exact hexecuted.next_id_le
  | resumed locals k' htask hresumed => exact hresumed.next_id ▸ le_refl _
  | switched new_term_id =>
    obtain hstay | ⟨t, -, hswitch⟩ := switch_terminal_cases s.kernel new_term_id
    · rw [hstay]
    · rw [hswitch, switchTo_toTasks]
  | executed p command locals k' hrunning hexecuted => exact hexecuted.next_id_le
  | returned event exit locals p ending released frame hexit hrunning hcur hending hreleased hparent hframe =>
    have hnext : released.next_id = s.kernel.next_id := by rw [hreleased.next_id, hending.tasks]
    exact Nat.le_of_eq hnext.symm
  | restarted event exit locals p ending released k' outcome hexit hrunning hcur hending hreleased hparent hexecuted =>
    have hnext : released.next_id = s.kernel.next_id := by rw [hreleased.next_id, hending.tasks]
    have hsix := ((hspace.ending hending).released (hending.cur_pcb ▸ hcur) hreleased).six
    exact hnext ▸ (hexecuted hsix).next_id_le
  | entry_executed locals k' hrunning hspinning hexecuted => exact hexecuted.next_id_le

/-- The flag tells how this process ends. -/
theorem report_of_flag (hflag : FlagClear s event) {exit : Exit} {locals : Locals}
    (hexit : event.exit = some (exit, locals)) (hparent : (s.kernel.pcbs s.kernel.cur_pcb).parent_task ≠ NULL) :
    (if s.kernel.except_raised || decide (exit = .excepted) then 256 else (exit.status.toNat : Int)) = exit.report := by
  cases event with
  | sys_halt status locals' =>
    cases hexit
    rw [hflag hparent]
    rfl
  | exception exception locals' =>
    cases hexit
    simp [Exit.report]
  | _ => cases hexit

/-- One event keeps the record. By cases on what it does to the stacks. -/
theorem Recorded.moves (hs : Recorded tasks s) (hk : Stacked tasks s.kernel) (hflag : FlagClear s event)
    (hnext : s.kernel.next_id ≤ s'.kernel.next_id) (hmove : StackMove tasks s event tasks' s') :
    Recorded tasks' s' := by
  cases hmove with
  | kept htasks hexits hreturns =>
    subst htasks
    refine ⟨fun p exit hp => ?_, fun child value hcall => ?_⟩
    · rw [hexits] at hp
      exact hs.still_ended hnext (fun t p hp => .inl hp) hp
    · rw [hreturns] at hcall
      rw [hexits]
      exact hs.single child value hcall
  | started t p hid htasks hexits hreturns =>
    refine ⟨fun q exit hq => ?_, fun child value hcall => ?_⟩
    · rw [hexits] at hq
      refine hs.still_ended hnext (fun u r hr => ?_) hq
      rw [htasks] at hr
      by_cases hu : u = t
      · rw [hu, Function.update_self, List.mem_cons] at hr
        obtain rfl | hr := hr
        · exact .inr hid
        · exact .inl (hu ▸ hr)
      · rw [Function.update_of_ne hu] at hr
        exact .inl hr
    · rw [hreturns] at hcall
      rw [hexits]
      exact hs.single child value hcall
  | halted t p rest exit locals hexit hparent hstack htasks hexits hreturns =>
    refine hs.ends hk hnext hstack hexits (fun u q hq => .inl ?_) fun child value hcall => ?_
    · rw [htasks] at hq
      by_cases hu : u = t
      · rw [hu, Function.update_self] at hq
        have hdistinct := hk.distinct t
        rw [hstack, List.map_cons, List.nodup_cons] at hdistinct
        refine ⟨?_, fun heq => hdistinct.1 (heq ▸ List.mem_map_of_mem hq)⟩
        rw [hu, hstack]
        exact List.mem_cons_of_mem p hq
      · rw [Function.update_of_ne hu] at hq
        refine ⟨hq, fun heq => hu (hk.same_terminal hq ?_ (congrArg Process.pcb heq))⟩
        rw [hstack]
        exact List.mem_cons_self
    · rw [hreturns, List.mem_cons, Prod.mk.injEq, report_of_flag hflag hexit hparent] at hcall
      exact hcall.symm
  | replaced t p q exit hstack hid htasks hexits hreturns =>
    refine hs.ends hk hnext hstack hexits (fun u r hr => ?_) fun child value hcall => ?_
    · rw [htasks] at hr
      by_cases hu : u = t
      · rw [hu, Function.update_self, List.mem_singleton] at hr
        exact .inr (hr ▸ hid)
      · rw [Function.update_of_ne hu] at hr
        refine .inl ⟨hr, fun heq => hu (hk.same_terminal hr ?_ (congrArg Process.pcb heq))⟩
        rw [hstack]
        exact List.mem_cons_self
    · rw [hreturns] at hcall
      exact .inl hcall

end Recorded

namespace Computer

/-- What is to come is the end of the `sys_execute` that a `sys_halt` has gone back to. -/
def goesBack (c : Computer) : Bool :=
  match c.pending with
  | some (.returning _ _) => true
  | _ => false

/-- A `sys_execute` whose child has called `sys_halt` does not return while `except_raised`
    is left from a shell. -/
def FlagClear (c : Computer) : Happening → Prop
  | .statement _ => c.goesBack = true → c.kernel.except_raised = false
  | .event _ => True

instance (c : Computer) : (happening : Happening) → Decidable (FlagClear c happening)
  | .statement _ => inferInstanceAs (Decidable (c.goesBack = true → c.kernel.except_raised = false))
  | .event _ => isTrue trivial

/-- The condition on the flag holds for the completed `sys_halt`. -/
theorem FlagClear.completes {c : Computer} {s : System} {happening : Happening} {event : Event}
    (hflag : c.FlagClear happening) (hcompletes : Completes c s happening event) : system.FlagClear s event := by
  cases hcompletes with
  | event event hsystem hhalt =>
    cases event with
    | sys_halt status locals => exact absurd rfl (hhalt status locals)
    | _ => trivial
  | switched new_term_id => trivial
  | restarted status locals hpending hnull => exact fun hparent => absurd hnull hparent
  | returned child status locals hpending hparent hraised =>
    intro _
    rw [← hraised]
    exact hflag (by rw [goesBack, hpending])

end Computer

/-- While a `sys_halt` goes on, no more than its own process is recorded before its time. -/
theorem Follows.reports {c : Computer} {s : System} (hc : Follows c s) (hs : Reports s) : Reports c.toSystem := by
  have hsame (k : Kernel) : Reports { s with kernel := k } := hs
  cases hc with
  | idle hsystem hunfinished => exact hsystem ▸ hs
  | halting p done rest status hrunning hall hrest hcur hsystem hunfinished => exact hsystem ▸ hsame _
  | jumping p status hrunning hcur hparent hsystem hunfinished => exact hsystem ▸ hsame _
  | restarting p status hrunning hcur hnull hsystem hunfinished => exact hsystem ▸ hsame _
  | returning p status frame hrunning hcur hparent hframe hsystem hunfinished =>
    intro child value hcall
    simp only [hsystem] at hcall ⊢
    obtain ⟨hraised, hstatus⟩ := hs child value hcall
    refine ⟨?_, fun hne => ?_⟩
    · rw [hraised, List.mem_cons]
      simp only [Prod.mk.injEq, reduceCtorEq, and_false, false_or]
    · obtain ⟨status', hexit, hvalue⟩ := hstatus hne
      exact ⟨status', List.mem_cons_of_mem _ hexit, hvalue⟩

/-- `sys_execute` reports how its own child ended, if no tick falls into a `sys_halt`,
    processes start others at home, the kernel can start the shells it needs and no
    `sys_execute` whose child has called `sys_halt` returns while the flag of an exception
    in a shell is still set. A child that gets an exception may do so with the flag set. -/
theorem execute_reports (fs : Image) (machine : Kernel) (happenings : List Happening) (c : Computer)
    (hguard : Guarded (happen fs)
      (fun c happening => NoTickInside c happening ∧ c.ShellsStart fs happening ∧ c.AtHome fs happening ∧
        c.FlagClear happening) (Computer.start machine) happenings)
    (hrun : run (happen fs) (Computer.start machine) happenings = some c) : Reports c.toSystem := by
  have hstep (s : System) (event : Event) (s' : System)
      (hs : SpaceSound machine.page_tables s.kernel ∧ ∃ tasks, Represents tasks s.kernel ∧ Recorded tasks s)
      (hguard : (ShellsStart fs s event ∧ AtHome fs s event) ∧ FlagClear s event) (hstep : step fs s event = some s') :
      SpaceSound machine.page_tables s'.kernel ∧ ∃ tasks, Represents tasks s'.kernel ∧ Recorded tasks s' := by
    obtain ⟨hspace, tasks, hk, hrecorded⟩ := hs
    have hmoves := step_moves hspace.six hstep
    obtain ⟨tasks', hmove, hk'⟩ := hk.moves hspace hguard.1.1 hguard.1.2 hmoves
    exact ⟨hspace.moves hmoves, tasks', hk',
      hrecorded.moves hk.toStacked hguard.2 (Moves.next_id_le hspace hmoves) hmove⟩
  have hkeep (c : Computer) (happening : Happening) (c' : Computer)
      (hc : ∃ s, Follows c s ∧ SpaceSound machine.page_tables s.kernel ∧
        ∃ tasks, Represents tasks s.kernel ∧ Recorded tasks s)
      (hallowed : NoTickInside c happening ∧ c.ShellsStart fs happening ∧ c.AtHome fs happening ∧
        c.FlagClear happening) (hhappen : happen fs c happening = some c') :
      ∃ s, Follows c' s ∧ SpaceSound machine.page_tables s.kernel ∧
        ∃ tasks, Represents tasks s.kernel ∧ Recorded tasks s :=
    follows_keeps (fun s hs => hs.1.six) hstep hallowed.1
      (fun s event hcompletes => ⟨⟨hallowed.2.1.completes hcompletes, hallowed.2.2.1.completes hcompletes⟩,
        hallowed.2.2.2.completes hcompletes⟩) hc hhappen
  have hboot : Recorded (fun _ => []) (boot machine) :=
    ⟨fun p exit hp => absurd hp List.not_mem_nil, fun child value hcall => absurd hcall List.not_mem_nil⟩
  obtain ⟨s, hc, -, tasks, -, hrecorded⟩ := run_invariant hkeep
    ⟨_, start_follows machine, entry_spaceSound machine, _, boot_represents machine, hboot⟩ hguard hrun
  exact hc.reports hrecorded.reports

theorem execute_reports_two_children :
    let locals : Locals := ⟨fun _ => 0, fun _ => 0⟩
    let happenings : List Happening := List.replicate 4 (.event (.pit_interrupt locals)) ++
      [.event (.switch_terminal 1), .event (.sys_execute shell locals), .event (.exception .div_zero_fault locals),
        .event (.sys_execute shell locals), .event (.sys_halt 7 locals)] ++ List.replicate 8 (.statement locals)
    ∃ c, run (happen shellImage) (Computer.start blankMachine) happenings = some c ∧
      c.returns.map (·.2) = [7, 256] ∧ Reports c.toSystem := by
  intro locals happenings
  obtain ⟨c, hrun, hreturns⟩ : ∃ c, run (happen shellImage) (Computer.start blankMachine) happenings = some c ∧
      c.returns.map (·.2) = [7, 256] := exists_run (by decide +kernel)
  exact ⟨c, hrun, hreturns, execute_reports shellImage blankMachine happenings c (by decide +kernel) hrun⟩

/-- The shell of terminal 1 dies by an exception and is started again; the next child of
    any shell halts with status 0, and 256 is returned for it. -/
theorem exception_of_another_process :
    let locals : Locals := ⟨fun _ => 0, fun _ => 0⟩
    let tick : Happening := .event (.pit_interrupt locals)
    let happenings : List Happening := List.replicate 4 tick ++
      [.event (.switch_terminal 1), .event (.exception .div_zero_fault locals), tick, tick, tick,
        .event (.sys_execute shell locals), .event (.sys_halt 0 locals)] ++ List.replicate 8 (.statement locals)
    ∃ c, run (happen shellImage) (Computer.start blankMachine) happenings = some c ∧
      Guarded (happen shellImage)
        (fun c happening => NoTickInside c happening ∧ c.ShellsStart shellImage happening ∧
          c.AtHome shellImage happening) (Computer.start blankMachine) happenings ∧ ¬ Reports c.toSystem := by
  intro locals tick happenings
  obtain ⟨c, hrun, hreturns, hexits⟩ : ∃ c,
      run (happen shellImage) (Computer.start blankMachine) happenings = some c ∧
      c.returns = [({ id := 4, pcb := slotBlock 3 }, 256)] ∧
      ({ id := 4, pcb := slotBlock 3 }, Exit.excepted) ∉ c.exits := exists_run (by decide +kernel)
  refine ⟨c, hrun, by decide +kernel, fun hreports => ?_⟩
  have hcall := hreports { id := 4, pcb := slotBlock 3 } 256 (by rw [hreturns]; exact List.mem_cons_self)
  exact hexits (hcall.1.mp rfl)

end lacos.system
