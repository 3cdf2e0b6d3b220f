import LacOS.Base.Run
import LacOS.I8259
import LacOS.IdtHandle.Table

open controller trace lacos.idt_handle

namespace lacos.i8259

/-- What a handler does before its end of interrupt is complete. -/
inductive Action where
  | own
  | cli
  | outb (data : UInt8) (port : UInt16)

def eoi (irq_num : UInt32) : List Action := (eoiWrites irq_num).map fun (data, port) => .outb data port

/-- The handlers of the devices up to the end of their `send_eoi`. What they do of their own
    is the flag of the RTC and the byte of the mouse. -/
def opening : Wrapper → List Action
  | .pit_intr => .cli :: eoi 0
  | .keyboard_intr => eoi 1
  | .rtc_intr => .own :: .cli :: eoi 8
  | .mouse_intr => .own :: eoi 12
  | _ => []

def wrappers : List Wrapper :=
  except_ptr ++ [.pit_intr, .keyboard_intr, .rtc_intr, .mouse_intr, .syscall]

/-- The processor and the controllers. `todo` is what the handler that was entered last has to
    do before its end of interrupt is complete; the counts record the requests of a line and
    the starts of its handler. -/
structure Machine where
  pics : Pics
  table : Nat → Nat
  interrupts : Bool
  todo : List Action
  raised : Line → Nat
  started : Line → Nat

def act (m : Machine) : Action → Machine
  | .own => m
  | .cli => { m with interrupts := false }
  | .outb data port => { m with pics := outb m.pics data port }

/-- What can happen: a device asks for an interrupt, the processor takes one, the handler goes
    on to its end of interrupt, and at all other times the kernel may set its flag, also by
    returning from a handler. -/
inductive Event where
  | raise (line : Line)
  | accept
  | proceed
  | flag (on : Bool)

section Step

variable (address : Wrapper → UInt32)

/-- The machine in the handler that an interrupt leads to. -/
def enterHandler (m : Machine) (line : Line) (offset : Nat) (interrupts_off : Bool) : Option Machine :=
  (wrappers.find? fun handler => (address handler).toNat = offset).map fun handler =>
    { m with
      pics := { m.pics with pair := m.pics.pair.acknowledge line }
      interrupts := m.interrupts && !interrupts_off
      todo := opening handler
      started := Function.update m.started line (m.started line + 1) }

/-- There is no next state if the event cannot happen, or if the interrupt has no handler. -/
def step (m : Machine) : Event → Option Machine
  | .raise line =>
    if line = .master CASCADE then none
    else if m.pics.pair.requested line then some m
    else some { m with
      pics := { m.pics with pair := m.pics.pair.raise line }
      raised := Function.update m.raised line (m.raised line + 1) }
  | .accept =>
    if m.interrupts then
      m.pics.pair.winner.bind fun line =>
        match deliver m.table (m.pics.pair.vector line).toNat none with
        | .handler _ offset interrupts_off => enterHandler address m line offset interrupts_off
        | .fault _ => none
    else none
  | .proceed =>
    match m.todo with
    | [] => none
    | action :: todo => some (act { m with todo } action)
  | .flag on =>
    match m.todo with
    | [] => some { m with interrupts := on }
    | _ :: _ => none

/-- The calls with which `entry` sets the devices up: `keyboard_init`, `rtc_init`,
    `mouse_init` and `pit_init`. -/
def entryCalls : List Call := [.enable_irq 1, .enable_irq 8, .enable_irq 12, .enable_irq 0]

/-- The machine when `entry` has enabled interrupts. -/
def booted (p : Pics) (idt_entry empty_entry : idt_desc_t) (idt : Nat → idt_desc_t) : Machine where
  pics := entryCalls.foldl call (i8259_init p)
  table v := (idt_init address idt_entry empty_entry idt v).bits
  interrupts := true
  todo := []
  raised _ := 0
  started _ := 0

end Step

/-- The lines with a device. -/
def devices : List Line := [.master 0, .master 1, .slave 0, .slave 4]

/-- What an action does to the controllers. -/
def Action.on (pair : Pair) : Action → Pair
  | .own | .cli => pair
  | .outb data port => writePort pair data port

/-- The controllers once a handler has made its end of interrupt. -/
def remaining (pair : Pair) (todo : List Action) : Pair := todo.foldl Action.on pair

/-- An action that does no more to the controllers than to end the service of a level. -/
inductive Ends : (Pair → Pair) → Prop where
  | nothing : Ends fun pair => pair
  | master (l : Fin 8) : Ends fun pair => { pair with master := pair.master.finish l }
  | slave (l : Fin 8) : Ends fun pair => { pair with slave := pair.slave.finish l }

section Ends

variable {f : Pair → Pair} (hf : Ends f) (pair : Pair)
include hf

/-- The end of an interrupt takes back no request. -/
theorem Ends.requested (line : Line) : (f pair).requested line = pair.requested line := by
  cases hf <;> cases line <;> rfl

/-- It leaves the count of the requests right. -/
theorem Ends.tracks {lines : Line → Bool} {p : Pics} (hp : Tracks lines p) :
    Tracks lines { p with pair := f p.pair } := by
  cases hf with
  | nothing => exact hp
  | master l => exact ⟨hp.master.finish l, hp.slave, hp.enabled⟩
  | slave l => exact ⟨hp.master, hp.slave.finish l, hp.enabled⟩

/-- What is in service afterwards depends on what was in service before only. -/
theorem Ends.inService {pair' : Pair} (hsame : ∀ line, pair'.inService line = pair.inService line) (line : Line) :
    (f pair').inService line = (f pair).inService line := by
  have hmaster (l : Fin 8) : pair'.master.isr l = pair.master.isr l := hsame (.master l)
  have hslave (l : Fin 8) : pair'.slave.isr l = pair.slave.isr l := hsame (.slave l)
  cases hf with
  | nothing => exact hsame line
  | master l => cases line <;> simp [Pair.inService, Chip.finish, Function.update_apply, hmaster, hslave]
  | slave l => cases line <;> simp [Pair.inService, Chip.finish, Function.update_apply, hmaster, hslave]

end Ends

/-- What is in service when a handler is done depends on what is in service now, and on nothing
    else. -/
theorem remaining_inService {todo : List Action} (hends : ∀ action ∈ todo, Ends (Action.on · action)) {pair pair' : Pair}
    (hsame : ∀ line, pair'.inService line = pair.inService line) (line : Line) :
    (remaining pair' todo).inService line = (remaining pair todo).inService line := by
  induction todo generalizing pair pair' with
  | nil => exact hsame line
  | cons action todo ih =>
    refine ih (fun a ha => hends a (List.mem_cons_of_mem _ ha)) fun line => ?_
    exact (hends action List.mem_cons_self).inService pair hsame line

section Eoi

/-- The command for a line of the master takes it out of service. -/
theorem on_master (l : Fin 8) : (Action.on · (.outb (UInt32.ofNat l ||| EOI).toUInt8 MASTER_8259_PORT)) =
    fun pair => { pair with master := pair.master.finish l } := by
  funext pair
  rw [← command_eoi]
  rfl

/-- The command for a line of the slave takes it out of service. -/
theorem on_slave (l : Fin 8) : (Action.on · (.outb (UInt32.ofNat l ||| EOI).toUInt8 SLAVE_8259_PORT)) =
    fun pair => { pair with slave := pair.slave.finish l } := by
  funext pair
  rw [← command_eoi]
  rfl

/-- `send_eoi` sends one command for a line of the master, and two for one of the slave. -/
theorem eoi_irq (line : Line) : eoi (irq line) = match line with
    | .master l => [.outb (UInt32.ofNat l ||| EOI).toUInt8 MASTER_8259_PORT]
    | .slave l => [.outb (UInt32.ofNat l ||| EOI).toUInt8 SLAVE_8259_PORT,
        .outb (UInt32.ofNat CASCADE ||| EOI).toUInt8 MASTER_8259_PORT] := by
  cases line with
  | master l =>
    rw [eoi, eoiWrites, if_pos (master_number l)]
    rfl
  | slave l =>
    rw [eoi, eoiWrites, if_neg (slave_number l).1, (slave_number l).2]
    rfl

/-- Each of them ends service and does nothing else. -/
theorem ends_eoi (line : Line) : ∀ action ∈ eoi (irq line), Ends (Action.on · action) := by
  have hmaster (l : Fin 8) : Ends (Action.on · (.outb (UInt32.ofNat l ||| EOI).toUInt8 MASTER_8259_PORT)) :=
    on_master l ▸ .master l
  rw [eoi_irq]
  cases line with
  | master l => exact List.forall_mem_singleton.mpr (hmaster l)
  | slave l =>
    refine List.forall_mem_cons.mpr ⟨?_, List.forall_mem_singleton.mpr (hmaster CASCADE)⟩
    exact on_slave l ▸ .slave l

/-- Together they take the line, and the line of the cascade, out of service. -/
theorem remaining_eoi (pair : Pair) (line : Line) : remaining pair (eoi (irq line)) = pair.finish line := by
  rw [eoi_irq]
  cases line with
  | master l => exact congrFun (on_master l) pair
  | slave l =>
    have hslave := congrFun (on_slave l) pair
    have hmaster := congrFun (on_master CASCADE) { pair with slave := pair.slave.finish l }
    exact (congrArg (Action.on · _) hslave).trans hmaster

end Eoi

/-- The handler of a line: the processor finds it at the line's vector, and before it lets
    other interrupts in it ends the service of its line, and of no other. -/
structure Serves (line : Line) (handler : Wrapper) (vector : Nat) : Prop where
  listed : handler ∈ wrappers
  vector : handlerOf vector = some handler ∧ vector ≠ 0x80
  opening : ∃ own, (∀ action ∈ own, action = .own ∨ action = .cli) ∧ opening handler = own ++ eoi (irq line)

/-- The commands of a handler end service and do nothing else. -/
theorem Serves.ends {line : Line} {handler : Wrapper} {vector : Nat} (h : Serves line handler vector) :
    ∀ action ∈ i8259.opening handler, Ends (Action.on · action) := by
  obtain ⟨own, hown, hopening⟩ := h.opening
  intro action haction
  rw [hopening, List.mem_append] at haction
  obtain hfirst | hlast := haction
  · obtain rfl | rfl := hown action hfirst
    · exact .nothing
    · exact .nothing
  · exact ends_eoi line action hlast

/-- When its handler is done, the line that was accepted is out of service. -/
theorem Serves.remaining {line : Line} {handler : Wrapper} {vector : Nat} (h : Serves line handler vector)
    (pair : Pair) : remaining pair (i8259.opening handler) = pair.finish line := by
  obtain ⟨own, hown, hopening⟩ := h.opening
  have hskip : i8259.remaining pair own = pair := by
    clear hopening
    induction own with
    | nil => rfl
    | cons action own ih =>
      obtain rfl | rfl := hown action List.mem_cons_self
      · exact ih fun a ha => hown a (List.mem_cons_of_mem _ ha)
      · exact ih fun a ha => hown a (List.mem_cons_of_mem _ ha)
  rw [hopening, i8259.remaining, List.foldl_append]
  change i8259.remaining (i8259.remaining pair own) _ = _
  rw [hskip, remaining_eoi]

/-- Every line with a device has its handler. -/
theorem exists_serves {line : Line} (hline : line ∈ devices) {pair : Pair} (hmaster : pair.master.icw2 = ICW2_MASTER)
    (hslave : pair.slave.icw2 = ICW2_SLAVE) : ∃ handler, Serves line handler (pair.vector line).toNat := by
  simp only [devices, List.mem_cons, List.not_mem_nil, or_false] at hline
  obtain rfl | rfl | rfl | rfl := hline
  · rw [Pair.vector, hmaster]
    exact ⟨.pit_intr, by decide, by decide, [.cli], by simp, rfl⟩
  · rw [Pair.vector, hmaster]
    exact ⟨.keyboard_intr, by decide, by decide, [], by simp, rfl⟩
  · rw [Pair.vector, hslave]
    exact ⟨.rtc_intr, by decide, by decide, [.own, .cli], by simp, rfl⟩
  · rw [Pair.vector, hslave]
    exact ⟨.mouse_intr, by decide, by decide, [.own], by simp, rfl⟩

/-- What holds at every moment. -/
structure Sound (address : Wrapper → UInt32) (m : Machine) : Prop where
  tracks : Tracks (fun line => line ∈ devices ∨ line = .master CASCADE) m.pics
  cascade : m.pics.pair.requested (.master CASCADE) = false
  table : ∀ v handler, handlerOf v = some handler → v ≠ 0x80 →
    deliver m.table v none = .handler KERNEL_CS.toNat (address handler).toNat true
  off : m.todo ≠ [] → m.interrupts = false
  ends : ∀ action ∈ m.todo, Ends (Action.on · action)
  clears : ∀ line, (remaining m.pics.pair m.todo).inService line = false
  counts : ∀ line, m.raised line = m.started line + (m.pics.pair.requested line).toNat

section Sound

variable {address : Wrapper → UInt32} {m m' : Machine} (hm : Sound address m)
include hm

/-- With no handler running, no line is in service. -/
theorem Sound.idle (htodo : m.todo = []) (line : Line) : m.pics.pair.inService line = false := by
  have hclears := hm.clears line
  rwa [htodo] at hclears

/-- Interrupts are only enabled with no handler running. -/
theorem Sound.todo_of_interrupts (hon : m.interrupts = true) : m.todo = [] := by
  by_contra htodo
  rw [hm.off htodo] at hon
  cases hon

/-- The lines that can get through are those with a device. -/
theorem Sound.openTo_iff (line : Line) : m.pics.pair.openTo line = true ↔ line ∈ devices := by
  have hmaster (l : Fin 8) : m.pics.pair.master.enabled l = _ := hm.tracks.enabled (.master l)
  have hslave (l : Fin 8) : m.pics.pair.slave.enabled l = _ := hm.tracks.enabled (.slave l)
  cases line with
  | master l =>
    rw [Pair.openTo, hmaster]
    revert l
    decide
  | slave l =>
    rw [Pair.openTo, hmaster, hslave]
    revert l
    decide

/-- The interrupt that the processor takes. -/
theorem Sound.accept (hinjective : Function.Injective address) {line : Line} (hon : m.interrupts = true)
    (hwinner : m.pics.pair.winner = some line) : ∃ handler, Serves line handler (m.pics.pair.vector line).toNat ∧
      step address m .accept = some { m with
        pics := { m.pics with pair := m.pics.pair.acknowledge line }
        interrupts := false
        todo := opening handler
        started := Function.update m.started line (m.started line + 1) } := by
  have hdevice : line ∈ devices := (hm.openTo_iff line).mp (winner_some hwinner).2
  obtain ⟨handler, hserves⟩ := exists_serves hdevice hm.tracks.master.icw2 hm.tracks.slave.icw2
  have hdeliver := hm.table _ handler hserves.vector.1 hserves.vector.2
  have hfind : wrappers.find? (fun w => (address w).toNat = (address handler).toNat) = some handler := by
    have hsome : (wrappers.find? fun w => (address w).toNat = (address handler).toNat).isSome = true :=
      List.find?_isSome.mpr ⟨handler, hserves.listed, decide_eq_true rfl⟩
    obtain ⟨w, hw⟩ := Option.isSome_iff_exists.mp hsome
    have hfound := List.find?_some hw
    rw [hw, hinjective (UInt32.toNat_inj.mp (of_decide_eq_true hfound))]
  refine ⟨handler, hserves, ?_⟩
  simp only [step, hon, if_true, hwinner, Option.bind_some, hdeliver, enterHandler, hfind, Option.map_some]
  rfl

/-- A device asks for attention. It does so once until it is served. -/
theorem Sound.raise {line : Line} (hline : line ≠ .master CASCADE) (hnew : m.pics.pair.requested line = false) :
    Sound address { m with
      pics := { m.pics with pair := m.pics.pair.raise line }
      raised := Function.update m.raised line (m.raised line + 1) } where
  tracks := by
    have hp := hm.tracks
    cases line with
    | master l => exact ⟨⟨hp.master.ready, hp.master.icw2, hp.master.icw3, hp.master.imr⟩, hp.slave, hp.enabled⟩
    | slave l => exact ⟨hp.master, ⟨hp.slave.ready, hp.slave.icw2, hp.slave.icw3, hp.slave.imr⟩, hp.enabled⟩
  cascade := by
    rw [requested_raise, if_neg hline.symm]
    exact hm.cascade
  table := hm.table
  off := hm.off
  ends := hm.ends
  clears line' := (remaining_inService hm.ends inService_raise line').trans (hm.clears line')
  counts line' := by
    have hcount := hm.counts line'
    rw [requested_raise]
    by_cases hsame : line' = line
    · subst hsame
      rw [hnew] at hcount
      simp [hcount]
    · simp [hsame, hcount]

/-- The processor accepts a request, which starts the handler of its line. -/
theorem Sound.accepted {line : Line} {handler : Wrapper} {vector : Nat} (htodo : m.todo = [])
    (hrequested : m.pics.pair.requested line = true) (hserves : Serves line handler vector) :
    Sound address { m with
      pics := { m.pics with pair := m.pics.pair.acknowledge line }
      interrupts := false
      todo := opening handler
      started := Function.update m.started line (m.started line + 1) } where
  tracks := by
    have hp := hm.tracks
    cases line with
    | master l => exact ⟨hp.master.take l, hp.slave, hp.enabled⟩
    | slave l => exact ⟨hp.master.take CASCADE, hp.slave.take l, hp.enabled⟩
  cascade := by
    rw [requested_acknowledge hm.cascade, hm.cascade, ite_self]
  table := hm.table
  off _ := rfl
  ends := hserves.ends
  clears line' := by
    rw [hserves.remaining]
    exact acknowledge_finish (hm.idle htodo) line'
  counts line' := by
    have hcount := hm.counts line'
    rw [requested_acknowledge hm.cascade]
    by_cases hsame : line' = line
    · subst hsame
      rw [hrequested] at hcount
      simp [hcount]
    · simp [hsame, hcount]

/-- A handler makes its next step. -/
theorem Sound.proceed {action : Action} {todo : List Action} (htodo : m.todo = action :: todo) :
    Sound address (act { m with todo } action) := by
  have hends : Ends (Action.on · action) := hm.ends action (htodo ▸ List.mem_cons_self)
  have hoff : m.interrupts = false := hm.off (by rw [htodo]; exact List.cons_ne_nil _ _)
  have hact : act { m with todo } action =
      { m with todo, pics := { m.pics with pair := Action.on m.pics.pair action }, interrupts := false } := by
    cases action with
    | own =>
      rw [← hoff]
      rfl
    | cli => rfl
    | outb data port =>
      rw [← hoff]
      rfl
  have hclears := hm.clears
  rw [htodo] at hclears
  rw [hact]
  refine ⟨hends.tracks hm.tracks, ?_, hm.table, fun _ => rfl, fun a ha => hm.ends a (htodo ▸ List.mem_cons_of_mem _ ha),
    hclears, fun line => ?_⟩
  · exact (hends.requested m.pics.pair _).trans hm.cascade
  · have hrequested : (Action.on m.pics.pair action).requested line = m.pics.pair.requested line :=
      hends.requested m.pics.pair line
    simp only [hrequested]
    exact hm.counts line

/-- One event keeps the controllers sound. By cases on it. -/
theorem Sound.step (hinjective : Function.Injective address) {event : Event}
    (hstep : step address m event = some m') : Sound address m' := by
  cases event with
  | raise line =>
    simp only [i8259.step] at hstep
    split at hstep
    · cases hstep
    · rename_i hline
      split at hstep
      · cases hstep
        exact hm
      · rename_i hrequested
        cases hstep
        exact hm.raise hline (Bool.eq_false_iff.mpr hrequested)
  | accept =>
    cases hon : m.interrupts with
    | false =>
      simp only [i8259.step, hon] at hstep
      cases hstep
    | true =>
      cases hwinner : m.pics.pair.winner with
      | none =>
        simp only [i8259.step, hon, hwinner] at hstep
        cases hstep
      | some line =>
        obtain ⟨handler, hserves, haccept⟩ := hm.accept hinjective hon hwinner
        rw [haccept] at hstep
        cases hstep
        exact hm.accepted (hm.todo_of_interrupts hon) (winner_some hwinner).1 hserves
  | proceed =>
    cases htodo : m.todo with
    | nil =>
      simp only [i8259.step, htodo] at hstep
      cases hstep
    | cons action todo =>
      simp only [i8259.step, htodo, Option.some.injEq] at hstep
      subst hstep
      exact hm.proceed htodo
  | flag on =>
    cases htodo : m.todo with
    | nil =>
      simp only [i8259.step, htodo, Option.some.injEq] at hstep
      subst hstep
      exact ⟨hm.tracks, hm.cascade, hm.table, fun h => absurd rfl h, nofun, hm.idle htodo, hm.counts⟩
    | cons action todo =>
      simp only [i8259.step, htodo] at hstep
      cases hstep

end Sound

/-- The controllers are sound when the kernel enables interrupts, whatever they held before. -/
theorem sound_booted (address : Wrapper → UInt32) (p : Pics) (idt_entry empty_entry : idt_desc_t)
    (idt : Nat → idt_desc_t) : Sound address (booted address p idt_entry empty_entry idt) where
  tracks := by
    have hlines : entryCalls.foldl track (fun line => line = .master CASCADE) =
        fun line => decide (line ∈ devices ∨ line = .master CASCADE) := by
      funext line
      cases line with
      | master l =>
        revert l
        decide
      | slave l =>
        revert l
        decide
    rw [← hlines]
    exact (tracks_i8259_init p).calls entryCalls
  cascade := rfl
  table v handler hv hne :=
    deliver_intr ((idt_init_table address idt_entry empty_entry idt).gate v handler hv hne) rfl none
  off h := absurd rfl h
  ends := nofun
  clears line := by cases line <;> rfl
  counts line := by cases line <;> rfl

/-- Interrupts from the boot on, in any order of requests, handlers and changes of the flag. A
    line is in service only while its handler has not made its end of interrupt, which it does
    with interrupts off; no request is lost, and none is served twice; and when interrupts are on,
    a request leads to a handler at once: that of the line or of one before it. The controllers
    may be in any state when the machine is booted. -/
theorem interrupts_served (address : Wrapper → UInt32) (hinjective : Function.Injective address) (p : Pics)
    (idt_entry empty_entry : idt_desc_t) (idt : Nat → idt_desc_t) (events : List Event) (m : Machine)
    (hrun : run (step address) (booted address p idt_entry empty_entry idt) events = some m) :
    (∀ line, m.pics.pair.inService line = true → m.todo ≠ [] ∧ m.interrupts = false) ∧
    (∀ line, m.raised line = m.started line + (m.pics.pair.requested line).toNat) ∧
    ∀ line ∈ devices, m.pics.pair.requested line = true → m.interrupts = true →
      ∃ line' m', step address m .accept = some m' ∧ line'.rank ≤ line.rank ∧
        m'.started = Function.update m.started line' (m.started line' + 1) := by
  have hm : Sound address m := run_invariant_of_step (fun _ _ _ hm hstep => hm.step hinjective hstep)
    (sound_booted address p idt_entry empty_entry idt) hrun
  refine ⟨fun line hline => ?_, hm.counts, fun line hdevice hrequested hon => ?_⟩
  · have htodo : m.todo ≠ [] := by
      intro htodo
      rw [hm.idle htodo line] at hline
      cases hline
    exact ⟨htodo, hm.off htodo⟩
  · have hidle := hm.idle (hm.todo_of_interrupts hon)
    have hopen := (hm.openTo_iff line).mpr hdevice
    obtain ⟨line', hwinner⟩ := exists_winner hidle hrequested hopen
    obtain ⟨handler, -, haccept⟩ := hm.accept hinjective hon hwinner
    exact ⟨line', _, haccept, winner_first hidle hwinner hrequested hopen, rfl⟩

/-- The wrappers one after the other. -/
def inOrder (handler : Wrapper) : UInt32 := UInt32.ofNat handler.ctorIdx

def noEntry : idt_desc_t := default

def noChip : Chip := ⟨.ready, 0, 0, 0, 0, fun _ => false, fun _ => false⟩

/-- The RTC asks, and the keyboard while the RTC's handler is at its end of interrupt. -/
def twoRequests : List Event :=
  [.raise (.slave 0), .accept, .proceed, .proceed, .raise (.master 1), .proceed, .proceed, .flag true]

theorem interrupts_served_two_requests :
    ∃ m, run (step inOrder) (booted inOrder ⟨blankMachine.toConsole, ⟨noChip, noChip⟩, 0, 0⟩ noEntry noEntry
        fun _ => noEntry) twoRequests = some m ∧ m.started (.slave 0) = 1 ∧ m.started (.master 1) = 0 ∧
      ∃ line' m', step inOrder m .accept = some m' ∧ line'.rank ≤ 1 ∧
        m'.started = Function.update m.started line' (m.started line' + 1) := by
  have hinjective : Function.Injective inOrder := by
    intro a b hab
    have hlt (w : Wrapper) : w.ctorIdx < 2 ^ 32 := by cases w <;> decide
    have hindex := congrArg UInt32.toNat hab
    rw [inOrder, inOrder, UInt32.toNat_ofNat_of_lt' (hlt a), UInt32.toNat_ofNat_of_lt' (hlt b)] at hindex
    rw [← Wrapper.ofNat_ctorIdx a, hindex, Wrapper.ofNat_ctorIdx]
  obtain ⟨m, hrun, hslave, hmaster, hrequested, hon⟩ : ∃ m, run (step inOrder) (booted inOrder
      ⟨blankMachine.toConsole, ⟨noChip, noChip⟩, 0, 0⟩ noEntry noEntry fun _ => noEntry) twoRequests = some m ∧
      m.started (.slave 0) = 1 ∧ m.started (.master 1) = 0 ∧ m.pics.pair.requested (.master 1) = true ∧
      m.interrupts = true := exists_run (by decide +kernel)
  obtain ⟨-, -, hserved⟩ := interrupts_served inOrder hinjective _ noEntry noEntry _ twoRequests m hrun
  exact ⟨m, hrun, hslave, hmaster, hserved (.master 1) (by decide) hrequested hon⟩

end lacos.i8259
