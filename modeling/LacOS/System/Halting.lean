import LacOS.System

open lacos.file_system lacos.syscalls

namespace lacos.system

/-- What a context has still to do of a call that interrupts can fall into: the other
    statements of `sys_halt`, then its jump to `we_are_done` or its call of `sys_execute`,
    and the end of the `sys_execute` that is jumped into. -/
inductive Unfinished where
  | halting (rest : List HaltStatement) (offset : UInt32) (status : UInt8)
  | jumping (status : UInt8)
  | restarting (status : UInt8)
  | returning (child : Process) (status : UInt8)
  deriving DecidableEq

/-- The kernel at work, with what each context has still to do. -/
structure Computer extends System where
  unfinished : Context → Option Unfinished

/-- An event, which for `sys_halt` is no more than the call, or the next statement of what
    the running context has still to do. An exception handler runs with interrupts
    disabled, so that its `sys_halt` stays one event. -/
inductive Happening where
  | event (event : Event)
  | statement (locals : Locals)

/-- The tick, and Alt with a function key, come whatever the running context does. -/
def Event.interrupts : Event → Bool
  | .pit_interrupt _ | .switch_terminal _ => true
  | _ => false

namespace Computer

def start (machine : Kernel) : Computer := { boot machine with unfinished := fun _ => none }

/-- What the running context has still to do. -/
def pending (c : Computer) : Option Unfinished := c.unfinished c.kernel.running

/-- The running context goes on from another state of the kernel. -/
def goOn (c : Computer) (k : Kernel) (next : Option Unfinished) : Computer :=
  { c with kernel := k, unfinished := Function.update c.unfinished c.kernel.running next }

/-- What is still to do once a statement of `sys_halt` has been executed. The last one
    has decided the `if`. -/
def remaining (k : Kernel) (offset : UInt32) (status : UInt8) : List HaltStatement → Unfinished
  | [] => if k.cur_pcb ≠ NULL then .jumping status else .restarting status
  | next :: rest => .halting (next :: rest) offset status

/-- The stack pointers of the task that called `sys_execute` are restored: from here on the
    process has ended, and that `sys_execute` goes on. -/
def jump (c : Computer) (p : Process) (status : UInt8) (frame : Frame) : Computer where
  kernel := { c.kernel with running := frame.caller }
  spinning := c.spinning
  exits := (p, .halted status) :: c.exits
  returns := c.returns
  unfinished := Function.update (Function.update c.unfinished c.kernel.running none) frame.caller
    (some (.returning frame.child status))

/-- The next statement. There is no next state if it reads through a NULL pointer. -/
def statement (fs : Image) (c : Computer) (locals : Locals) : Unfinished → Option Computer
  | .halting [] _ _ => none
  | .halting (next :: rest) offset status =>
    if next.dereferences = true ∧ c.kernel.cur_pcb = NULL then none
    else
      let k := next.exec offset c.kernel
      some (c.goOn k (some (remaining k offset status rest)))
  | .jumping status =>
    if c.kernel.cur_pcb = NULL then none
    else do
      let frame ← (c.kernel.pcbs c.kernel.cur_pcb).esp
      let p ← runningProcess c.kernel
      return c.jump p status frame
  | .restarting status => do
    let p ← runningProcess c.kernel
    let (_, k) ← sys_execute fs c.kernel shell locals
    return { c.goOn k none with exits := (p, .halted status) :: c.exits }
  | .returning child status =>
    let (value, k) := we_are_done c.kernel status.toNat
    some { c.goOn k none with returns := (child, value) :: c.returns }

/-- The call of `sys_halt`, up to its first statement. -/
def beginHalt (c : Computer) (status : UInt8) : Option Computer := do
  let _ ← runningProcess c.kernel
  return c.goOn c.kernel (some (.halting haltStatements (haltOffset c.kernel.cur_pcb) status))

end Computer

/-- There is no next state if the event cannot happen or the kernel goes on through a bad
    pointer. -/
def happen (fs : Image) (c : Computer) : Happening → Option Computer
  | .event (.sys_halt status _) => if c.pending = none then c.beginHalt status else none
  | .event event =>
    if event.interrupts = true ∨ c.pending = none then (step fs c.toSystem event).map ({ c with toSystem := · })
    else none
  | .statement locals => c.pending.bind (c.statement fs locals)

/-- An event other than the call of `sys_halt` happens as it does to the system, if it is an
    interrupt or the context has nothing to finish. -/
theorem happen_event {event : Event} (hhalt : ∀ status locals, event ≠ .sys_halt status locals) (fs : Image)
    (c : Computer) : happen fs c (.event event) =
      if event.interrupts = true ∨ c.pending = none then (step fs c.toSystem event).map ({ c with toSystem := · })
      else none := by
  cases event with
  | sys_halt status locals => exact absurd rfl (hhalt status locals)
  | _ => rfl

/-- No tick falls into a `sys_halt`, up to the end of the `sys_execute` it goes back to or
    the start of a new shell. -/
def NoTickInside (c : Computer) : Happening → Prop
  | .event (.pit_interrupt _) => c.pending = none
  | _ => True

instance (c : Computer) : (happening : Happening) → Decidable (NoTickInside c happening)
  | .event (.pit_interrupt _) => inferInstanceAs (Decidable (c.pending = none))
  | .event (.switch_terminal _) | .event (.sys_execute _ _) | .event (.sys_halt _ _) | .event (.exception _ _)
  | .event (.entry_execute _) | .statement _ => isTrue trivial

end lacos.system
