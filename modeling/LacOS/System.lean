import LacOS.Boot
import LacOS.IdtHandle
import LacOS.MultiTerm
import LacOS.Timer

open lacos.file_system lacos.multi_term lacos.syscalls lacos.timer lacos.idt_handle

namespace lacos.system

/-- How a process ends: by its own `sys_halt`, or in an exception handler. -/
inductive Exit where
  | halted (status : UInt8)
  | excepted
  deriving DecidableEq

/-- What the `sys_execute` that has started the process should return. -/
def Exit.report : Exit → Int
  | .halted status => status.toNat
  | .excepted => 256

/-- What can happen once `entry` has enabled interrupts: a tick, Alt and a function
    key, a call or an exception of the running process, or `entry`'s own call. Each is
    taken as a whole. For `sys_halt` that is a restriction, since the source runs it with
    interrupts enabled: no tick and no key comes between its statements here. The
    computer of `System.Halting` takes them one by one. -/
inductive Event where
  | pit_interrupt (locals : Locals)
  | switch_terminal (new_term_id : Int)
  | sys_execute (command : CString) (locals : Locals)
  | sys_halt (status : UInt8) (locals : Locals)
  | exception (exception : Exception) (locals : Locals)
  | entry_execute (locals : Locals)

/-- The kernel at work. `spinning` says that `entry` is past its `sys_execute`; `exits`
    and `returns` record, last one first, how processes have ended and what the
    `sys_execute` that started a process has returned. -/
structure System where
  kernel : Kernel
  spinning : Bool
  exits : List (Process × Exit)
  returns : List (Process × Int)

def boot (machine : Kernel) : System := { kernel := entry machine, spinning := false, exits := [], returns := [] }

/-- The `sys_execute` calls that a halt completes. -/
def completed : Halted → List (Process × Int)
  | .resumed frame value => [(frame.child, value)]
  | .restarted _ => []

/-- The process `p` has ended. -/
def System.ended (s : System) (p : Process) (exit : Exit) (result : Halted × Kernel) : System :=
  { s with kernel := result.2, exits := (p, exit) :: s.exits, returns := completed result.1 ++ s.returns }

@[simp] theorem System.ended_kernel (s : System) (p : Process) (exit : Exit) (halted : Halted) (k : Kernel) :
    (s.ended p exit (halted, k)).kernel = k := rfl

/-- The process that runs, if it is one. -/
def runningProcess (k : Kernel) : Option Process :=
  match k.running with
  | .process p => some p
  | _ => none

/-- There is no next state if the event cannot happen or the kernel goes on through a
    bad pointer. `sys_halt` is one step, from its first statement to the context that it
    goes on with. -/
def step (fs : Image) (s : System) : Event → Option System
  | .pit_interrupt locals => (pit_interrupt fs s.kernel locals).map ({ s with kernel := · })
  | .switch_terminal new_term_id => some { s with kernel := switch_terminal s.kernel new_term_id }
  | .sys_execute command locals => do
    let _ ← runningProcess s.kernel
    let (_, k) ← sys_execute fs s.kernel command locals
    return { s with kernel := k }
  | .sys_halt status locals => do
    let p ← runningProcess s.kernel
    let result ← sys_halt fs s.kernel status locals
    return s.ended p (.halted status) result
  | .exception exception locals => do
    let p ← runningProcess s.kernel
    let result ← handle fs s.kernel exception locals
    return s.ended p .excepted result
  | .entry_execute locals =>
    if s.kernel.running = .entry ∧ s.spinning = false then
      (sys_execute fs s.kernel shell locals).map fun result => { s with kernel := result.2, spinning := true }
    else none

end lacos.system
