import LacOS.Syscalls.Halt
import LacOS.Terminal.LineEditor
import LacOS.User.Support

open memory capped program lacos.lib lacos.file_system lacos.pcb lacos.keyboard lacos.terminal lacos.syscalls

namespace lacos.user.shell

abbrev BUFSIZE : Nat := 1024

/-- What the shell does with a line. -/
inductive Request where
  | leave (status : Int)
  | again
  | execute (command : CString)

/-- The string at an address. -/
def commandAt (m : Mem) (s : UInt32) : CString := ⟨nstring m (2 ^ 32) s, zero_notMem_nstring m _ _⟩

def prompt : Prog Task Unit := fdputs_constant 1 "391OS> ".toList

/-- The body of the loop from `ece391_read` to `ece391_execute`. -/
def takeCommand (fs : Image) (buf : UInt32) : Prog Task Request := do
  let cnt ← ece391_read fs 0 buf (BUFSIZE - 1)
  if cnt = -1 then do
    fdputs_constant 1 "read from keyboard failed\n".toList
    pure (.leave 3)
  else do
    let m ← memory
    let cnt := if 0 < cnt ∧ m (buf + UInt32.ofInt (cnt - 1)) = 10 then cnt - 1 else cnt
    assign (buf + UInt32.ofInt cnt) 0
    let m ← memory
    let order ← ece391_strcmp m buf (constant "exit".toList) CONSTANT
    if order = 0 then pure (.leave 0)
    else if m buf = 0 then pure .again
    else pure (.execute (commandAt m buf))

/-- The body of the loop after `ece391_execute`. -/
def showResult (rval : Int) : Prog Task Unit :=
  if rval = -1 then fdputs_constant 1 "no such command\n".toList
  else if rval = 256 then fdputs_constant 1 "program terminated by exception\n".toList
  else if rval ≠ 0 then fdputs_constant 1 "program terminated abnormally\n".toList
  else pure ()

/-- What a program that has been started does until it ends: the status it calls `sys_halt`
    with and the kernel it does so in, in which `except_raised` is set if an exception handler
    makes the call. There is none if the program does not end. -/
abbrev Program := Kernel → Option (UInt8 × Kernel)

/-- The codes of a line that is typed, what `sys_execute` then finds on its stack, and the
    program that runs if it starts one. -/
structure Line where
  codes : List UInt8
  locals : Locals
  program : Program

/-- What has become of a command: the kernel in which a process was started, if one was, and
    the value that the shell has got, if it has. -/
structure Execution where
  command : CString
  started : Option Kernel
  rval : Option Int

/-- `ece391_execute`. It comes back if the command is refused, or once the program that it has
    started halts and `sys_halt` goes back to this very call. -/
def ece391_execute (fs : Image) (command : CString) (line : Line) : Prog Task Execution := fun t =>
  (sys_execute fs t.kernel command line.locals).bind fun (outcome, kernel) =>
    match outcome with
    | .returned rval => some (⟨command, none, some rval⟩, { t with kernel })
    | .entered _ =>
      match line.program kernel with
      | none => some (⟨command, some kernel, none⟩, { t with kernel })
      | some (status, ended) =>
        (sys_halt fs ended status line.locals).bind fun (halted, resumed) =>
          match halted with
          | .resumed frame rval =>
            if frame.caller = t.kernel.running then
              some (⟨command, some kernel, some rval⟩, { t with kernel := resumed })
            else none
          | .restarted _ => none

/-- The keyboard interrupts while the shell waits for a line. -/
def typeLine (codes : List UInt8) : Prog Task Unit := fun t =>
  some ((), { t with kernel := process_input (inputs t.kernel codes) ENTER_KEY_P })

/-- Where the shell is when no more lines are typed. -/
inductive Stop where
  | waiting
  | left (status : Int)
  | running

/-- The loop of `main` over the lines that are typed. It gives the commands that were
    executed, of which the last one may still run. -/
def session (fs : Image) (buf : UInt32) : List Line → Prog Task (List Execution × Stop)
  | [] => do
    prompt
    pure ([], .waiting)
  | line :: rest => do
    prompt
    typeLine line.codes
    let request ← takeCommand fs buf
    match request with
    | .leave status => pure ([], .left status)
    | .again => session fs buf rest
    | .execute command => do
      let execution ← ece391_execute fs command line
      match execution.rval with
      | none => pure ([execution], .running)
      | some rval => do
        showResult rval
        let (ran, stop) ← session fs buf rest
        pure (execution :: ran, stop)

/-- `main`. -/
def main (fs : Image) (buf : UInt32) (lines : List Line) : Prog Task (List Execution × Stop) := do
  fdputs_constant 1 "Starting 391 Shell\n".toList
  session fs buf lines

/-- The line that Enter ends. The kernel keeps no more than 127 characters of it. -/
def enteredLine (kbd : Keyboard) (codes : List UInt8) : List UInt8 := (edits kbd empty codes).val.take 127

/-- The lines that are typed one after the other. -/
def typedLines : Keyboard → List Line → List (List UInt8)
  | _, [] => []
  | kbd, line :: rest => enteredLine kbd line.codes :: typedLines (line.codes.foldl modifiers kbd) rest

/-- Every line is typed with the keys of a line. -/
def WithinLines : Keyboard → List Line → Prop
  | _, [] => True
  | kbd, line :: rest => WithinLine kbd line.codes ∧ WithinLines (line.codes.foldl modifiers kbd) rest

instance decidableWithinLines : (kbd : Keyboard) → (lines : List Line) → Decidable (WithinLines kbd lines)
  | _, [] => isTrue trivial
  | kbd, line :: rest =>
    have := decidableWithinLines (line.codes.foldl modifiers kbd) rest
    inferInstanceAs (Decidable (_ ∧ _))

end lacos.user.shell
