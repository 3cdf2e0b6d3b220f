import LacOS.Keyboard

open memory lacos.lib lacos.keyboard

namespace lacos.terminal

/-- `terminal_read` into `nbytes` bytes at `buf` of the memory `m`: the number of
    bytes read, that memory and the kernel. It waits, and here has no result,
    until the scheduled terminal has a line. -/
def terminal_read (k : Kernel) (m : Mem) (buf nbytes : UInt32) : Option (Int × Mem × Kernel) :=
  let t := k.sched_term_id
  if (k.terminals t).new_line then
    let k := cli k
    let k := k.onConsole fun con => con.setTerm t { con.terminals t with new_line := false }
    let buf_size := toInt32 (strlen k.termMem (key_buf t))
    let m := memcpy_from m buf k.termMem (key_buf t) nbytes
    let k := k.onConsole fun con => add_to_history con (key_buf t)
    let k := k.onConsole clear_buffer
    some (buf_size, m, sti k)
  else none

/-- `terminal_write` of `nbytes` bytes at `buf` of the memory `m`. -/
def terminal_write (k : Kernel) (m : Mem) (buf : UInt32) (nbytes : Int) : Int × Kernel :=
  let k := cli k
  let bytes := (List.range nbytes.toNat).map fun i => m (buf + UInt32.ofNat i)
  let k := k.onConsole fun con => puts con con.sched_term_id bytes
  (nbytes, sti k)

end lacos.terminal
