import LacOS.FileSystem.Files
import LacOS.Terminal

open memory lacos.lib lacos.file_system

namespace lacos

/-- The `read` functions of the jump tables; `none` is a NULL pointer. A read that
    waits has no result. -/
def f_ops_table.readOp : f_ops_table →
    Option (Image → Kernel → Fin MAX_DESC → Mem → UInt32 → Int32 → Option (Int × Mem × Kernel))
  | .empty_f_ops_tab | .stdout => none
  | .stdin => some fun _ k _ m buf nbytes => terminal.terminal_read k m buf nbytes.toUInt32
  | .rtc_jt => some fun _ k _ m _ _ => some ((rtc.rtc_read k).1, m, (rtc.rtc_read k).2)
  | .dir_jt => some fun fs k fd m buf _ => some (fsys_read_dir fs k fd m buf)
  | .regf_jt => some fun fs k fd m buf nbytes => some (fsys_read_file fs k fd m buf nbytes)

/-- The `write` functions of the jump tables. -/
def f_ops_table.writeOp : f_ops_table → Option (Kernel → Mem → UInt32 → Int32 → Int × Kernel)
  | .empty_f_ops_tab | .stdin => none
  | .stdout => some fun k m buf nbytes => terminal.terminal_write k m buf nbytes.toInt
  | .rtc_jt => some fun k m buf nbytes => rtc.rtc_write k (load32 m buf) nbytes.toInt
  | .dir_jt => some fun k _ _ _ => fsys_write_dir k
  | .regf_jt => some fun k _ _ _ => fsys_write_file k

namespace syscalls

/-- An `int32_t` that is the number of a descriptor. -/
def descIndex (fd : Int32) : Option (Fin MAX_DESC) :=
  if hfd : 0 ≤ fd.toInt ∧ fd.toInt < MAX_DESC then some ⟨fd.toInt.toNat, by omega⟩ else none

/-- `sys_read` by the process of `cur_pcb`, into its memory `m`. -/
def sys_read (fs : Image) (k : Kernel) (fd : Int32) (m : Mem) (buf : UInt32) (nbytes : Int32) :
    Option (Int × Mem × Kernel) :=
  match descIndex fd with
  | none => some (-1, m, k)
  | some i =>
    if buf = NULL ∨ nbytes < 0 then some (-1, m, k)
    else
      match (k.desc k.cur_pcb i).file_ops.readOp with
      | none => some (-1, m, k)
      | some op => op fs k i m buf nbytes

def sys_write (k : Kernel) (fd : Int32) (m : Mem) (buf : UInt32) (nbytes : Int32) : Int × Kernel :=
  match descIndex fd with
  | none => (-1, k)
  | some i =>
    if buf = NULL ∨ nbytes < 0 then (-1, k)
    else
      match (k.desc k.cur_pcb i).file_ops.writeOp with
      | none => (-1, k)
      | some op => op k m buf nbytes

def sys_open (fs : Image) (k : Kernel) (m : Mem) (filename : UInt32) : Option (Int × Kernel) :=
  match fs.namedDentry m filename with
  | none => some (-1, k)
  | some cur_dentry =>
    if cur_dentry.file_type ≥ 3 then some (-1, k)
    else pcb.open_file_desc fs k k.cur_pcb m filename

def sys_close (k : Kernel) (fd : Int32) : Int × Kernel :=
  match descIndex fd with
  | none => (-1, k)
  | some i =>
    if i.val < 2 then (-1, k)
    else
      match (k.desc k.cur_pcb i).file_ops.closeOp with
      | none => (-1, k)
      | some op => op k (UInt32.ofNat i)

end syscalls

end lacos
