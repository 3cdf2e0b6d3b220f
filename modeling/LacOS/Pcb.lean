import Mathlib.Data.Fin.Basic
import LacOS.FileSystem.Lookup
import LacOS.Pcb.Slots
import LacOS.Rtc

open memory lacos.lib lacos.file_system

namespace lacos

/-- `p->io_files[fd]` -/
def Kernel.desc (k : Kernel) (p : UInt32) (fd : Fin MAX_DESC) : fdesc_t := (k.pcbs p).io_files fd

def Kernel.setDesc (k : Kernel) (p : UInt32) (fd : Fin MAX_DESC) (desc : fdesc_t) : Kernel :=
  k.setPcb p { k.pcbs p with io_files := Function.update (k.pcbs p).io_files fd desc }

section SetDesc

variable (k : Kernel) (p : UInt32) (fd : Fin MAX_DESC) (desc : fdesc_t)

@[simp] theorem Kernel.setDesc_cur_pcb : (k.setDesc p fd desc).cur_pcb = k.cur_pcb := rfl

@[simp] theorem Kernel.desc_setDesc_same : (k.setDesc p fd desc).desc p fd = desc := by
  simp [Kernel.setDesc, Kernel.setPcb, Kernel.desc]

theorem Kernel.desc_setDesc_other {q : UInt32} {i : Fin MAX_DESC} (hne : (q, i) ≠ (p, fd)) :
    (k.setDesc p fd desc).desc q i = k.desc q i := by
  by_cases hq : q = p
  · subst hq
    have hi : i ≠ fd := fun hi => hne (by rw [hi])
    simp [Kernel.setDesc, Kernel.setPcb, Kernel.desc, hi]
  · simp [Kernel.setDesc, Kernel.setPcb, Kernel.desc, hq]

@[simp] theorem Kernel.setDesc_setDesc (other : fdesc_t) :
    (k.setDesc p fd desc).setDesc p fd other = k.setDesc p fd other := by
  simp [Kernel.setDesc, Kernel.setPcb]

@[simp] theorem Kernel.setDesc_self : k.setDesc p fd (k.desc p fd) = k := by
  simp [Kernel.setDesc, Kernel.setPcb, Kernel.desc]

end SetDesc

namespace pcb

def close_file_desc (k : Kernel) (blk fd : UInt32) : Int × Kernel :=
  if hfd : fd.toNat < MAX_DESC ∧ blk ≠ NULL then
    let fd : Fin MAX_DESC := ⟨fd.toNat, hfd.1⟩
    let k := k.setDesc k.cur_pcb fd { k.desc k.cur_pcb fd with file_ops := .empty_f_ops_tab }
    let k := k.setDesc blk fd { k.desc blk fd with flags := .NOT_USED }
    (0, k)
  else (-1, k)

end pcb

/-- The `open` functions of the jump tables; `none` is a NULL pointer. -/
def f_ops_table.openOp : f_ops_table → Option (Kernel → Int × Kernel)
  | .empty_f_ops_tab | .stdin | .stdout => none
  | .rtc_jt => some rtc.rtc_open
  | .dir_jt | .regf_jt => some fun k => (0, k)

/-- The `close` functions of the jump tables. -/
def f_ops_table.closeOp : f_ops_table → Option (Kernel → UInt32 → Int × Kernel)
  | .empty_f_ops_tab | .stdin | .stdout => none
  | .rtc_jt | .dir_jt | .regf_jt => some fun k fd => pcb.close_file_desc k k.cur_pcb fd

namespace pcb

/-- The jump tables by file type. -/
def tableaux : List f_ops_table := [.rtc_jt, .dir_jt, .regf_jt]

def stdinstr : Mem := literal ['s', 't', 'd', 'i', 'n']

def stdoutstr : Mem := literal ['s', 't', 'd', 'o', 'u', 't']

/-- `open_file_desc` for a name in the memory `m`. It has no result where the source
    goes on with an entry it has not found, or with a table past the end of
    `tableaux`. -/
def open_file_desc (fs : Image) (k : Kernel) (blk : UInt32) (m : Mem) (filename : UInt32) : Option (Int × Kernel) :=
  if blk = NULL then some (-1, k)
  else
    match Fin.find? fun idx => (k.desc blk idx).flags = .NOT_USED with
    | none => some (-1, k)
    | some idx =>
      let fd := { k.desc blk idx with file_pos := 0, flags := .IN_USE }
      let isstdin := strncmp m filename stdinstr 0 5
      let isstdout := strncmp m filename stdoutstr 0 6
      if isstdin ≠ 0 ∧ isstdout ≠ 0 then
        (fs.namedDentry m filename).bind fun temp_dentry =>
          tableaux[temp_dentry.file_type.toNat]?.bind fun file_ops =>
            file_ops.openOp.map fun op =>
              ((idx.val : Int), (op (k.setDesc blk idx { fd with inode := temp_dentry.inode_num, file_ops })).2)
      else
        let file_ops := if isstdin = 0 then .stdin else .stdout
        some ((idx.val : Int), k.setDesc blk idx { fd with inode := 0, file_ops })

/-- The new block of `init_pcb`, from what its memory held before. `arg` is
    cleared, `cmd_name` and the stack after it are not. -/
def cleanBlock (blk : pcb_t) (offset : UInt32) : pcb_t :=
  { blk with
    pcb_num := offset
    io_files := fun i => { blk.io_files i with flags := .NOT_USED, file_ops := .empty_f_ops_tab }
    tail := memset blk.tail 0 0 (UInt32.ofNat KEY_BUF_SIZE) }

def blockAddr (offset : UInt32) : UInt32 := END_OF_KERNEL_PAGE - PCB_PLUS_STACK * (offset + 1)

/-- Make the block at `offset` a new one. -/
def takeBlock (k : Kernel) (offset pcb_status : UInt32) : Kernel :=
  let k := { k with pcb_status }
  k.setPcb (blockAddr offset) (cleanBlock (k.pcbs (blockAddr offset)) offset)

/-- The address of the new block, and the kernel. -/
def init_pcb (k : Kernel) : UInt32 × Kernel :=
  let (offset, pcb_status) := find_empty_pcb k.pcb_status
  (blockAddr offset, takeBlock k offset pcb_status)

/-- One turn of the loop of `close_pcb`. -/
def closeDesc (k : Kernel) (i : Fin MAX_DESC) : Kernel :=
  let k := match (k.desc k.cur_pcb i).file_ops.closeOp with
    | some op => (op k (UInt32.ofNat i)).2
    | none => k
  (close_file_desc k k.cur_pcb (UInt32.ofNat i)).2

def close_pcb (k : Kernel) (blk : UInt32) : Int × Kernel :=
  if blk = NULL then (-1, k) else (0, (List.finRange MAX_DESC).foldl closeDesc k)

end pcb

namespace terminal

/-- `terminal_open`: the descriptors for `stdin` and `stdout`. -/
def terminal_open (fs : Image) (k : Kernel) : Option Kernel :=
  (pcb.open_file_desc fs k k.cur_pcb pcb.stdinstr 0).bind fun (_, k) =>
    (pcb.open_file_desc fs k k.cur_pcb pcb.stdoutstr 0).map (·.2)

end terminal

end lacos
