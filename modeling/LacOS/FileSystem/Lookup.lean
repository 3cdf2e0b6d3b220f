import LacOS.FileSystem.Image
import LacOS.Lib.String

open memory lacos.lib

namespace lacos.file_system

/-- The fields of a directory entry that are read. The 24 bytes behind them are reserved. -/
structure dentry_t where
  file_name : Fin FILENAME_LEN → UInt8
  file_type : UInt32
  inode_num : UInt32

/-- The entry that lies at an address. -/
def dentry_t.at (m : Mem) (addr : UInt32) : dentry_t where
  file_name j := m (addr + UInt32.ofNat j)
  file_type := load32 m (addr + 32)
  inode_num := load32 m (addr + 36)

/-- Where directory entry `i` lies: the boot block's own fields take the place of
    an entry. -/
def cur_dentry (i : UInt32) : UInt32 := 4 * ((i + 1) * ENTRY_SIZE_UINTS)

def Image.dentry (fs : Image) (i : UInt32) : dentry_t := dentry_t.at fs.bytes (cur_dentry i)

/-- `poss_name`, cleared and filled with the name of entry `i`. -/
def poss_name (fs : Image) (i : UInt32) : Mem :=
  strncpy_from (fun _ => 0) 0 fs.bytes (cur_dentry i) (UInt32.ofNat FILENAME_LEN)

/-- The loop over the directory from entry `i` on, with `n` entries left. The caller's entry is
    at `dentry` in the memory `d`. -/
def read_dentry_loop (fs : Image) (m : Mem) (fname : UInt32) (d : Mem) (dentry : UInt32) :
    Nat → UInt32 → Int × Mem
  | 0, _ => (FAILURE, d)
  | n + 1, i =>
    if strncmp (poss_name fs i) 0 m fname (UInt32.ofNat FILENAME_LEN) = 0 then
      (SUCCESS, memcpy_from d dentry fs.bytes (cur_dentry i) ENTRY_SIZE_BYTES)
    else read_dentry_loop fs m fname d dentry n (i + 1)

/-- `read_dentry_by_name` for a name in the memory `m`: what it returns, and the memory of the
    caller's entry. -/
def read_dentry_by_name (fs : Image) (m : Mem) (fname : UInt32) (d : Mem) (dentry : UInt32) : Int × Mem :=
  let num_dir_entries := fs.word 0
  if (strlen m fname).toNat > FILENAME_LEN then (FAILURE, d)
  else read_dentry_loop fs m fname d dentry num_dir_entries.toNat 0

def read_dentry_by_index (fs : Image) (index : UInt32) (d : Mem) (dentry : UInt32) : Int × Mem :=
  let num_inodes := fs.word 1
  if index ≥ num_inodes then (FAILURE, d)
  else (SUCCESS, memcpy_from d dentry fs.bytes (cur_dentry index) ENTRY_SIZE_BYTES)

/-- The entry that a caller of `read_dentry_by_name` then reads from its own variable, or nothing
    if the call has failed. What the variable held before does not matter. -/
def Image.namedDentry (fs : Image) (m : Mem) (fname : UInt32) : Option dentry_t :=
  match read_dentry_by_name fs m fname (fun _ => 0) 0 with
  | (status, d) => if status = FAILURE then none else some (dentry_t.at d 0)

end lacos.file_system
