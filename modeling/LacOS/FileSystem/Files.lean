import LacOS.FileSystem.ReadData
import LacOS.Pcb

open memory lacos.lib

namespace lacos.file_system

variable (fs : Image) (k : Kernel) (fd : Fin MAX_DESC) (m : Mem) (buf : UInt32) (nbytes : Int32)

/-- `fsys_read_file` into the memory `m`: the number of bytes read, that memory and
    the kernel. -/
def fsys_read_file : Int × Mem × Kernel :=
  let desc := k.desc k.cur_pcb fd
  let file_size := fs.word ((desc.inode + 1) * BLK_SIZE_UINTS)
  if desc.file_pos ≥ file_size then (0, m, k)
  else
    let (bytes_read, m) := read_data fs desc.inode desc.file_pos m buf nbytes.toUInt32
    if bytes_read > 0 then
      (bytes_read, m, k.setDesc k.cur_pcb fd { desc with file_pos := desc.file_pos + UInt32.ofInt bytes_read })
    else (bytes_read, m, k)

def fsys_read_dir : Int × Mem × Kernel :=
  let desc := k.desc k.cur_pcb fd
  let dir_size := fs.word 0
  let cur_dir_name := cur_dentry desc.file_pos
  let m := memset m buf 0 (UInt32.ofNat FILENAME_LEN)
  if desc.file_pos ≥ dir_size then (0, m, k)
  else
    let bytes_read :=
      if fs.bytes (cur_dir_name + UInt32.ofNat (FILENAME_LEN - 1)) ≠ 0 then UInt32.ofNat FILENAME_LEN
      else strlen fs.bytes cur_dir_name
    let m := strncpy_from m buf fs.bytes cur_dir_name bytes_read
    (toInt32 bytes_read, m, k.setDesc k.cur_pcb fd { desc with file_pos := desc.file_pos + 1 })

/-- The file system is read-only. -/
def fsys_write_file : Int × Kernel := (FAILURE, k)

def fsys_write_dir : Int × Kernel := (FAILURE, k)

end lacos.file_system
