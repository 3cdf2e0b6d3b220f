import LacOS.Lib.Memory

open memory

namespace lacos.file_system

abbrev FILENAME_LEN : Nat := 32
abbrev ENTRY_SIZE_BYTES : UInt32 := 64
abbrev ENTRY_SIZE_UINTS : UInt32 := 16
abbrev BLK_SIZE_BYTES : UInt32 := 4096
abbrev BLK_SIZE_UINTS : UInt32 := 1024

@[simp] theorem blk_size_bytes_toNat : BLK_SIZE_BYTES.toNat = 4096 := rfl

/-- The file system module: memory as it is seen from `fs_addr` on. The kernel
    never writes to it. -/
structure Image where
  bytes : Mem

/-- `fs_addr[i]` -/
def Image.word (fs : Image) (i : UInt32) : UInt32 :=
  load32 fs.bytes (4 * i)

def Image.num_inodes (fs : Image) : UInt32 := fs.word 1

def Image.num_blocks (fs : Image) : UInt32 := fs.word 2

/-- First word of an inode block. -/
def Image.file_length (fs : Image) (inode : UInt32) : UInt32 :=
  fs.word ((inode + 1) * BLK_SIZE_UINTS)

/-- The number of the data block holding the file's block `b`. -/
def Image.block (fs : Image) (inode : UInt32) (b : Nat) : UInt32 :=
  fs.word ((inode + 1) * BLK_SIZE_UINTS + UInt32.ofNat (b + 1))

/-- Byte `pos` of a file: byte `pos % 4096` of its data block `pos / 4096`. The
    data blocks follow the boot block and the inodes. -/
def Image.fileByte (fs : Image) (inode : UInt32) (pos : Nat) : UInt8 :=
  fs.bytes (UInt32.ofNat
    ((fs.num_inodes.toNat + (fs.block inode (pos / 4096)).toNat + 1) * 4096 + pos % 4096))

/-- The block holding byte `pos` of a file exists in the image. -/
def Image.Readable (fs : Image) (inode : UInt32) (pos : Nat) : Prop :=
  fs.block inode (pos / 4096) < fs.num_blocks

/-- A file that the image holds completely. -/
structure Image.WellFormed (fs : Image) (inode : UInt32) : Prop where
  valid : inode < fs.num_inodes
  length : (fs.file_length inode).toNat ≤ 1023 * 4096
  blocks : ∀ pos < (fs.file_length inode).toNat, fs.Readable inode pos

end lacos.file_system
