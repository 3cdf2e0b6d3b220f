import LacOS.FileSystem.Image

open memory lacos.lib

namespace lacos.file_system

/-- The local variables of `read_data` that change in its loop. -/
structure ReadState where
  start_offset : UInt32
  cur_block_num : UInt32
  remaining : UInt32
  done_so_far : UInt32
  buf : Mem

/-- The locals as they enter the loop. -/
def ReadState.start (offset remaining : UInt32) (buf : Mem) : ReadState where
  start_offset := offset % BLK_SIZE_BYTES
  cur_block_num := offset / BLK_SIZE_BYTES
  remaining := remaining
  done_so_far := 0
  buf := buf

/-- `remaining` after the truncation step. The sum is a `uint32_t`. -/
def read_data_truncate (offset length file_length : UInt32) : UInt32 :=
  if offset + length > file_length then file_length - offset else length

/-- How much of the current block to copy, with the new value of `remaining`
    (the short-file case assigns both). -/
def read_data_chunk (offset length file_length : UInt32) (st : ReadState) : UInt32 × UInt32 :=
  if st.done_so_far = 0 then
    if st.start_offset + st.remaining > BLK_SIZE_BYTES then
      (BLK_SIZE_BYTES - st.start_offset, st.remaining)
    else if offset = 0 ∧ length ≥ file_length then
      (file_length, file_length)
    else
      (st.remaining, st.remaining)
  else if st.remaining ≤ BLK_SIZE_BYTES then
    (st.remaining, st.remaining)
  else
    (BLK_SIZE_BYTES, st.remaining)

/-- One turn of the loop over the file's blocks, with the block number already
    checked. -/
def read_data_step (fs : Image) (cur_inode offset length file_length buf : UInt32) (st : ReadState) :
    ReadState :=
  let cur_block := (fs.word 1 + fs.word (cur_inode + (st.cur_block_num + 1)) + 1) * BLK_SIZE_BYTES
  let (cur_to_do, remaining) := read_data_chunk offset length file_length st
  { start_offset := 0
    cur_block_num := st.cur_block_num + 1
    remaining := remaining - cur_to_do
    done_so_far := st.done_so_far + cur_to_do
    buf := memcpy_from st.buf (buf + st.done_so_far) fs.bytes (cur_block + st.start_offset) cur_to_do }

/-- `while(remaining > 0)`. Every turn copies at least one byte, so `remaining`
    itself is enough fuel. -/
def read_data_loop (fs : Image) (cur_inode offset length file_length buf : UInt32) :
    Nat → ReadState → ReadState
  | 0, st => st
  | fuel + 1, st =>
    if st.remaining > 0 then
      if fs.word (cur_inode + (st.cur_block_num + 1)) ≥ fs.word 2 then st
      else read_data_loop fs cur_inode offset length file_length buf fuel
        (read_data_step fs cur_inode offset length file_length buf st)
    else st

def read_data (fs : Image) (inode offset : UInt32) (m : Mem) (buf length : UInt32) : Int × Mem :=
  let num_inodes := fs.word 1
  let num_blocks := fs.word 2
  if inode ≥ num_inodes then (FAILURE, m)
  else
    let cur_inode := (inode + 1) * BLK_SIZE_UINTS
    let file_length := fs.word cur_inode
    if offset ≥ file_length then (SUCCESS, m)
    else
      let remaining := read_data_truncate offset length file_length
      let st := ReadState.start offset remaining m
      if fs.word (cur_inode + (st.cur_block_num + 1)) ≥ num_blocks then (FAILURE, m)
      else
        let st := read_data_loop fs cur_inode offset length file_length buf remaining.toNat st
        (toInt32 st.done_so_far, st.buf)

end lacos.file_system
