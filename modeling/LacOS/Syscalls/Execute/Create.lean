import LacOS.Pcb.Descriptors
import LacOS.Syscalls.Execute

open memory lacos.lib lacos.file_system lacos.paging lacos.pcb

namespace lacos.syscalls

/-- The effect of `createPcb`: the block at `offset` is taken. -/
structure Created (k k' : Kernel) (offset pcb_status : UInt32) : Prop where
  console : k'.toConsole = k.toConsole
  paging : k'.toPaging = k.toPaging
  pcb_status : k'.pcb_status = pcb_status
  block : ∃ io_files tail, k'.pcbs (blockAddr offset) =
    { k.pcbs (blockAddr offset) with pcb_num := offset, io_files := io_files, tail := tail }
  unused : ∀ i, ((k'.pcbs (blockAddr offset)).io_files i).flags = .NOT_USED
  empty : ∀ i, ((k'.pcbs (blockAddr offset)).io_files i).file_ops = .empty_f_ops_tab
  others : ∀ p ≠ blockAddr offset, k'.pcbs p = k.pcbs p
  cur_pcb : k'.cur_pcb = k.cur_pcb
  numproc : k'.numproc = k.numproc
  except_raised : k'.except_raised = k.except_raised
  starting_new_shell : k'.starting_new_shell = k.starting_new_shell
  tss_esp0 : k'.tss_esp0 = k.tss_esp0
  running : k'.running = k.running
  next_id : k'.next_id = k.next_id

/-- Taking a block and storing the command in it is what `createPcb` does. -/
theorem takeBlock_created (k : Kernel) (offset pcb_status : UInt32) (locals : Locals) (command : CString) :
    Created k ((takeBlock k offset pcb_status).setPcb (blockAddr offset)
      (storeCommand ((takeBlock k offset pcb_status).pcbs (blockAddr offset)) locals command))
      offset pcb_status := by
  have hblock : (takeBlock k offset pcb_status).pcbs (blockAddr offset) =
      cleanBlock (k.pcbs (blockAddr offset)) offset := by
    simp [takeBlock, Kernel.setPcb]
  refine ⟨rfl, rfl, rfl, ?_, ?_, ?_, ?_, rfl, rfl, rfl, rfl, rfl, rfl, rfl⟩
  · rw [Kernel.setPcb]
    simp only [Function.update_self, hblock, storeCommand, cleanBlock]
    exact ⟨_, _, rfl⟩
  · simp [Kernel.setPcb, storeCommand, hblock, cleanBlock]
  · simp [Kernel.setPcb, storeCommand, hblock, cleanBlock]
  · intro p hp
    simp [Kernel.setPcb, takeBlock, hp]

/-- The block is numbered by its slot. -/
theorem Created.pcb_num {k k' : Kernel} {offset pcb_status : UInt32} (hcreated : Created k k' offset pcb_status) :
    (k'.pcbs (blockAddr offset)).pcb_num = offset := by
  obtain ⟨io_files, tail, hblock⟩ := hcreated.block
  rw [hblock]

/-- `createPcb` takes the first free slot. -/
theorem createPcb_spec (k : Kernel) (locals : Locals) (command : CString) :
    ∃ k', createPcb k locals command = (blockAddr (find_empty_pcb k.pcb_status).1, k') ∧
      Created k k' (find_empty_pcb k.pcb_status).1 (find_empty_pcb k.pcb_status).2 :=
  ⟨_, rfl, takeBlock_created k _ _ locals command⟩

/-- The new block has the command in it, over what it held before. -/
theorem createPcb_block (k : Kernel) (locals : Locals) (command : CString) :
    ∃ blk, (createPcb k locals command).2.pcbs (createPcb k locals command).1 =
      storeCommand blk locals command := by
  rw [createPcb]
  generalize init_pcb k = created
  exact ⟨_, Function.update_self ..⟩

end lacos.syscalls
