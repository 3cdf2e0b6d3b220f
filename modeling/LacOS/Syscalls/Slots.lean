import LacOS.Pcb.Popcount
import LacOS.Syscalls.Halt.Effect

open memory lacos.lib lacos.file_system lacos.paging lacos.pcb

namespace lacos.syscalls

section Addresses

variable {n m : Nat}

/-- The block of a slot by its address. -/
theorem slotBlock_toNat (hn : n ≤ 32) : (slotBlock n).toNat = 0x800000 - 0x2000 * (n + 1) := blockAddr_toNat hn

theorem slotBlock_ne_null (hn : n ≤ 32) : slotBlock n ≠ NULL := blockAddr_ne_null hn

/-- Different slots have different blocks, for the full 32 slots of the bit map and the one behind
    them. -/
theorem slotBlock_inj (hn : n ≤ 32) (hm : m ≤ 32) : slotBlock n = slotBlock m ↔ n = m := by
  constructor
  · intro heq
    have htoNat := congrArg UInt32.toNat heq
    rw [slotBlock_toNat hn, slotBlock_toNat hm] at htoNat
    omega
  · rintro rfl
    rfl

theorem stackTop_toNat (hn : n < 6) : (stackTop n).toNat = 0x800000 - 0x2000 * n - 4 := by
  simp only [stackTop, esp0OfNum, END_OF_KERNEL_PAGE, PCB_PLUS_STACK]
  rw [UInt32.toNat_sub, UInt32.toNat_sub, UInt32.toNat_mul, UInt32.toNat_ofNat']
  simp
  omega

theorem programPage_toNat (hn : n < 6) : (programPage n).toNat = 0x800000 + 0x400000 * n := by
  simp only [programPage, pageOfNum, PROGRAM_1_PHYS, FOUR_MB]
  rw [UInt32.toNat_add, UInt32.toNat_mul, UInt32.toNat_ofNat']
  simp
  omega

/-- `sys_halt` recovers the slot from the address of its block. -/
theorem haltSlot_block (hn : n < 32) : haltSlot (slotBlock n) = UInt32.ofNat n := by
  apply UInt32.toNat_inj.mp
  have haddr := slotBlock_toNat (n := n) (by omega)
  simp only [haltSlot, haltOffset, END_OF_KERNEL_PAGE, PCB_PLUS_STACK]
  rw [UInt32.toNat_sub, UInt32.toNat_div, UInt32.toNat_sub, haddr, UInt32.toNat_ofNat']
  simp
  omega

end Addresses

section Status

variable {fs : Image} {k k' : Kernel} {command : CString} {locals : Locals}

theorem ofNat_slot_inj {n m : Nat} (hn : n ≤ 32) (hm : m ≤ 32) (heq : UInt32.ofNat n = UInt32.ofNat m) : n = m := by
  have htoNat := congrArg UInt32.toNat heq
  rw [UInt32.toNat_ofNat', UInt32.toNat_ofNat'] at htoNat
  omega

/-- Taking one of the six slots. -/
theorem sixSlots_or {pcb_status : UInt32} {n : Nat} (hn : n < 6) (hsix : SixSlots pcb_status) :
    SixSlots (pcb_status ||| (1 <<< UInt32.ofNat n)) := by
  intro m hm
  obtain rfl | hm := (taken_or (by omega) _ _).mp hm
  · exact hn
  · exact hsix m hm

/-- Giving slots back. -/
theorem sixSlots_clear {pcb_status : UInt32} (hsix : SixSlots pcb_status) (mask : UInt32) :
    SixSlots (pcb_status &&& mask) := by
  intro m hm
  rw [Taken, UInt32.toNat_and, Nat.testBit_and, Bool.and_eq_true] at hm
  exact hsix m hm.1

/-- What a refused command may do to six slots: take a free one and clean its block. -/
theorem Refused.six (hrefused : Refused k k') (hsix : SixSlots k.pcb_status) :
    (k'.pcb_status = k.pcb_status ∧ k'.pcbs = k.pcbs) ∨
      ∃ n < 6, ¬ Taken k.pcb_status n ∧ k'.pcb_status = k.pcb_status ||| (1 <<< UInt32.ofNat n) ∧
        ∃ io_files tail, k'.pcbs = Function.update k.pcbs (slotBlock n)
          { k.pcbs (slotBlock n) with pcb_num := UInt32.ofNat n, io_files := io_files, tail := tail } := by
  obtain hsame | ⟨hroom, hstatus, io_files, tail, hpcbs⟩ := hrefused.slots
  · exact .inl hsame
  · obtain ⟨n, hn, hfind, hfree⟩ := find_empty_pcb_free hsix hroom
    rw [hfind] at hstatus hpcbs
    exact .inr ⟨n, hn, hfree, hstatus, io_files, tail, hpcbs⟩

/-- What `sys_execute` does on a kernel that has only used its six slots. -/
inductive Executed (fs : Image) (k : Kernel) (command : CString) (locals : Locals) (k' : Kernel) : Prop where
  | refused (hpasses : ¬ Passes fs k command locals) (hrefused : Refused k k')
  | launched (n : Nat) (hpasses : Passes fs k command locals)
      (hparent : k.starting_new_shell = false → startParent k ≠ NULL) (hn : n < 6) (hfree : ¬ Taken k.pcb_status n)
      (hlaunched : Launched k k' n)

/-- What `sys_execute` does, however it ends. The slots that are taken must be among the six, as
    the page of another one would be elsewhere. -/
theorem sys_execute_executed {outcome : Outcome} (hsix : SixSlots k.pcb_status)
    (hexecute : sys_execute fs k command locals = some (outcome, k')) : Executed fs k command locals k' := by
  obtain ⟨hpasses, -, hrefused⟩ | ⟨hpasses, hparent, -, n, hn, hfind, hlaunched⟩ := sys_execute_cases hexecute
  · exact .refused hpasses hrefused
  · obtain ⟨m, hm, hfind', hfree⟩ := find_empty_pcb_free hsix hpasses.1
    rw [hfind] at hfind'
    obtain rfl := ofNat_slot_inj hn (by omega) (Prod.mk.inj hfind').1
    exact .launched n hpasses hparent hm hfree hlaunched

/-- A process that is entered has been launched in a free slot. -/
theorem sys_execute_entered {entry : UInt32} (hsix : SixSlots k.pcb_status)
    (hexecute : sys_execute fs k command locals = some (.entered entry, k')) :
    ∃ n < 6, ¬ Taken k.pcb_status n ∧ Launched k k' n := by
  obtain ⟨hfails, hrefused⟩ | ⟨n, -, -, hn, hfree, hlaunched⟩ := sys_execute_executed hsix hexecute
  · obtain ⟨-, ⟨value, hreturned⟩, -⟩ | ⟨hpasses, -⟩ := sys_execute_cases hexecute
    · cases hreturned
    · exact absurd hpasses hfails
  · exact ⟨n, hn, hfree, hlaunched⟩

/-- The numbers of processes only grow. -/
theorem Executed.next_id_le (hexecuted : Executed fs k command locals k') : k.next_id ≤ k'.next_id := by
  obtain ⟨-, hrefused⟩ | ⟨n, -, -, -, -, hlaunched⟩ := hexecuted
  · rw [hrefused.next_id]
  · rw [hlaunched.next_id]
    exact Nat.le_succ _

theorem Refused.sti (hrefused : Refused k k') : Refused k (sti k') := { hrefused with }

theorem Launched.sti {n : Nat} (hlaunched : Launched k k' n) : Launched k (sti k') n := { hlaunched with }

theorem Executed.sti (hexecuted : Executed fs k command locals k') : Executed fs k command locals (sti k') := by
  obtain ⟨hpasses, hrefused⟩ | ⟨n, hpasses, hparent, hn, hfree, hlaunched⟩ := hexecuted
  · exact .refused hpasses hrefused.sti
  · exact .launched n hpasses hparent hn hfree hlaunched.sti

end Status

end lacos.syscalls
