import Mathlib.Order.CompletePartialOrder
import Mathlib.Order.Interval.Set.Disjoint
import LacOS.Base.Run
import LacOS.Boot
import LacOS.Syscalls.Slots

open memory lacos.lib lacos.file_system lacos.paging lacos.pcb trace

namespace lacos.syscalls

/-- What happens to the slots: a process executes a command, and the process of a
    slot that is taken halts. Both are taken as a whole, without a tick inside them. -/
inductive SlotEvent where
  | execute (command : CString) (locals : Locals)
  | halt (n : Nat) (status : UInt8) (locals : Locals)

/-- The kernel, with the blocks of the processes that have been entered and have not
    halted. The slot that a refused file leaves taken is not among them: nothing is
    stored in its block but its number and its command. -/
structure SlotTable extends Kernel where
  entered : List UInt32

/-- The blocks entered once a `sys_execute` has ended. -/
def noteEntered (k : Kernel) (entered : List UInt32) : Outcome → SlotTable
  | .returned _ => ⟨k, entered⟩
  | .entered _ => ⟨k, k.cur_pcb :: entered⟩

def slotStep (fs : Image) (table : SlotTable) : SlotEvent → Option SlotTable
  | .execute command locals =>
    (sys_execute fs table.toKernel command locals).map fun (outcome, k) => noteEntered k table.entered outcome
  | .halt n status locals =>
    if Taken table.pcb_status n then
      (sys_halt fs { table.toKernel with cur_pcb := slotBlock n } status locals).map fun (halted, k) =>
        let entered := table.entered.filter (· ≠ slotBlock n)
        match halted with
        | .resumed _ _ => ⟨k, entered⟩
        | .restarted outcome => noteEntered k entered outcome
    else none

/-- The slots that are taken are among the six and their blocks are numbered. A process
    that has been entered has a slot, with the page and the kernel stack of that slot. -/
structure SlotsSound (k : Kernel) (entered : List UInt32) : Prop where
  six : SixSlots k.pcb_status
  pcb_num : ∀ n, Taken k.pcb_status n → (k.pcbs (slotBlock n)).pcb_num = UInt32.ofNat n
  entered : ∀ p ∈ entered, ∃ n, Taken k.pcb_status n ∧ p = slotBlock n ∧
    (k.pcbs p).page_addr = programPage n ∧ (k.pcbs p).esp0 = stackTop n

section Steps

variable {fs : Image} {k k' : Kernel} {entered : List UInt32} (hk : SlotsSound k entered)
include hk

/-- The block of a slot that has just been taken, and the others as they were. -/
theorem SlotsSound.takes {n : Nat} (hn : n < 6) (hfree : ¬ Taken k.pcb_status n)
    (hstatus : k'.pcb_status = k.pcb_status ||| (1 <<< UInt32.ofNat n))
    (hblock : (k'.pcbs (slotBlock n)).pcb_num = UInt32.ofNat n)
    (hothers : ∀ p ≠ slotBlock n, ∃ esp, k'.pcbs p = { k.pcbs p with esp := esp }) : SlotsSound k' entered := by
  have hother {m : Nat} (hm : Taken k.pcb_status m) : slotBlock m ≠ slotBlock n := by
    have hm6 := hk.six m hm
    rw [Ne, slotBlock_inj (by omega) (by omega)]
    rintro rfl
    exact hfree hm
  refine ⟨hstatus ▸ sixSlots_or hn hk.six, fun m hm => ?_, fun p hp => ?_⟩
  · rw [hstatus] at hm
    obtain rfl | hm := (taken_or (by omega) _ _).mp hm
    · exact hblock
    · obtain ⟨esp, hsame⟩ := hothers _ (hother hm)
      rw [hsame]
      exact hk.pcb_num m hm
  · obtain ⟨m, hm, rfl, hpage, hesp0⟩ := hk.entered p hp
    obtain ⟨esp, hsame⟩ := hothers _ (hother hm)
    rw [hsame, hstatus]
    exact ⟨m, (taken_or (by omega) _ _).mpr (.inr hm), rfl, hpage, hesp0⟩

/-- A refused call may take a slot, but enters no process. -/
theorem SlotsSound.refused (hrefused : Refused k k') : SlotsSound k' entered := by
  obtain ⟨hstatus, hpcbs⟩ | ⟨n, hn, hfree, hstatus, io_files, tail, hpcbs⟩ := hrefused.six hk.six
  · refine ⟨hstatus ▸ hk.six, fun m hm => ?_, fun p hp => ?_⟩
    · rw [hpcbs]
      exact hk.pcb_num m (hstatus ▸ hm)
    · rw [hpcbs, hstatus]
      exact hk.entered p hp
  · refine hk.takes hn hfree hstatus ?_ fun p hp => ⟨(k.pcbs p).esp, ?_⟩
    · rw [hpcbs, Function.update_self]
    · rw [hpcbs, Function.update_of_ne hp]

/-- A process that is entered gets the page and the kernel stack of its slot, which was free
    before. -/
theorem SlotsSound.launched {n : Nat} (hn : n < 6) (hfree : ¬ Taken k.pcb_status n) (hlaunched : Launched k k' n) :
    SlotsSound k' (slotBlock n :: entered) := by
  have hothers := hk.takes hn hfree hlaunched.pcb_status hlaunched.pcb_num fun p hp => hlaunched.other hp
  refine ⟨hothers.six, hothers.pcb_num, fun p hp => ?_⟩
  obtain rfl | hp := List.mem_cons.mp hp
  · refine ⟨n, ?_, rfl, hlaunched.page_addr, hlaunched.esp0⟩
    rw [hlaunched.pcb_status]
    exact (taken_or (by omega) _ _).mpr (.inl rfl)
  · exact hothers.entered p hp

/-- `sys_execute` leaves the slots sound, however it ends. -/
theorem SlotsSound.executed {command : CString} {locals : Locals} {outcome : Outcome}
    (hexecute : sys_execute fs k command locals = some (outcome, k')) :
    SlotsSound (noteEntered k' entered outcome).toKernel (noteEntered k' entered outcome).entered := by
  cases outcome with
  | returned value =>
    obtain ⟨-, -, hrefused⟩ | ⟨-, -, ⟨entry, hentered⟩, -⟩ := sys_execute_cases hexecute
    · exact hk.refused hrefused
    · cases hentered
  | entered entry =>
    obtain ⟨n, hn, hfree, hlaunched⟩ := sys_execute_entered hk.six hexecute
    have hsound := hk.launched hn hfree hlaunched
    rw [← hlaunched.cur_pcb] at hsound
    exact hsound

/-- The slot of a process that halts is free again, and the process no longer counts. -/
theorem SlotsSound.released {n : Nat} (htaken : Taken k.pcb_status n) (hcur : k.cur_pcb = slotBlock n)
    {released : Kernel} (hreleased : Released k released) :
    SlotsSound released (entered.filter (· ≠ slotBlock n)) := by
  have hn := hk.six n htaken
  have hstatus : released.pcb_status = k.pcb_status &&& ~~~(1 <<< UInt32.ofNat n) := by
    rw [hreleased.pcb_status, hcur, haltSlot_block (by omega)]
  have hsame {p : UInt32} (hp : p ≠ slotBlock n) : released.pcbs p = k.pcbs p := by
    rw [hreleased.pcbs, hcur, Function.update_of_ne hp]
  refine ⟨hstatus ▸ sixSlots_clear hk.six _, fun m hm => ?_, fun p hp => ?_⟩
  · rw [hstatus] at hm
    obtain ⟨hne, hm⟩ := (taken_clear (by omega) _ _).mp hm
    have hm6 := hk.six m hm
    rw [hsame fun heq => hne ((slotBlock_inj (by omega) (by omega)).mp heq)]
    exact hk.pcb_num m hm
  · obtain ⟨hp, hne⟩ := List.mem_filter.mp hp
    obtain ⟨m, hm, rfl, hpage, hesp0⟩ := hk.entered p hp
    rw [hsame (of_decide_eq_true hne), hstatus]
    refine ⟨m, (taken_clear (by omega) _ _).mpr ⟨?_, hm⟩, rfl, hpage, hesp0⟩
    rintro rfl
    exact of_decide_eq_true hne rfl

end Steps

/-- One event leaves the slots sound. By cases on it. -/
theorem slotsSound_step {fs : Image} {table table' : SlotTable} {event : SlotEvent}
    (hk : SlotsSound table.toKernel table.entered) (hstep : slotStep fs table event = some table') :
    SlotsSound table'.toKernel table'.entered := by
  cases event with
  | execute command locals =>
    obtain ⟨⟨outcome, k⟩, hexecute, rfl⟩ := Option.map_eq_some_iff.mp hstep
    exact hk.executed hexecute
  | halt n status locals =>
    rw [slotStep] at hstep
    split at hstep
    · rename_i htaken
      obtain ⟨cur_pcb, hcur⟩ : ∃ cur_pcb, slotBlock n = cur_pcb := ⟨_, rfl⟩
      rw [hcur] at hstep
      obtain ⟨⟨halted, k⟩, hhalt, hend⟩ := Option.map_eq_some_iff.mp hstep
      have hbefore : SlotsSound { table.toKernel with cur_pcb } table.entered := ⟨hk.six, hk.pcb_num, hk.entered⟩
      obtain ⟨-, released, -, hreleased, ⟨-, frame, -, rfl, rfl⟩ | ⟨-, outcome, hexecute, rfl⟩⟩ := sys_halt_cases hhalt
      · have hsound := hbefore.released htaken hcur.symm hreleased
        rw [hcur] at hsound
        subst hend
        exact ⟨hsound.six, hsound.pcb_num, hsound.entered⟩
      · have hsound := hbefore.released htaken hcur.symm hreleased
        rw [hcur] at hsound
        have hrestart : SlotsSound (beforeRestart released) (table.entered.filter (· ≠ cur_pcb)) :=
          ⟨hsound.six, hsound.pcb_num, hsound.entered⟩
        subst hend
        exact hrestart.executed hexecute
    · cases hstep

/-- The addresses of a block, of the word at the top of a kernel stack and of a page. -/
def blockRegion (block : UInt32) : Set Nat := Set.Ico block.toNat (block.toNat + 0x2000)

def stackRegion (esp0 : UInt32) : Set Nat := Set.Ico esp0.toNat (esp0.toNat + 4)

def pageRegion (page_addr : UInt32) : Set Nat := Set.Ico page_addr.toNat (page_addr.toNat + 0x400000)

/-- Allocation safety of a state. Kernel stacks and pages are those stored in the blocks. -/
structure AllocationSafe (table : SlotTable) : Prop where
  below : table.pcb_status.toNat < 2 ^ 6
  /-- The slot that `sys_execute` would take next is free, and nothing else changes. -/
  free : our_popcount table.pcb_status ≠ MAX_PROCESSES → ∃ n < 6, ¬ Taken table.pcb_status n ∧
    (init_pcb table.toKernel).1 = slotBlock n ∧
    ((init_pcb table.toKernel).2.pcbs (slotBlock n)).pcb_num = UInt32.ofNat n ∧
    ∀ m, Taken (init_pcb table.toKernel).2.pcb_status m ↔ m = n ∨ Taken table.pcb_status m
  /-- A process is entered on the kernel stack that its block names. -/
  starts : ∀ fs command locals entry k, sys_execute fs table.toKernel command locals = some (.entered entry, k) →
    (∃ n < 6, ¬ Taken table.pcb_status n ∧ k.cur_pcb = slotBlock n) ∧ k.tss_esp0 = (k.pcbs k.cur_pcb).esp0
  recovers : ∀ n, Taken table.pcb_status n → haltSlot (slotBlock n) = (table.pcbs (slotBlock n)).pcb_num
  blocks_within : ∀ n, Taken table.pcb_status n → blockRegion (slotBlock n) ⊆ Set.Ico 0x400000 0x800000
  blocks_disjoint : ∀ n m, Taken table.pcb_status n → Taken table.pcb_status m → n ≠ m →
    Disjoint (blockRegion (slotBlock n)) (blockRegion (slotBlock m))
  /-- The numbers stored for a process that has been entered are those of its slot. -/
  stored : ∀ p ∈ table.entered, ∃ n, Taken table.pcb_status n ∧ p = slotBlock n ∧
    p.toNat = 0x800000 - (n + 1) * 0x2000 ∧ (table.pcbs p).esp0.toNat = 0x800000 - n * 0x2000 - 4 ∧
    (table.pcbs p).page_addr.toNat = 0x800000 + n * 0x400000
  stack_within : ∀ p ∈ table.entered, stackRegion (table.pcbs p).esp0 ⊆ Set.Ico 0x400000 0x800000
  page_within : ∀ p ∈ table.entered, pageRegion (table.pcbs p).page_addr ⊆ Set.Ico 0x800000 0x2000000
  stacks_disjoint : ∀ p ∈ table.entered, ∀ q ∈ table.entered, p ≠ q →
    Disjoint (stackRegion (table.pcbs p).esp0) (stackRegion (table.pcbs q).esp0)
  pages_disjoint : ∀ p ∈ table.entered, ∀ q ∈ table.entered, p ≠ q →
    Disjoint (pageRegion (table.pcbs p).page_addr) (pageRegion (table.pcbs q).page_addr)
  /-- No kernel stack begins in the block of another slot. -/
  stack_block_disjoint : ∀ p ∈ table.entered, ∀ n, Taken table.pcb_status n → p ≠ slotBlock n →
    Disjoint (stackRegion (table.pcbs p).esp0) (blockRegion (slotBlock n))

section Regions

variable {n m : Nat} (hn : n < 6)
include hn

/-- The blocks lie one below the other, from eight megabytes down. -/
theorem mem_blockRegion {a : Nat} :
    a ∈ blockRegion (slotBlock n) ↔ 0x800000 - 0x2000 * (n + 1) ≤ a ∧ a < 0x800000 - 0x2000 * n := by
  rw [blockRegion, slotBlock_toNat (by omega), Set.mem_Ico]
  omega

/-- The top of a kernel stack is the last word of the block of its slot. -/
theorem mem_stackRegion {a : Nat} :
    a ∈ stackRegion (stackTop n) ↔ 0x800000 - 0x2000 * n - 4 ≤ a ∧ a < 0x800000 - 0x2000 * n := by
  rw [stackRegion, stackTop_toNat hn, Set.mem_Ico]
  omega

/-- The pages lie one behind the other, from eight megabytes up. -/
theorem mem_pageRegion {a : Nat} :
    a ∈ pageRegion (programPage n) ↔ 0x800000 + 0x400000 * n ≤ a ∧ a < 0x800000 + 0x400000 * (n + 1) := by
  rw [pageRegion, programPage_toNat hn, Set.mem_Ico]
  omega

/-- Blocks and kernel stacks are in the page of the kernel, and the pages of the programs behind
    it. -/
theorem regions_within : blockRegion (slotBlock n) ⊆ Set.Ico 0x400000 0x800000 ∧
    stackRegion (stackTop n) ⊆ Set.Ico 0x400000 0x800000 ∧
    pageRegion (programPage n) ⊆ Set.Ico 0x800000 0x2000000 := by
  refine ⟨fun a ha => ?_, fun a ha => ?_, fun a ha => ?_⟩
  · rw [mem_blockRegion hn] at ha
    rw [Set.mem_Ico]
    omega
  · rw [mem_stackRegion hn] at ha
    rw [Set.mem_Ico]
    omega
  · rw [mem_pageRegion hn] at ha
    rw [Set.mem_Ico]
    omega

/-- Two slots share neither a block nor a kernel stack nor a page. -/
theorem regions_disjoint (hm : m < 6) (hne : n ≠ m) :
    Disjoint (blockRegion (slotBlock n)) (blockRegion (slotBlock m)) ∧
      Disjoint (stackRegion (stackTop n)) (stackRegion (stackTop m)) ∧
      Disjoint (stackRegion (stackTop n)) (blockRegion (slotBlock m)) ∧
      Disjoint (pageRegion (programPage n)) (pageRegion (programPage m)) := by
  simp only [Set.disjoint_left, mem_blockRegion hn, mem_blockRegion hm, mem_stackRegion hn, mem_stackRegion hm,
    mem_pageRegion hn, mem_pageRegion hm]
  refine ⟨?_, ?_, ?_, ?_⟩ <;> (intro a ha hb; omega)

end Regions

/-- With a slot to spare, `init_pcb` takes one that was free, among the six, and numbers its
    block. -/
theorem init_pcb_free {k : Kernel} (hsix : SixSlots k.pcb_status) (hroom : our_popcount k.pcb_status ≠ MAX_PROCESSES) :
    ∃ n < 6, ¬ Taken k.pcb_status n ∧ (init_pcb k).1 = slotBlock n ∧
      ((init_pcb k).2.pcbs (slotBlock n)).pcb_num = UInt32.ofNat n ∧
      ∀ m, Taken (init_pcb k).2.pcb_status m ↔ m = n ∨ Taken k.pcb_status m := by
  obtain ⟨n, hn, hfind, hfree⟩ := find_empty_pcb_free hsix hroom
  have hinit : init_pcb k =
      (slotBlock n, takeBlock k (UInt32.ofNat n) (k.pcb_status ||| (1 <<< UInt32.ofNat n))) := by
    rw [init_pcb, hfind]
    rfl
  rw [hinit]
  refine ⟨n, hn, hfree, rfl, ?_, fun m => taken_or (by omega) _ _⟩
  simp [takeBlock, Kernel.setPcb, slotBlock, cleanBlock]

/-- Sound slots are safe, since the regions of different slots are disjoint. -/
theorem SlotsSound.safe {table : SlotTable} (hk : SlotsSound table.toKernel table.entered) : AllocationSafe table where
  below := (sixSlots_iff _).mp hk.six
  free := init_pcb_free hk.six
  starts fs command locals entry k hexecute := by
    obtain ⟨n, hn, hfree, hlaunched⟩ := sys_execute_entered hk.six hexecute
    refine ⟨⟨n, hn, hfree, hlaunched.cur_pcb⟩, ?_⟩
    rw [hlaunched.cur_pcb, hlaunched.esp0, hlaunched.tss_esp0]
  recovers n hn := by
    rw [hk.pcb_num n hn]
    exact haltSlot_block (Nat.lt_trans (hk.six n hn) (by decide))
  blocks_within n hn := (regions_within (hk.six n hn)).1
  blocks_disjoint n m hn hm hne := (regions_disjoint (hk.six n hn) (hk.six m hm) hne).1
  stored p hp := by
    obtain ⟨n, hn, rfl, hpage, hesp0⟩ := hk.entered p hp
    have hn6 := hk.six n hn
    refine ⟨n, hn, rfl, ?_, ?_, ?_⟩
    · rw [slotBlock_toNat (by omega), Nat.mul_comm]
    · rw [hesp0, stackTop_toNat hn6, Nat.mul_comm]
    · rw [hpage, programPage_toNat hn6, Nat.mul_comm]
  stack_within p hp := by
    obtain ⟨n, hn, -, -, hesp0⟩ := hk.entered p hp
    rw [hesp0]
    exact (regions_within (hk.six n hn)).2.1
  page_within p hp := by
    obtain ⟨n, hn, -, hpage, -⟩ := hk.entered p hp
    rw [hpage]
    exact (regions_within (hk.six n hn)).2.2
  stacks_disjoint p hp q hq hne := by
    obtain ⟨n, hn, rfl, -, hesp0⟩ := hk.entered p hp
    obtain ⟨m, hm, rfl, -, hesp0'⟩ := hk.entered q hq
    rw [hesp0, hesp0']
    exact (regions_disjoint (hk.six n hn) (hk.six m hm) fun heq => hne (heq ▸ rfl)).2.1
  pages_disjoint p hp q hq hne := by
    obtain ⟨n, hn, rfl, hpage, -⟩ := hk.entered p hp
    obtain ⟨m, hm, rfl, hpage', -⟩ := hk.entered q hq
    rw [hpage, hpage']
    exact (regions_disjoint (hk.six n hn) (hk.six m hm) fun heq => hne (heq ▸ rfl)).2.2.2
  stack_block_disjoint p hp m hm hne := by
    obtain ⟨n, hn, rfl, -, hesp0⟩ := hk.entered p hp
    rw [hesp0]
    exact (regions_disjoint (hk.six n hn) (hk.six m hm) fun heq => hne (heq ▸ rfl)).2.2.1

end lacos.syscalls
