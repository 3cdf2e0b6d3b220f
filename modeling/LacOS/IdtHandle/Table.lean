import Mathlib.Algebra.GroupWithZero.Nat
import Mathlib.Logic.Function.Basic
import Mathlib.Tactic.Common

namespace lacos.idt_handle

/-- The wrappers of the handlers, by their names without the underscore. -/
inductive Wrapper where
  | divide_by_zero
  | reserved
  | non_maskable_interrupt
  | breakpoint
  | overflow
  | bound_range_exceeded
  | undefined_opcode
  | no_math_coprocessor
  | double_fault
  | coprocessor_overrun
  | invalid_tss
  | segment_not_present
  | stack_segment_fault
  | general_protection
  | page_fault
  | intel_reserved
  | floating_point_error
  | alignment_check
  | machine_check
  | floating_point_except
  | pit_intr
  | keyboard_intr
  | rtc_intr
  | mouse_intr
  | syscall
  deriving DecidableEq

def except_ptr : List Wrapper :=
  [.divide_by_zero, .reserved, .non_maskable_interrupt, .breakpoint, .overflow, .bound_range_exceeded,
    .undefined_opcode, .no_math_coprocessor, .double_fault, .coprocessor_overrun, .invalid_tss, .segment_not_present,
    .stack_segment_fault, .general_protection, .page_fault, .intel_reserved, .floating_point_error, .alignment_check,
    .machine_check, .floating_point_except]

def intr_ptr : List (Option Wrapper) :=
  [some .pit_intr, some .keyboard_intr, none, none, none, none, none, none,
    some .rtc_intr, none, none, none, some .mouse_intr, none, none, none]

abbrev USED_EXCEPTIONS : Nat := 20
abbrev NUM_VEC : Nat := 256
abbrev KERNEL_CS : UInt16 := 0x0010

/-- An entry of the table, with its bit fields. -/
structure idt_desc_t where
  offset_15_00 : UInt16
  seg_selector : UInt16
  reserved4 : UInt8
  reserved3 : Bool
  reserved2 : Bool
  reserved1 : Bool
  size : Bool
  reserved0 : Bool
  dpl : Fin 4
  present : Bool
  offset_31_16 : UInt16
  deriving Inhabited

def SET_TRAP_GATE (str : idt_desc_t) : idt_desc_t :=
  { str with
    seg_selector := KERNEL_CS, reserved4 := 0x00, reserved3 := true, reserved2 := true, reserved1 := true
    size := true, reserved0 := false, dpl := 0, present := true }

def SET_INTR_GATE (str : idt_desc_t) : idt_desc_t :=
  { str with
    seg_selector := KERNEL_CS, reserved4 := 0x00, reserved3 := false, reserved2 := true, reserved1 := true
    size := true, reserved0 := false, dpl := 0, present := true }

def SET_IDT_ENTRY (str : idt_desc_t) (handler : UInt32) : idt_desc_t :=
  { str with
    offset_31_16 := ((handler &&& 0xFFFF0000) >>> 16).toUInt16
    offset_15_00 := (handler &&& 0xFFFF).toUInt16 }

section Init

-- Where the linker has put the wrappers.
variable (address : Wrapper → UInt32)

/-- A loop that sets the entries of the handlers in a list, from the index `i` on, and skips
    the places without a handler. -/
def fill : List (Option Wrapper) → Nat → idt_desc_t → (Nat → idt_desc_t) → idt_desc_t × (Nat → idt_desc_t)
  | [], _, idt_entry, idt => (idt_entry, idt)
  | none :: handlers, i, idt_entry, idt => fill handlers (i + 1) idt_entry idt
  | some handler :: handlers, i, idt_entry, idt =>
    let idt_entry := SET_IDT_ENTRY idt_entry (address handler)
    fill handlers (i + 1) idt_entry (Function.update idt i idt_entry)

/-- `idt_init`, with what its local variables and the table hold before. -/
def idt_init (idt_entry empty_entry : idt_desc_t) (idt : Nat → idt_desc_t) : Nat → idt_desc_t :=
  let empty_entry := { empty_entry with present := false }
  let (idt_entry, idt) := fill address (except_ptr.map some) 0 (SET_INTR_GATE idt_entry) idt
  let idt := (List.range' USED_EXCEPTIONS (NUM_VEC - USED_EXCEPTIONS)).foldl
    (fun idt i => Function.update idt i empty_entry) idt
  let (idt_entry, idt) := fill address intr_ptr 32 idt_entry idt
  let idt_entry := { SET_TRAP_GATE idt_entry with dpl := 3 }
  Function.update idt 128 (SET_IDT_ENTRY idt_entry (address .syscall))

end Init

/-- The eight bytes of an entry as the processor reads them. -/
def idt_desc_t.bits (d : idt_desc_t) : Nat :=
  d.offset_15_00.toNat + 2 ^ 16 * d.seg_selector.toNat + 2 ^ 32 * d.reserved4.toNat + 2 ^ 40 * d.reserved3.toNat +
    2 ^ 41 * d.reserved2.toNat + 2 ^ 42 * d.reserved1.toNat + 2 ^ 43 * d.size.toNat + 2 ^ 44 * d.reserved0.toNat +
    2 ^ 45 * d.dpl.val + 2 ^ 47 * d.present.toNat + 2 ^ 48 * d.offset_31_16.toNat

/-- What the processor does with an interrupt: it goes to a handler, with interrupts off or
    as they were, or raises an exception instead. -/
inductive Delivery where
  | handler (segment offset : Nat) (interrupts_off : Bool)
  | fault (vector : Nat)
  deriving DecidableEq

abbrev INTERRUPT_GATE : Nat := 0b01110
abbrev TRAP_GATE : Nat := 0b01111

/-- The processor's way through the table. An `INT` instruction names the privilege level it
    was executed at; the processor's own interrupts have none. -/
def deliver (table : Nat → Nat) (vector : Nat) (cpl : Option Nat) : Delivery :=
  let gate := table vector
  let kind := gate / 2 ^ 40 % 2 ^ 5
  if kind ≠ INTERRUPT_GATE ∧ kind ≠ TRAP_GATE then .fault 13
  else if cpl.any (gate / 2 ^ 45 % 4 < ·) then .fault 13
  else if gate / 2 ^ 47 % 2 = 0 then .fault 11
  else .handler (gate / 2 ^ 16 % 2 ^ 16) (gate % 2 ^ 16 + 2 ^ 16 * (gate / 2 ^ 48 % 2 ^ 16)) (kind = INTERRUPT_GATE)

/-- The handlers as they are meant: by vector. -/
def handlerOf (vector : Nat) : Option Wrapper :=
  if vector < 20 then except_ptr[vector]?
  else if vector = 0x80 then some .syscall
  else if 32 ≤ vector then intr_ptr[vector - 32]?.join
  else none

section Fill

variable {address : Wrapper → UInt32}

/-- An interrupt gate to a handler. -/
def IntrGate (address : Wrapper → UInt32) (handler : Wrapper) (d : idt_desc_t) : Prop :=
  ∃ str, d = SET_IDT_ENTRY (SET_INTR_GATE str) (address handler)

/-- What one of the loops does to the table. -/
structure Filled (address : Wrapper → UInt32) (handlers : List (Option Wrapper)) (i : Nat)
    (idt idt' : Nat → idt_desc_t) : Prop where
  gate : ∀ j handler, handlers[j]? = some (some handler) → IntrGate address handler (idt' (i + j))
  other : ∀ v, (∀ j handler, handlers[j]? = some (some handler) → v ≠ i + j) → idt' v = idt v

/-- The loop fills the entries of its handlers and no others. -/
theorem fill_filled (handlers : List (Option Wrapper)) (i : Nat) (str : idt_desc_t) (idt : Nat → idt_desc_t) :
    ∃ str' idt', fill address handlers i (SET_INTR_GATE str) idt = (SET_INTR_GATE str', idt') ∧
      Filled address handlers i idt idt' := by
  induction handlers generalizing i str idt with
  | nil => exact ⟨str, idt, rfl, nofun, fun _ _ => rfl⟩
  | cons entry handlers ih =>
    cases entry with
    | none =>
      obtain ⟨str', idt', hfill, hfilled⟩ := ih (i + 1) str idt
      refine ⟨str', idt', hfill, fun j handler hj => ?_, fun v hv => hfilled.other v fun j handler hj => ?_⟩
      · cases j with
        | zero => cases hj
        | succ j =>
          have hgate := hfilled.gate j handler hj
          rwa [Nat.add_right_comm] at hgate
      · have hne := hv (j + 1) handler hj
        omega
    | some handler =>
      -- The entry that is written here is kept by the rest of the loop.
      obtain ⟨str', idt', hfill, hfilled⟩ := ih (i + 1) (SET_IDT_ENTRY str (address handler))
        (Function.update idt i (SET_IDT_ENTRY (SET_INTR_GATE str) (address handler)))
      refine ⟨str', idt', hfill, fun j handler' hj => ?_, fun v hv => ?_⟩
      · cases j with
        | zero =>
          cases hj
          rw [hfilled.other (i + 0) fun j handler _ => by omega]
          exact ⟨str, Function.update_self _ _ _⟩
        | succ j =>
          have hgate := hfilled.gate j handler' hj
          rwa [Nat.add_right_comm] at hgate
      · rw [hfilled.other v fun j handler hj => ?_]
        · exact Function.update_of_ne (hv 0 handler rfl) _ _
        · have hne := hv (j + 1) handler hj
          omega

theorem foldl_update_const {d : idt_desc_t} (l : List Nat) (idt : Nat → idt_desc_t) (v : Nat) :
    l.foldl (fun idt i => Function.update idt i d) idt v = if v ∈ l then d else idt v := by
  induction l generalizing idt with
  | nil => rfl
  | cons i l ih =>
    rw [List.foldl_cons, ih]
    by_cases hv : v ∈ l
    · rw [if_pos hv, if_pos (List.mem_cons_of_mem _ hv)]
    · by_cases hi : v = i
      · rw [if_neg hv, hi, Function.update_self, if_pos List.mem_cons_self]
      · rw [if_neg hv, Function.update_of_ne hi, if_neg (by simp [hv, hi])]

end Fill

/-- The table after `idt_init`: the system call has a trap gate for user programs, the other
    handlers have interrupt gates, and nothing else is present. -/
structure Table (address : Wrapper → UInt32) (idt : Nat → idt_desc_t) : Prop where
  gate : ∀ v handler, handlerOf v = some handler → v ≠ 0x80 → IntrGate address handler (idt v)
  syscall : ∃ str, idt 0x80 = SET_IDT_ENTRY { SET_TRAP_GATE str with dpl := 3 } (address .syscall)
  absent : ∀ v < NUM_VEC, handlerOf v = none → (idt v).present = false

/-- What `idt_init` leaves, whatever the table held before. -/
theorem idt_init_table (address : Wrapper → UInt32) (idt_entry empty_entry : idt_desc_t) (idt : Nat → idt_desc_t) :
    Table address (idt_init address idt_entry empty_entry idt) := by
  obtain ⟨str₁, idt₁, hfill₁, hfilled₁⟩ := @fill_filled address (except_ptr.map some) 0 idt_entry idt
  obtain ⟨idt₂, hidt₂⟩ : ∃ idt₂, (List.range' USED_EXCEPTIONS (NUM_VEC - USED_EXCEPTIONS)).foldl
    (fun idt i => Function.update idt i { empty_entry with present := false }) idt₁ = idt₂ := ⟨_, rfl⟩
  obtain ⟨str₃, idt₃, hfill₃, hfilled₃⟩ := @fill_filled address intr_ptr 32 str₁ idt₂
  have hinit : idt_init address idt_entry empty_entry idt = Function.update idt₃ 128
      (SET_IDT_ENTRY { SET_TRAP_GATE (SET_INTR_GATE str₃) with dpl := 3 } (address .syscall)) := by
    simp only [idt_init, hfill₁, hidt₂, hfill₃]
  have hempty (v : Nat) : idt₂ v = if 20 ≤ v ∧ v < 256 then { empty_entry with present := false } else idt₁ v := by
    rw [← hidt₂, foldl_update_const]
    simp only [List.mem_range'_1]
    rfl
  rw [hinit]
  refine ⟨fun v handler hv hne => ?_, ⟨_, Function.update_self _ _ _⟩, fun v hlt hv => ?_⟩
  · rw [Function.update_of_ne hne]
    rw [handlerOf] at hv
    by_cases hexception : v < 20
    · rw [if_pos hexception] at hv
      have hgate := hfilled₁.gate v handler (by rw [List.getElem?_map, hv]; rfl)
      rwa [hfilled₃.other v fun j _ _ => by omega, hempty, if_neg (by omega), ← Nat.zero_add v]
    · rw [if_neg hexception, if_neg hne] at hv
      by_cases hdevice : 32 ≤ v
      · rw [if_pos hdevice] at hv
        have hgate := hfilled₃.gate (v - 32) handler (Option.join_eq_some_iff.mp hv)
        rwa [Nat.add_sub_cancel' hdevice] at hgate
      · rw [if_neg hdevice] at hv
        cases hv
  · have hexception : ¬ v < 20 := by
      intro hv'
      rw [handlerOf, if_pos hv', List.getElem?_eq_none_iff] at hv
      exact absurd hv (Nat.not_le.mpr hv')
    have hsyscall : v ≠ 128 := by
      rintro rfl
      cases hv
    have hdevice (j : Nat) (handler : Wrapper) (hj : intr_ptr[j]? = some (some handler)) : v ≠ 32 + j := by
      rintro rfl
      rw [handlerOf, if_neg hexception, if_neg hsyscall, if_pos (by omega), Nat.add_sub_cancel_left, hj] at hv
      cases hv
    rw [Function.update_of_ne hsyscall, hfilled₃.other v hdevice, hempty, if_pos ⟨Nat.not_lt.mp hexception, hlt⟩]

section Decode

variable (d : idt_desc_t)

/-- The fields that the processor finds in the eight bytes. -/
theorem bits_fields : d.bits / 2 ^ 40 % 2 ^ 5 = d.reserved3.toNat + 2 * d.reserved2.toNat + 4 * d.reserved1.toNat +
      8 * d.size.toNat + 16 * d.reserved0.toNat ∧
    d.bits / 2 ^ 45 % 4 = d.dpl ∧ d.bits / 2 ^ 47 % 2 = d.present.toNat ∧
    d.bits / 2 ^ 16 % 2 ^ 16 = d.seg_selector.toNat ∧
    d.bits % 2 ^ 16 + 2 ^ 16 * (d.bits / 2 ^ 48 % 2 ^ 16) = d.offset_15_00.toNat + 2 ^ 16 * d.offset_31_16.toNat := by
  have hlow := d.offset_15_00.toNat_lt
  have hhigh := d.offset_31_16.toNat_lt
  have hselector := d.seg_selector.toNat_lt
  have hreserved4 := d.reserved4.toNat_lt
  have h3 := Bool.toNat_le d.reserved3
  have h2 := Bool.toNat_le d.reserved2
  have h1 := Bool.toNat_le d.reserved1
  have hsize := Bool.toNat_le d.size
  have h0 := Bool.toNat_le d.reserved0
  have hdpl := d.dpl.isLt
  have hpresent := Bool.toNat_le d.present
  simp only [idt_desc_t.bits]
  omega

/-- The two halves of an address. -/
theorem halves (handler : UInt32) :
    (handler &&& 0xFFFF).toUInt16.toNat + 2 ^ 16 * ((handler &&& 0xFFFF0000) >>> 16).toUInt16.toNat =
      handler.toNat := by
  have hlt := handler.toNat_lt
  have hlow : (handler &&& 0xFFFF).toUInt16.toNat = handler.toNat % 2 ^ 16 := by
    rw [UInt32.toNat_toUInt16, UInt32.toNat_and, show (0xFFFF : UInt32).toNat = 2 ^ 16 - 1 from rfl,
      Nat.and_two_pow_sub_one_eq_mod, Nat.mod_mod]
  have hhigh : ((handler &&& 0xFFFF0000) >>> 16).toUInt16.toNat = handler.toNat / 2 ^ 16 := by
    rw [UInt32.toNat_toUInt16, UInt32.toNat_shiftRight, UInt32.toNat_and, show (16 : UInt32).toNat % 32 = 16 from rfl,
      Nat.shiftRight_and_distrib, show (0xFFFF0000 : UInt32).toNat >>> 16 = 2 ^ 16 - 1 from rfl,
      Nat.and_two_pow_sub_one_eq_mod, Nat.mod_mod, Nat.shiftRight_eq_div_pow]
    omega
  omega

end Decode

section Deliver

variable {address : Wrapper → UInt32} {table : Nat → Nat} {v : Nat}

/-- What the processor does with a gate. -/
theorem deliver_present {str : idt_desc_t} {kind : Nat} {handler : UInt32}
    (htable : table v = (SET_IDT_ENTRY str handler).bits) (hpresent : str.present = true)
    (hkind : str.reserved3.toNat + 2 * str.reserved2.toNat + 4 * str.reserved1.toNat + 8 * str.size.toNat +
      16 * str.reserved0.toNat = kind) (hgate : kind = INTERRUPT_GATE ∨ kind = TRAP_GATE) (cpl : Option Nat) :
    deliver table v cpl = if cpl.any (str.dpl.val < ·) then .fault 13
      else .handler str.seg_selector.toNat handler.toNat (kind = INTERRUPT_GATE) := by
  obtain ⟨hkind', hdpl, hpresent', hselector, hoffset⟩ := bits_fields (SET_IDT_ENTRY str handler)
  rw [← htable] at hkind' hdpl hpresent' hselector hoffset
  have hvalid : ¬ (kind ≠ INTERRUPT_GATE ∧ kind ≠ TRAP_GATE) := fun h => hgate.elim h.1 h.2
  have hset : (SET_IDT_ENTRY str handler).present.toNat = 1 := congrArg Bool.toNat hpresent
  have haddress := halves handler
  simp only [deliver, hkind'.trans hkind, hdpl, hpresent'.trans hset, hselector, hoffset.trans haddress,
    if_neg hvalid, Nat.one_ne_zero, if_false]
  rfl

/-- An interrupt gate is for the processor itself and for the kernel. -/
theorem deliver_intr {handler : Wrapper} {d : idt_desc_t} (hgate : IntrGate address handler d)
    (htable : table v = d.bits) (cpl : Option Nat) : deliver table v cpl =
      if cpl.any (0 < ·) then .fault 13 else .handler KERNEL_CS.toNat (address handler).toNat true := by
  obtain ⟨str, rfl⟩ := hgate
  exact deliver_present htable rfl rfl (.inl rfl) cpl

/-- The trap gate of the system calls is for everyone. -/
theorem deliver_syscall {str : idt_desc_t}
    (htable : table v = (SET_IDT_ENTRY { SET_TRAP_GATE str with dpl := 3 } (address .syscall)).bits)
    (cpl : Option Nat) : deliver table v cpl =
      if cpl.any (3 < ·) then .fault 13 else .handler KERNEL_CS.toNat (address .syscall).toNat false :=
  deliver_present htable rfl rfl (.inr rfl) cpl

/-- A vector without a handler faults, for a program as for the kernel. -/
theorem deliver_absent {d : idt_desc_t} (hpresent : d.present = false) (htable : table v = d.bits)
    (cpl : Option Nat) : deliver table v cpl = .fault 13 ∨ deliver table v cpl = .fault 11 := by
  have hpresent' : table v / 2 ^ 47 % 2 = 0 := by
    rw [htable, (bits_fields d).2.2.1, hpresent]
    rfl
  simp only [deliver, hpresent', if_true]
  split
  · exact .inl rfl
  · split
    · exact .inl rfl
    · exact .inr rfl

end Deliver

/-- The way to a handler, where an exception that takes the place of the interrupt goes
    through the table itself. -/
def enter (table : Nat → Nat) (vector : Nat) (cpl : Option Nat) : Delivery :=
  match deliver table vector cpl with
  | .handler segment offset interrupts_off => .handler segment offset interrupts_off
  | .fault vector => deliver table vector none

/-- Wherever the linker has put the handlers, and whatever was on the stack, the table of
    `idt_init` leads each exception and device to its own handler with interrupts off. A user
    program gets to the system calls by `INT 0x80`, with interrupts as they were, and by any
    other `INT` to one of the two handlers of a forbidden one. -/
theorem interrupts_reach_handlers (address : Wrapper → UInt32) (idt_entry empty_entry : idt_desc_t)
    (idt : Nat → idt_desc_t) :
    let table := fun v => (idt_init address idt_entry empty_entry idt v).bits
    (∀ v handler, handlerOf v = some handler →
      deliver table v none = .handler KERNEL_CS.toNat (address handler).toNat (v ≠ 0x80)) ∧
    (∀ v < NUM_VEC, handlerOf v = none → deliver table v none = .fault 13 ∨ deliver table v none = .fault 11) ∧
    enter table 0x80 (some 3) = .handler KERNEL_CS.toNat (address .syscall).toNat false ∧
    ∀ v < NUM_VEC, v ≠ 0x80 → ∃ handler ∈ [Wrapper.general_protection, Wrapper.segment_not_present],
      enter table v (some 3) = .handler KERNEL_CS.toNat (address handler).toNat true := by
  intro table
  have htable := idt_init_table address idt_entry empty_entry idt
  obtain ⟨str, hsyscall⟩ := htable.syscall
  have hsyscall' : table 0x80 = (SET_IDT_ENTRY { SET_TRAP_GATE str with dpl := 3 } (address .syscall)).bits :=
    congrArg idt_desc_t.bits hsyscall
  have hgate (v : Nat) (handler : Wrapper) (hv : handlerOf v = some handler) (hne : v ≠ 0x80) (cpl : Option Nat) :
      deliver table v cpl =
        if cpl.any (0 < ·) then .fault 13 else .handler KERNEL_CS.toNat (address handler).toNat true :=
    deliver_intr (htable.gate v handler hv hne) rfl cpl
  have hforbidden (f : Nat) (hf : f = 13 ∨ f = 11) : ∃ handler ∈ [Wrapper.general_protection,
      Wrapper.segment_not_present], deliver table f none = .handler KERNEL_CS.toNat (address handler).toNat true := by
    obtain rfl | rfl := hf
    · exact ⟨_, List.mem_cons_self, hgate 13 .general_protection rfl (by decide) none⟩
    · exact ⟨_, List.mem_cons_of_mem _ List.mem_cons_self, hgate 11 .segment_not_present rfl (by decide) none⟩
  refine ⟨fun v handler hv => ?_, fun v hlt hv => ?_, ?_, fun v hlt hne => ?_⟩
  · by_cases hne : v = 0x80
    · subst hne
      cases hv
      exact deliver_syscall hsyscall' none
    · rw [hgate v handler hv hne none, decide_eq_true hne]
      rfl
  · exact deliver_absent (htable.absent v hlt hv) rfl none
  · rw [enter, deliver_syscall hsyscall' (some 3)]
    rfl
  · have hfault : deliver table v (some 3) = .fault 13 ∨ deliver table v (some 3) = .fault 11 := by
      cases hv : handlerOf v with
      | none => exact deliver_absent (htable.absent v hlt hv) rfl (some 3)
      | some handler => exact .inl (hgate v handler hv hne (some 3))
    obtain hfault | hfault := hfault
    · rw [enter, hfault]
      exact hforbidden 13 (.inl rfl)
    · rw [enter, hfault]
      exact hforbidden 11 (.inr rfl)

end lacos.idt_handle
