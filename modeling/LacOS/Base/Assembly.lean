import LacOS.Base.Stack
import Mathlib.Computability.StateTransition

open memory stack

namespace assembly

inductive Reg where
  | eax | ecx | edx | ebx | esp | ebp | esi | edi
  deriving DecidableEq, Repr

/-- What an instruction works on that does not change where the code goes on. -/
structure Core where
  eax : UInt32
  ecx : UInt32
  edx : UInt32
  ebx : UInt32
  esp : UInt32
  ebp : UInt32
  esi : UInt32
  edi : UInt32
  eflags : UInt32
  mem : Mem

/-- The processor. The low two bits of `cs` are its privilege level. -/
structure Cpu extends Core where
  eip : UInt32
  cs : UInt32
  ss : UInt32

def Core.get (s : Core) : Reg → UInt32
  | .eax => s.eax
  | .ecx => s.ecx
  | .edx => s.edx
  | .ebx => s.ebx
  | .esp => s.esp
  | .ebp => s.ebp
  | .esi => s.esi
  | .edi => s.edi

def Core.set (s : Core) (v : UInt32) : Reg → Core
  | .eax => { s with eax := v }
  | .ecx => { s with ecx := v }
  | .edx => { s with edx := v }
  | .ebx => { s with ebx := v }
  | .esp => { s with esp := v }
  | .ebp => { s with ebp := v }
  | .esi => { s with esi := v }
  | .edi => { s with edi := v }

def Core.push (s : Core) (v : UInt32) : Core :=
  { s with esp := s.esp - 4, mem := store32 s.mem (s.esp - 4) v }

def Core.pushAll (s : Core) (ws : List UInt32) : Core :=
  ws.foldl Core.push s

def Core.top (s : Core) : UInt32 :=
  load32 s.mem s.esp

def Core.drop (s : Core) : Core :=
  { s with esp := s.esp + 4 }

/-- The word `i` places above the top of the stack. -/
def Core.word (s : Core) (i : Nat) : UInt32 :=
  load32 s.mem (s.esp + UInt32.ofNat (4 * i))

section Flags

def ZERO : Nat := 6

def SIGN : Nat := 7

def INTERRUPT : Nat := 9

def OVERFLOW : Nat := 11

def flag (flags : UInt32) (i : Nat) : Bool :=
  flags.toBitVec.getLsbD i

def setFlag (flags : UInt32) (i : Nat) (b : Bool) : UInt32 :=
  .ofBitVec (if b then flags.toBitVec ||| BitVec.twoPow 32 i else flags.toBitVec &&& ~~~BitVec.twoPow 32 i)

/-- The flags a subtraction leaves. -/
def differenceFlags (flags a b : UInt32) : UInt32 :=
  let sign := (a - b).toBitVec.msb
  let overflow := a.toBitVec.msb != b.toBitVec.msb && sign != a.toBitVec.msb
  setFlag (setFlag (setFlag flags ZERO (a == b)) SIGN sign) OVERFLOW overflow

def lessOrEqual (flags : UInt32) : Bool :=
  flag flags ZERO || flag flags SIGN != flag flags OVERFLOW

@[simp] theorem flag_setFlag (flags : UInt32) {i : Nat} (b : Bool) (hi : i < 32) :
    flag (setFlag flags i b) i = b := by
  cases b <;> simp [flag, setFlag, hi]

/-- Setting one flag leaves the others alone, whatever bits they are. -/
@[simp] theorem flag_setFlag_of_ne (flags : UInt32) {i j : Nat} (b : Bool) (hij : j ≠ i) :
    flag (setFlag flags i b) j = flag flags j := by
  have htwo : (BitVec.twoPow 32 i).getLsbD j = false := by
    rw [BitVec.getLsbD_twoPow]
    simp [hij.symm]
  cases b with
  | false =>
    by_cases hj : j < 32
    · simp [flag, setFlag, htwo, hj, -BitVec.getLsbD_eq_getElem]
    · simp [flag, BitVec.getLsbD_of_ge _ j (Nat.le_of_not_lt hj)]
  | true => simp [flag, setFlag, htwo]

/-- After a comparison the test for less or equal is the one of signed numbers. -/
theorem lessOrEqual_difference (flags a b : UInt32) :
    lessOrEqual (differenceFlags flags a b) = decide (a.toBitVec.toInt ≤ b.toBitVec.toInt) := by
  have hzero : flag (differenceFlags flags a b) ZERO = (a == b) := by
    simp [differenceFlags, ZERO, SIGN, OVERFLOW]
  have hsign : flag (differenceFlags flags a b) SIGN = (a - b).toBitVec.msb := by
    simp [differenceFlags, SIGN, OVERFLOW]
  have hoverflow : flag (differenceFlags flags a b) OVERFLOW =
      (a.toBitVec.msb != b.toBitVec.msb && (a - b).toBitVec.msb != a.toBitVec.msb) := by
    simp [differenceFlags, OVERFLOW]
  have ha := a.toNat_lt
  have hb := b.toNat_lt
  have hdifference := UInt32.toNat_sub a b
  have hequal : (a == b) = decide (a.toNat = b.toNat) := by
    rw [Bool.eq_iff_iff, beq_iff_eq, decide_eq_true_iff, UInt32.toNat_inj]
  rw [lessOrEqual, hzero, hsign, hoverflow, hequal]
  simp only [BitVec.msb_eq_decide, BitVec.toInt_eq_toNat_cond, UInt32.toNat_toBitVec]
  by_cases hlow : a.toNat < 2 ^ 31 <;> by_cases hlow' : b.toNat < 2 ^ 31 <;>
    simp <;> grind

end Flags

inductive Operand where
  | imm (v : UInt32)
  | reg (r : Reg)
  | at (disp : UInt32) (base : Reg)

def Core.value (s : Core) : Operand → UInt32
  | .imm v => v
  | .reg r => s.get r
  | .at disp base => load32 s.mem (s.get base + disp)

/-- The instructions after which the next one in the code runs. -/
inductive Op where
  | pushl (src : Operand)
  | pushal
  | popl (r : Reg)
  | popal
  | movl (src : Operand) (r : Reg)
  | subl (src : Operand) (r : Reg)
  | cmpl (src : Operand) (r : Reg)

def Op.exec (s : Core) : Op → Core
  | .pushl src => s.push (s.value src)
  | .pushal => s.pushAll [s.eax, s.ecx, s.edx, s.ebx, s.esp, s.ebp, s.esi, s.edi]
  | .popl r => s.drop.set s.top r
  | .popal =>
    -- The word where `pushal` left the stack pointer is passed over.
    { s with
      edi := s.word 0, esi := s.word 1, ebp := s.word 2
      ebx := s.word 4, edx := s.word 5, ecx := s.word 6, eax := s.word 7
      esp := s.esp + 32 }
  | .movl src r => s.set (s.value src) r
  | .subl src r =>
    { s.set (s.get r - s.value src) r with eflags := differenceFlags s.eflags (s.get r) (s.value src) }
  | .cmpl src r => { s with eflags := differenceFlags s.eflags (s.get r) (s.value src) }

inductive Instr where
  | op (o : Op)
  | jle (target : UInt32)
  | jg (target : UInt32)
  | jmp (target : UInt32)
  | call (target : UInt32)
  | call_table (table : UInt32) (index : Reg)
  | ret
  | int (vector : UInt8)
  | iret

/-- An entry of the interrupt table. An interrupt gate turns interrupts off. -/
structure Gate where
  target : UInt32
  interrupt : Bool

/-- The code in memory, the interrupt table, and the kernel's segments and stack, where an
    interrupt from a program goes on. -/
structure System where
  code : UInt32 → Option Instr
  gates : UInt8 → Option Gate
  cs0 : UInt32
  ss0 : UInt32
  esp0 : UInt32

def Cpu.user (s : Cpu) : Bool :=
  s.cs &&& 3 == 3

def Cpu.go (s : Cpu) (target : UInt32) : Cpu :=
  { s with eip := target }

def Cpu.next (s : Cpu) : Cpu :=
  s.go (s.eip + 1)

def Cpu.call (s : Cpu) (target : UInt32) : Cpu :=
  { s with toCore := s.toCore.push (s.eip + 1), eip := target }

/-- What an interrupt leaves on the stack, for the return to what it interrupted. -/
def Cpu.frame (s : Cpu) : List UInt32 :=
  (if s.user then [s.ss, s.esp] else []) ++ [s.eflags, s.cs, s.eip]

/-- Where an interrupt finds its stack. The processor changes to the kernel's if a program
    was running. -/
def System.stackOf (system : System) (s : Cpu) : UInt32 :=
  if s.user then system.esp0 else s.esp

def System.enter (system : System) (gate : Gate) (s : Cpu) : Cpu :=
  { s with
    esp := system.stackOf s - UInt32.ofNat (4 * s.frame.length)
    mem := pushWords s.mem (system.stackOf s) s.frame
    eflags := if gate.interrupt then setFlag s.eflags INTERRUPT false else s.eflags
    eip := gate.target
    cs := system.cs0
    ss := if s.user then system.ss0 else s.ss }

def Cpu.iret (s : Cpu) : Cpu :=
  let inner : Cpu := { s with eip := s.word 0, cs := s.word 1, eflags := s.word 2, esp := s.esp + 12 }
  if inner.user then { inner with esp := s.word 3, ss := s.word 4 } else inner

def System.step (system : System) (s : Cpu) : Option Cpu :=
  (system.code s.eip).bind fun
    | .op o => some { s.next with toCore := o.exec s.toCore }
    | .jle target => some (if lessOrEqual s.eflags then s.go target else s.next)
    | .jg target => some (if lessOrEqual s.eflags then s.next else s.go target)
    | .jmp target => some (s.go target)
    | .call target => some (s.call target)
    | .call_table table index => some (s.call (load32 s.mem (table + 4 * s.get index)))
    | .ret => some { s with toCore := s.toCore.drop, eip := s.toCore.top }
    | .int vector => (system.gates vector).map fun gate => system.enter gate s.next
    | .iret => some s.iret

/-- The processor comes from one state to another. -/
def System.Reaches (system : System) : Cpu → Cpu → Prop :=
  StateTransition.Reaches system.step

/-- A piece of code stands at an address. -/
def System.Loaded (system : System) (base : UInt32) (block : List Instr) : Prop :=
  ∀ i instr, block[i]? = some instr → system.code (base + UInt32.ofNat i) = some instr

/-- What a C function leaves as it was when it has returned to its caller: the registers
    that belong to the caller, and the `kept` bytes of the stack above its arguments. -/
structure Returned (s s' : Cpu) (args kept : Nat) : Prop where
  eip : s'.eip = s.toCore.top
  esp : s'.esp = s.esp + 4
  ebx : s'.ebx = s.ebx
  ebp : s'.ebp = s.ebp
  esi : s'.esi = s.esi
  edi : s'.edi = s.edi
  cs : s'.cs = s.cs
  ss : s'.ss = s.ss
  stack : Keeps s.mem s'.mem (s.esp + UInt32.ofNat (4 + 4 * args)) kept

section Push

variable (s : Core)

/-- Pushing words one by one writes them below the stack pointer, the last one on top, and moves
    the pointer down by four bytes for each. -/
theorem pushAll_eq (ws : List UInt32) :
    s.pushAll ws =
      { s with esp := s.esp - UInt32.ofNat (4 * ws.length), mem := pushWords s.mem s.esp ws } := by
  induction ws generalizing s with
  | nil => simp [Core.pushAll, pushWords]
  | cons w ws ih =>
    have hbase : s.esp - 4 - UInt32.ofNat (4 * ws.length) = s.esp - UInt32.ofNat (4 * (ws.length + 1)) := by
      rw [Nat.mul_add, UInt32.ofNat_add]
      grind
    change (s.push w).pushAll ws = _
    rw [ih, List.length_cons, ← hbase]
    rfl

@[simp] theorem get_push (v : UInt32) {r : Reg} (hr : r ≠ .esp) : (s.push v).get r = s.get r := by
  cases r <;> first | rfl | exact absurd rfl hr

/-- Instructions that push registers push what is in them. -/
theorem exec_pushl_regs {rs : List Reg} (hrs : .esp ∉ rs) :
    (rs.map fun r => Op.pushl (.reg r)).foldl Op.exec s = s.pushAll (rs.map s.get) := by
  induction rs generalizing s with
  | nil => rfl
  | cons r rs ih =>
    rw [List.mem_cons, not_or] at hrs
    have hget : rs.map (s.push (s.get r)).get = rs.map s.get :=
      List.map_congr_left fun r' hr' => get_push s _ fun h => hrs.2 (h ▸ hr')
    change (rs.map fun r => Op.pushl (.reg r)).foldl Op.exec (s.push (s.get r)) = _
    rw [ih (s.push (s.get r)) hrs.2, hget]
    rfl

end Push

section Interrupt

variable {s c : Cpu}

/-- An interrupt of a user program also saves its stack, since the processor changes to the one of
    the kernel. -/
theorem frame_of_user (huser : s.user = true) : s.frame = [s.ss, s.esp, s.eflags, s.cs, s.eip] := by
  rw [Cpu.frame, if_pos huser]
  rfl

theorem frame_length_of_user (huser : s.user = true) : s.frame.length = 5 := by
  rw [frame_of_user huser]
  rfl

/-- An interrupt of the kernel stays on the stack it finds. -/
theorem frame_of_kernel (hkernel : s.user = false) : s.frame = [s.eflags, s.cs, s.eip] := by
  rw [Cpu.frame, hkernel]
  rfl

/-- The return from an interrupt gives a program back what was saved of it. -/
theorem iret_user (hstack : Holds c.mem c.esp s.frame.reverse) (huser : s.user = true) :
    c.iret = { c with eip := s.eip, cs := s.cs, eflags := s.eflags, esp := s.esp, ss := s.ss } := by
  rw [frame_of_user huser] at hstack
  have h0 : c.word 0 = s.eip := hstack.load (i := 0) rfl
  have h1 : c.word 1 = s.cs := hstack.load (i := 1) rfl
  have h2 : c.word 2 = s.eflags := hstack.load (i := 2) rfl
  have h3 : c.word 3 = s.esp := hstack.load (i := 3) rfl
  have h4 : c.word 4 = s.ss := hstack.load (i := 4) rfl
  rw [Cpu.iret, h0, h1, h2, h3, h4]
  exact if_pos huser

/-- `iret` to kernel code takes three words off the stack and no stack pointer. Only the frame
    need be on the stack. -/
theorem iret_kernel (hstack : Holds c.mem c.esp s.frame.reverse) (hkernel : s.user = false) :
    c.iret = { c with eip := s.eip, cs := s.cs, eflags := s.eflags, esp := c.esp + 12 } := by
  rw [frame_of_kernel hkernel] at hstack
  have h0 : c.word 0 = s.eip := hstack.load (i := 0) rfl
  have h1 : c.word 1 = s.cs := hstack.load (i := 1) rfl
  have h2 : c.word 2 = s.eflags := hstack.load (i := 2) rfl
  rw [Cpu.iret, h0, h1, h2]
  exact if_neg (ne_true_of_eq_false hkernel)

end Interrupt

section Blocks

variable {system : System} {s : Cpu} {base : UInt32}

/-- A part of a piece of code stands where that piece does, further on. -/
theorem System.Loaded.part {block : List Instr} (h : system.Loaded base block) (i n : Nat) :
    system.Loaded (base + UInt32.ofNat i) ((block.drop i).take n) := by
  intro j instr hj
  have hlt : j < n := by
    have hlength := (List.getElem?_eq_some_iff.mp hj).1
    rw [List.length_take] at hlength
    omega
  rw [List.getElem?_take_of_lt hlt, List.getElem?_drop] at hj
  rw [UInt32.add_assoc, ← UInt32.ofNat_add]
  exact h (i + j) instr hj

/-- The code that is nothing but a piece at an address. -/
def placed (base : UInt32) (block : List Instr) (a : UInt32) : Option Instr :=
  block[(a - base).toNat]?

/-- Code placed in memory is found instruction by instruction behind its first one. -/
theorem placed_at (base : UInt32) {block : List Instr} (hfit : block.length ≤ 2 ^ 32) {i : Nat} {instr : Instr}
    (hi : block[i]? = some instr) : placed base block (base + UInt32.ofNat i) = some instr := by
  have hlt := (List.getElem?_eq_some_iff.mp hi).1
  rw [placed, offset_toNat base (by omega)]
  exact hi

/-- A second piece of code does not cover the first. -/
theorem placed_or {start : UInt32} {block first : List Instr} (hfit : block.length ≤ 2 ^ 32)
    (hapart : Apart base block.length start first.length) {i : Nat} {instr : Instr}
    (hi : block[i]? = some instr) :
    (placed start first (base + UInt32.ofNat i)).or (placed base block (base + UInt32.ofNat i)) =
      some instr := by
  have hlt := (List.getElem?_eq_some_iff.mp hi).1
  have hoffset := offset_toNat base (i := i) (by omega)
  have hnone : placed start first (base + UInt32.ofNat i) = none :=
    List.getElem?_eq_none (hapart _ (by omega))
  rw [hnone, Option.none_or, placed_at base hfit hi]

/-- The two ways of a conditional jump, from what the last comparison has left in the flags. -/
theorem step_jle {target : UInt32} (hcode : system.code s.eip = some (.jle target)) :
    system.step s = some (if lessOrEqual s.eflags then s.go target else s.next) := by
  rw [System.step, hcode]
  rfl

theorem step_jg {target : UInt32} (hcode : system.code s.eip = some (.jg target)) :
    system.step s = some (if lessOrEqual s.eflags then s.next else s.go target) := by
  rw [System.step, hcode]
  rfl

theorem step_jmp {target : UInt32} (hcode : system.code s.eip = some (.jmp target)) :
    system.step s = some (s.go target) := by
  rw [System.step, hcode]
  rfl

theorem step_call {target : UInt32} (hcode : system.code s.eip = some (.call target)) :
    system.step s = some (s.call target) := by
  rw [System.step, hcode]
  rfl

/-- The call through a table goes to the address in the entry that the register numbers. -/
theorem step_call_table {table : UInt32} {index : Reg}
    (hcode : system.code s.eip = some (.call_table table index)) :
    system.step s = some (s.call (load32 s.mem (table + 4 * s.get index))) := by
  rw [System.step, hcode]
  rfl

theorem step_ret (hcode : system.code s.eip = some .ret) :
    system.step s = some { s with toCore := s.toCore.drop, eip := s.toCore.top } := by
  rw [System.step, hcode]
  rfl

theorem step_iret (hcode : system.code s.eip = some .iret) : system.step s = some s.iret := by
  rw [System.step, hcode]
  rfl

/-- Instructions that follow each other in the code are executed one after the other. -/
theorem reaches_block {ops : List Op} (hload : system.Loaded s.eip (ops.map Instr.op)) :
    system.Reaches s
      { s with toCore := ops.foldl Op.exec s.toCore, eip := s.eip + UInt32.ofNat ops.length } := by
  induction ops generalizing s with
  | nil =>
    have hend : s.eip + UInt32.ofNat 0 = s.eip := by simp
    change system.Reaches s { s with eip := s.eip + UInt32.ofNat 0 }
    rw [hend]
    exact Relation.ReflTransGen.refl
  | cons o ops ih =>
    have hfirst : system.code s.eip = some (.op o) := by simpa using hload 0 (.op o) rfl
    have hstep : system.step s = some { s.next with toCore := o.exec s.toCore } := by
      rw [System.step, hfirst]
      rfl
    have hload' : system.Loaded (s.eip + 1) (ops.map Instr.op) := by
      have hpart := hload.part 1 (ops.map Instr.op).length
      rw [List.map_cons, List.drop_one, List.tail_cons, List.take_length] at hpart
      exact hpart
    have hrest := ih (s := { s.next with toCore := o.exec s.toCore }) hload'
    have heip : s.eip + 1 + UInt32.ofNat ops.length = s.eip + UInt32.ofNat (ops.length + 1) := by
      rw [UInt32.ofNat_add]
      grind
    refine Relation.ReflTransGen.head hstep ?_
    rw [List.length_cons, ← heip]
    exact hrest

/-- A run of such instructions inside a piece of code is executed in one go. -/
theorem reaches_part {block : List Instr} (hload : system.Loaded base block) {i : Nat}
    (heip : s.eip = base + UInt32.ofNat i) (ops : List Op)
    (hops : (block.drop i).take ops.length = ops.map Instr.op) :
    system.Reaches s
      { s with
        toCore := ops.foldl Op.exec s.toCore
        eip := base + UInt32.ofNat (i + ops.length) } := by
  have hpart := hload.part i ops.length
  rw [hops, ← heip] at hpart
  have hreach := reaches_block hpart
  rw [heip, UInt32.add_assoc, ← UInt32.ofNat_add] at hreach
  exact hreach

/-- The processor finds the instruction of a loaded block at which its instruction pointer stands.
    -/
theorem System.Loaded.code_at {block : List Instr} (hload : system.Loaded base block) {i : Nat}
    (heip : s.eip = base + UInt32.ofNat i) {instr : Instr} (hi : block[i]? = some instr) :
    system.code s.eip = some instr := by
  rw [heip]
  exact hload i instr hi

section Compare

variable {block : List Instr} {i : Nat} {src : Operand} {r : Reg} {target a b : UInt32}

/-- A comparison changes the flags only, to those of the difference. -/
theorem reaches_compare (hload : system.Loaded base block) (heip : s.eip = base + UInt32.ofNat i)
    (hcmp : block[i]? = some (.op (.cmpl src r))) (ha : s.get r = a) (hb : s.value src = b) :
    system.Reaches s
      { s with
        eflags := differenceFlags s.eflags a b
        eip := base + UInt32.ofNat (i + 1) } := by
  have hstep : system.step s = some { s.next with toCore := (Op.cmpl src r).exec s.toCore } := by
    rw [System.step, hload.code_at heip hcmp]
    rfl
  have heip' : s.eip + 1 = base + UInt32.ofNat (i + 1) := by
    rw [heip, UInt32.add_assoc, UInt32.ofNat_add]
    rfl
  rw [Cpu.next, heip', Op.exec, ha, hb] at hstep
  exact Relation.ReflTransGen.single hstep

/-- A comparison and the jump behind it compare signed numbers. -/
theorem reaches_compare_jle (hload : system.Loaded base block) (heip : s.eip = base + UInt32.ofNat i)
    (hcmp : block[i]? = some (.op (.cmpl src r))) (ha : s.get r = a) (hb : s.value src = b)
    (hjump : block[i + 1]? = some (.jle target)) :
    system.Reaches s
      { s with
        eflags := differenceFlags s.eflags a b
        eip := if a.toBitVec.toInt ≤ b.toBitVec.toInt then target
          else base + UInt32.ofNat (i + 2) } := by
  have hstep := step_jle (hload.code_at (s := { s with
    eflags := differenceFlags s.eflags a b
    eip := base + UInt32.ofNat (i + 1) }) rfl hjump)
  refine (reaches_compare hload heip hcmp ha hb).tail (hstep.trans ?_)
  have hnext : base + UInt32.ofNat (i + 1) + 1 = base + UInt32.ofNat (i + 2) := by
    rw [UInt32.add_assoc]
    simp [UInt32.ofNat_add, UInt32.add_assoc]
  simp only [lessOrEqual_difference, decide_eq_true_eq, Cpu.next, Cpu.go, hnext]
  split <;> rfl

/-- A comparison with a jump behind it goes on at the target exactly if the first operand is not
    less than or equal to the second, compared as signed numbers. -/
theorem reaches_compare_jg (hload : system.Loaded base block) (heip : s.eip = base + UInt32.ofNat i)
    (hcmp : block[i]? = some (.op (.cmpl src r))) (ha : s.get r = a) (hb : s.value src = b)
    (hjump : block[i + 1]? = some (.jg target)) :
    system.Reaches s
      { s with
        eflags := differenceFlags s.eflags a b
        eip := if a.toBitVec.toInt ≤ b.toBitVec.toInt then base + UInt32.ofNat (i + 2)
          else target } := by
  have hstep := step_jg (hload.code_at (s := { s with
    eflags := differenceFlags s.eflags a b
    eip := base + UInt32.ofNat (i + 1) }) rfl hjump)
  refine (reaches_compare hload heip hcmp ha hb).tail (hstep.trans ?_)
  have hnext : base + UInt32.ofNat (i + 1) + 1 = base + UInt32.ofNat (i + 2) := by
    rw [UInt32.add_assoc]
    simp [UInt32.ofNat_add, UInt32.add_assoc]
  simp only [lessOrEqual_difference, decide_eq_true_eq, Cpu.next, Cpu.go, hnext]
  split <;> rfl

end Compare

end Blocks

end assembly
