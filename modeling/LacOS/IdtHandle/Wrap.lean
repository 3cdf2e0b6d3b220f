import LacOS.Base.Assembly

open memory stack assembly

namespace lacos.idt_handle_wrap

/-- The code of an interrupt's wrapper around its C function. -/
def InterruptWrap (c_wrap : UInt32) : List Instr :=
  [.op .pushal, .call c_wrap, .op .popal, .iret]

/-- The code behind the system-call gate. Every instruction takes one address; `base` is
    where the code stands, `table` where the addresses of the C functions do. -/
def _syscall (base table : UInt32) : List Instr :=
  [.op (.cmpl (.imm 0) .eax),
   .jle (base + 17),
   .op (.cmpl (.imm 10) .eax),
   .jg (base + 17),
   .op (.pushl (.reg .edi)),
   .op (.pushl (.reg .esi)),
   .op (.pushl (.reg .edx)),
   .op (.pushl (.reg .ecx)),
   .op (.pushl (.reg .ebx)),
   .op (.subl (.imm 1) .eax),
   .call_table table .eax,
   .op (.popl .ebx),
   .op (.popl .ecx),
   .op (.popl .edx),
   .op (.popl .esi),
   .op (.popl .edi),
   .jmp (base + 18),
   -- `_sys_call_fail`
   .op (.movl (.imm (-1)) .eax),
   -- `_sys_call_done`
   .iret]

def SYSCALL : UInt8 := 0x80

/-- The trap gate of the system calls leads to their code. -/
structure Linked (system : System) (base table : UInt32) : Prop where
  code : system.Loaded base (_syscall base table)
  gate : system.gates SYSCALL = some { target := base, interrupt := false }

/-- The numbers for which there is a system call. -/
def Valid (eax : UInt32) : Prop :=
  0 < eax.toBitVec.toInt ∧ eax.toBitVec.toInt ≤ 10

instance (eax : UInt32) : Decidable (Valid eax) :=
  inferInstanceAs (Decidable (_ ∧ _))

/-- The processor at the first instruction of a C function that a system call of `s` came
    to. `s` is the program's state behind its interrupt instruction. -/
structure Called (system : System) (base : UInt32) (s e : Cpu) : Prop where
  esp : e.esp = system.esp0 - 44
  stack : Holds e.mem e.esp ([base + 11, s.ebx, s.ecx, s.edx, s.esi, s.edi] ++ s.frame.reverse)
  memory : ∀ d n, Apart d n (system.esp0 - 44) 44 → Keeps s.mem e.mem d n
  ebp : e.ebp = s.ebp

/-- The program goes on behind its interrupt instruction, with the result and the memory
    that the C function left in `r`. -/
structure Resumed (s r s' : Cpu) : Prop where
  eip : s'.eip = s.eip
  cs : s'.cs = s.cs
  ss : s'.ss = s.ss
  esp : s'.esp = s.esp
  eflags : s'.eflags = s.eflags
  ebp : s'.ebp = s.ebp
  esi : s'.esi = s.esi
  edi : s'.edi = s.edi
  eax : s'.eax = r.eax
  mem : s'.mem = r.mem

section Kernel

variable {system : System} {base table : UInt32} {s : Cpu}

/-- The interrupt instruction of a program leads to the code of the system calls. -/
theorem step_int (hlinked : Linked system base table) (hint : system.code s.eip = some (.int SYSCALL))
    (huser : s.user = true) :
    system.step s = some
      { s with
        esp := system.esp0 - 20
        mem := pushWords s.mem system.esp0 s.next.frame
        eip := base
        cs := system.cs0
        ss := system.ss0 } := by
  have huser' : s.next.user = true := huser
  have hlength : s.next.frame.length = 5 := frame_length_of_user huser'
  rw [System.step, hint]
  simp only [Option.bind_some, hlinked.gate, Option.map_some, System.enter, System.stackOf, huser', if_true,
    hlength]
  rfl

/-- The number in `eax` decides where the code goes on. -/
theorem check_number (hcode : system.Loaded base (_syscall base table)) (heip : s.eip = base) :
    ∃ flags, system.Reaches s
      { s with eflags := flags, eip := if Valid s.eax then base + 4 else base + 17 } := by
  have hzero : system.Reaches s
      { s with
        eflags := differenceFlags s.eflags s.eax 0
        eip := if s.eax.toBitVec.toInt ≤ (0 : UInt32).toBitVec.toInt then base + 17 else base + UInt32.ofNat 2 } :=
    reaches_compare_jle (i := 0) hcode (by simpa using heip) rfl rfl rfl rfl
  rw [show (0 : UInt32).toBitVec.toInt = 0 from rfl] at hzero
  by_cases hpos : 0 < s.eax.toBitVec.toInt
  · rw [if_neg (by omega)] at hzero
    have hten : system.Reaches s
        { s with
          eflags := differenceFlags (differenceFlags s.eflags s.eax 0) s.eax 10
          eip := if s.eax.toBitVec.toInt ≤ (10 : UInt32).toBitVec.toInt then base + UInt32.ofNat 4
            else base + 17 } :=
      hzero.trans (reaches_compare_jg (i := 2) hcode rfl rfl rfl rfl rfl)
    rw [show (10 : UInt32).toBitVec.toInt = 10 from rfl] at hten
    refine ⟨differenceFlags (differenceFlags s.eflags s.eax 0) s.eax 10, ?_⟩
    have hvalid : Valid s.eax ↔ s.eax.toBitVec.toInt ≤ 10 := and_iff_right hpos
    simp only [hvalid]
    exact hten
  · refine ⟨differenceFlags s.eflags s.eax 0, ?_⟩
    rw [if_neg fun h : Valid s.eax => hpos h.1]
    rw [if_pos (by omega)] at hzero
    exact hzero

/-- The kernel has been entered by the interrupt instruction in front of `s`. -/
structure Trapped (system : System) (s c : Cpu) : Prop where
  eax : c.eax = s.eax
  ebx : c.ebx = s.ebx
  ecx : c.ecx = s.ecx
  edx : c.edx = s.edx
  ebp : c.ebp = s.ebp
  esi : c.esi = s.esi
  edi : c.edi = s.edi
  esp : c.esp = system.esp0 - 20
  mem : c.mem = pushWords s.mem system.esp0 s.frame

/-- From the interrupt instruction the processor comes to the call or to the failure. -/
theorem reaches_checked (hlinked : Linked system base table)
    (hint : system.code s.eip = some (.int SYSCALL)) (huser : s.user = true) :
    ∃ c, system.Reaches s c ∧ Trapped system s.next c ∧
      c.eip = if Valid s.eax then base + 4 else base + 17 := by
  obtain ⟨flags, hcheck⟩ := check_number hlinked.code (s := { s with
    esp := system.esp0 - 20
    mem := pushWords s.mem system.esp0 s.next.frame
    eip := base
    cs := system.cs0
    ss := system.ss0 }) rfl
  exact ⟨_, hcheck.head (step_int hlinked hint huser), ⟨rfl, rfl, rfl, rfl, rfl, rfl, rfl, rfl, rfl⟩, rfl⟩

/-- The words on the kernel's stack when a C function has been called. -/
def callWords (base : UInt32) (s : Cpu) : List UInt32 :=
  s.frame ++ [s.edi, s.esi, s.edx, s.ecx, s.ebx, base + 11]

/-- The words on the stack make the call of a handler, with its arguments in their places. -/
theorem called_of_words {e : Cpu} (huser : s.user = true) (hmem : e.mem = pushWords s.mem system.esp0 (callWords base s))
    (hesp : e.esp = system.esp0 - 44) (hebp : e.ebp = s.ebp) : Called system base s e := by
  have hlength : (callWords base s).length = 11 := by
    rw [callWords, List.length_append, frame_length_of_user huser]
    rfl
  have hholds := pushWords_top s.mem system.esp0 (callWords base s) (by rw [hlength]; decide)
  have hkeeps := @pushWords_keeps s.mem system.esp0 (callWords base s) (by rw [hlength]; decide)
  rw [hlength, ← hmem] at hholds
  rw [hlength, ← hmem] at hkeeps
  refine ⟨hesp, ?_, fun d n => hkeeps, hebp⟩
  rw [hesp]
  rw [callWords, List.reverse_append] at hholds
  exact hholds

/-- The instructions in front of the call of a function. -/
def saveOps : List Op :=
  ([.edi, .esi, .edx, .ecx, .ebx].map fun r => .pushl (.reg r)) ++ [.subl (.imm 1) .eax]

theorem save_eq (c : Core) :
    saveOps.foldl Op.exec c =
      { c with
        esp := c.esp - 20
        mem := pushWords c.mem c.esp [c.edi, c.esi, c.edx, c.ecx, c.ebx]
        eax := c.eax - 1
        eflags := differenceFlags c.eflags c.eax 1 } := by
  rw [saveOps, List.foldl_append, exec_pushl_regs c (by decide), pushAll_eq]
  rfl

/-- The registers of the caller and the arguments are pushed, and the function is called. -/
theorem reaches_call (hcode : system.Loaded base (_syscall base table)) (heip : s.eip = base + 4) :
    system.Reaches s
      { s with
        esp := s.esp - 20 - 4
        mem := pushWords s.mem s.esp [s.edi, s.esi, s.edx, s.ecx, s.ebx, base + 11]
        eax := s.eax - 1
        eflags := differenceFlags s.eflags s.eax 1
        eip := load32 (pushWords s.mem s.esp [s.edi, s.esi, s.edx, s.ecx, s.ebx])
          (table + 4 * (s.eax - 1)) } := by
  have hsaved := reaches_part hcode (i := 4) heip saveOps rfl
  rw [save_eq] at hsaved
  have hcalled := hsaved.tail (step_call_table (hcode.code_at (i := 10) rfl rfl))
  have hback : base + UInt32.ofNat 10 + 1 = base + 11 := by
    rw [UInt32.add_assoc]
    rfl
  have hmem := pushWords_append s.mem s.esp [s.edi, s.esi, s.edx, s.ecx, s.ebx] [base + 11]
  rw [List.cons_append, List.cons_append, List.cons_append, List.cons_append, List.cons_append,
    List.nil_append] at hmem
  rw [hmem, ← hback]
  exact hcalled

/-- A valid number is one of the ten entries of the jump table. -/
theorem Valid.index {eax : UInt32} (h : Valid eax) : (eax - 1).toNat < 10 := by
  obtain ⟨hpos, hle⟩ := h
  rw [BitVec.toInt_eq_toNat_cond, UInt32.toNat_toBitVec] at hpos hle
  have hlt := eax.toNat_lt
  rw [UInt32.toNat_sub]
  change (2 ^ 32 - 1 + eax.toNat) % 2 ^ 32 < 10
  split at hpos <;> omega

/-- A valid number leads to the function of that number in the table. -/
theorem enters_function (hlinked : Linked system base table)
    (hint : system.code s.eip = some (.int SYSCALL)) (huser : s.user = true) (hvalid : Valid s.eax)
    {functions : List UInt32} (htable : Holds s.mem table functions) (hcount : functions.length = 10)
    (hapart : Apart table 40 (system.esp0 - 44) 44) :
    ∃ e, system.Reaches s e ∧ Called system base s.next e ∧
      functions[(s.eax - 1).toNat]? = some e.eip := by
  obtain ⟨c, hchecked, htrapped, heip⟩ := reaches_checked hlinked hint huser
  rw [if_pos hvalid] at heip
  have hcalled := reaches_call hlinked.code heip
  have hframe : s.next.frame.length = 5 := frame_length_of_user huser
  have hwords (ws : List UInt32) : pushWords c.mem c.esp ws = pushWords s.mem system.esp0 (s.next.frame ++ ws) := by
    rw [pushWords_append, hframe, htrapped.mem, htrapped.esp]
    rfl
  rw [hwords, hwords, htrapped.eax, htrapped.ebx, htrapped.ecx, htrapped.edx, htrapped.esi, htrapped.edi] at hcalled
  refine ⟨_, hchecked.trans hcalled, called_of_words huser rfl ?_ htrapped.ebp, ?_⟩
  · change c.esp - 20 - 4 = _
    rw [htrapped.esp]
    grind
  · -- The table is not among the words pushed so far.
    have hkept : Keeps s.mem (pushWords s.mem system.esp0
        (s.next.frame ++ [s.edi, s.esi, s.edx, s.ecx, s.ebx])) table 40 :=
      pushWords_keeps s.mem system.esp0 _ (by simp [hframe])
        (by rw [List.length_append, hframe]; exact Apart.top (i := 4) (k := 40) system.esp0 hapart (by decide))
    have hheld := htable.kept (by omega) (by rw [hcount]; exact hkept)
    have hentry := List.getElem?_eq_getElem (l := functions) (hcount ▸ hvalid.index)
    have haddr : 4 * (s.eax - 1) = UInt32.ofNat (4 * (s.eax - 1).toNat) := by
      rw [UInt32.ofNat_mul, UInt32.ofNat_toNat]
      rfl
    rw [hentry, ← hheld.load hentry, ← haddr]
    rfl

theorem restore_eq (c : Core) :
    [Op.popl .ebx, .popl .ecx, .popl .edx, .popl .esi, .popl .edi].foldl Op.exec c =
      { c with
        ebx := c.word 0
        ecx := c.word 1
        edx := c.word 2
        esi := c.word 3
        edi := c.word 4
        esp := c.esp + 20 } := by
  have haddr (i : Nat) : c.esp + UInt32.ofNat (4 * i) + 4 = c.esp + UInt32.ofNat (4 * (i + 1)) := by
    rw [UInt32.add_assoc, Nat.mul_add, UInt32.ofNat_add]
    rfl
  have h0 : c.esp + UInt32.ofNat (4 * 0) = c.esp := by simp
  have hend : c.esp + 4 + 4 + 4 + 4 + 4 = c.esp + 20 := by
    simp only [UInt32.add_assoc]
    rfl
  simp only [List.foldl, Op.exec, Core.set, Core.drop, Core.top, Core.word]
  rw [← haddr 3, ← haddr 2, ← haddr 1, ← haddr 0, h0, hend]

/-- The state in front of the last instruction, when a function has returned in `r`. -/
def restored (base : UInt32) (r : Cpu) : Cpu :=
  { r with
    ebx := r.word 0
    ecx := r.word 1
    edx := r.word 2
    esi := r.word 3
    edi := r.word 4
    esp := r.esp + 20
    eip := base + 18 }

/-- After the handler the registers are restored, but for the one with the result. -/
theorem reaches_restored (hcode : system.Loaded base (_syscall base table)) (heip : s.eip = base + 11) :
    system.Reaches s (restored base s).iret := by
  have hpops := reaches_part hcode (i := 11) heip
    [.popl .ebx, .popl .ecx, .popl .edx, .popl .esi, .popl .edi] rfl
  rw [restore_eq] at hpops
  have hjmp := hpops.tail (step_jmp (hcode.code_at (i := 16) rfl rfl))
  exact Relation.ReflTransGen.tail hjmp (step_iret (hcode.code_at (i := 18) rfl rfl))

/-- When the function has returned, the program goes on behind its interrupt instruction. -/
theorem resumes (hcode : system.Loaded base (_syscall base table)) {e r : Cpu}
    (hcalled : Called system base s e) (hreturned : Returned e r 3 28) (huser : s.user = true) :
    ∃ s', system.Reaches r s' ∧ Resumed s r s' := by
  have hiret := reaches_restored hcode (hreturned.eip.trans hcalled.stack.1)
  -- The words above the arguments are as they were pushed.
  have hsaved : Holds e.mem (e.esp + 16) ([s.esi, s.edi] ++ s.frame.reverse) :=
    ((Holds.append [base + 11, s.ebx, s.ecx, s.edx]).mp hcalled.stack).2
  have hlength : ([s.esi, s.edi] ++ s.frame.reverse).length = 7 := by
    rw [List.length_append, List.length_reverse, frame_length_of_user huser]
    rfl
  have hkept := hsaved.kept (by rw [hlength]; decide) (by rw [hlength]; exact hreturned.stack)
  have haddr : e.esp + 16 = r.esp + UInt32.ofNat 12 := by
    rw [hreturned.esp, UInt32.add_assoc]
    rfl
  rw [haddr] at hkept
  have hesi : (restored base r).esi = s.esi := hkept.1
  have hedi : (restored base r).edi = s.edi := by
    rw [← hkept.2.1, UInt32.add_assoc]
    rfl
  have hframe : Holds (restored base r).mem (restored base r).esp s.frame.reverse := by
    have hrest := hkept.2.2
    rw [UInt32.add_assoc, UInt32.add_assoc] at hrest
    exact hrest
  rw [iret_user hframe huser] at hiret
  exact ⟨_, hiret, rfl, rfl, rfl, rfl, rfl, hreturned.ebp.trans hcalled.ebp, hesi, hedi, rfl, rfl⟩

/-- A number for which there is no system call gives the program the result -1, and takes nothing
    from it but words of the kernel's stack. The arguments are not looked at, and the other
    registers and the memory may hold anything. -/
theorem invalid_numbers_refused (hlinked : Linked system base table) (hint : system.code s.eip = some (.int SYSCALL))
    (huser : s.user = true) (hinvalid : ¬Valid s.eax) :
    system.Reaches s
      { s.next with eax := -1, mem := pushWords s.mem system.esp0 s.next.frame } := by
  obtain ⟨c, hchecked, htrapped, heip⟩ := reaches_checked hlinked hint huser
  rw [if_neg hinvalid] at heip
  have hfail : system.Reaches c { c with eax := -1, eip := base + UInt32.ofNat 18 } :=
    reaches_part hlinked.code (i := 17) heip [.movl (.imm (-1)) .eax] rfl
  have hiret := (hchecked.trans hfail).tail (step_iret (hlinked.code.code_at (i := 18) rfl rfl))
  have hlength : s.next.frame.length = 5 := frame_length_of_user huser
  have hframe : Holds c.mem c.esp s.next.frame.reverse := by
    have htop := pushWords_top s.mem system.esp0 s.next.frame (by rw [hlength]; decide)
    rw [hlength] at htop
    rw [htrapped.mem, htrapped.esp]
    exact htop
  rw [iret_user (c := { c with eax := -1, eip := base + UInt32.ofNat 18 }) (s := s.next) hframe huser] at hiret
  rw [htrapped.mem, htrapped.ebx, htrapped.ecx, htrapped.edx, htrapped.ebp, htrapped.esi, htrapped.edi] at hiret
  exact hiret

/-- A program asks for system call 11. -/
theorem invalid_numbers_refused_eleven :
    let code a := (placed 0x1000 (_syscall 0x1000 0x2000) a).or (placed 0x8048100 [.int SYSCALL] a)
    let system : System := ⟨code, fun _ => some ⟨0x1000, false⟩, 0x10, 0x18, 0x800000⟩
    let s : Cpu := ⟨⟨11, 2, 3, 4, 0x83fff00, 5, 6, 7, 0x202, fun _ => 0⟩, 0x8048100, 0x23, 0x2b⟩
    ¬Valid s.eax ∧ system.Reaches s
      { s.next with eax := -1, mem := pushWords s.mem system.esp0 s.next.frame } := by
  intro code system s
  have hlinked : Linked system 0x1000 0x2000 := by
    refine ⟨fun i instr hi => ?_, rfl⟩
    change (placed _ _ _).or _ = _
    rw [placed_at 0x1000 (by decide) hi]
    rfl
  have hcode : system.Loaded 0x8048100 [.int SYSCALL] :=
    fun i instr hi => placed_or (by decide) (apart_of_toNat (by decide) (by decide) (by decide)) hi
  have hint : system.code s.eip = some (.int SYSCALL) := hcode.code_at (s := s) (i := 0) (by decide) rfl
  exact ⟨by decide, invalid_numbers_refused hlinked hint (by decide) (by decide)⟩

end Kernel

section Interrupt

variable {system : System}

/-- The registers in the order in which `pushal` pushes them. -/
def registers (c : Core) : List UInt32 :=
  [c.eax, c.ecx, c.edx, c.ebx, c.esp, c.ebp, c.esi, c.edi]

/-- The first instruction of a handler, called by the wrapper that an interrupt came to. -/
def handling (c_wrap : UInt32) (c : Cpu) : Cpu :=
  { c with
    esp := c.esp - 32 - 4
    mem := pushWords c.mem c.esp (registers c.toCore ++ [c.eip + 2])
    eip := c_wrap }

/-- An interrupt wrapper saves all registers and calls its handler. -/
theorem reaches_handling {c_wrap : UInt32} {c : Cpu} (hcode : system.Loaded c.eip (InterruptWrap c_wrap)) :
    system.Reaches c (handling c_wrap c) := by
  have hpushal := reaches_part hcode (s := c) (i := 0) (by simp) [.pushal] rfl
  have hexec : [Op.pushal].foldl Op.exec c.toCore =
      { c.toCore with esp := c.esp - 32, mem := pushWords c.mem c.esp (registers c.toCore) } := by
    rw [List.foldl_cons, List.foldl_nil, Op.exec, pushAll_eq]
    rfl
  rw [hexec] at hpushal
  have hcall := hpushal.tail (step_call (hcode.code_at (i := 1) rfl rfl))
  have hback : c.eip + UInt32.ofNat (0 + [Op.pushal].length) + 1 = c.eip + 2 := by
    rw [UInt32.add_assoc]
    rfl
  have hmem : pushWords c.mem c.esp (registers c.toCore ++ [c.eip + 2]) =
      store32 (pushWords c.mem c.esp (registers c.toCore)) (c.esp - 32 - 4) (c.eip + 2) :=
    pushWords_append c.mem c.esp (registers c.toCore) [c.eip + 2]
  rw [handling, hmem, ← hback]
  exact hcall

/-- The state in front of the last instruction, when the handler has returned in `r`. -/
def handled (c r : Cpu) : Cpu :=
  { r with
    edi := c.edi
    esi := c.esi
    ebp := c.ebp
    ebx := c.ebx
    edx := c.edx
    ecx := c.ecx
    eax := c.eax
    esp := r.esp + 32
    eip := c.eip + 3 }

/-- When the handler is back, the wrapper restores the registers and returns from the interrupt.
    -/
theorem reaches_handled {c_wrap : UInt32} {c r : Cpu} (hcode : system.Loaded c.eip (InterruptWrap c_wrap))
    (heip : r.eip = c.eip + 2) (hstack : Holds r.mem r.esp (registers c.toCore).reverse) :
    system.Reaches r (handled c r).iret := by
  have hpopal := reaches_part hcode (s := r) (i := 2) heip [.popal] rfl
  have hexec : [Op.popal].foldl Op.exec r.toCore = (handled c r).toCore := by
    have h0 : r.word 0 = c.edi := hstack.load (i := 0) rfl
    have h1 : r.word 1 = c.esi := hstack.load (i := 1) rfl
    have h2 : r.word 2 = c.ebp := hstack.load (i := 2) rfl
    have h4 : r.word 4 = c.ebx := hstack.load (i := 4) rfl
    have h5 : r.word 5 = c.edx := hstack.load (i := 5) rfl
    have h6 : r.word 6 = c.ecx := hstack.load (i := 6) rfl
    have h7 : r.word 7 = c.eax := hstack.load (i := 7) rfl
    simp only [List.foldl, Op.exec, h0, h1, h2, h4, h5, h6, h7]
    rfl
  rw [hexec] at hpopal
  exact hpopal.tail (step_iret (hcode.code_at (i := 3) rfl rfl))

variable (system : System) (s : Cpu)

/-- The words on the stack when a handler has been called. -/
def handlerWords (system : System) (gate : Gate) (s : Cpu) : List UInt32 :=
  s.frame ++ (registers (system.enter gate s).toCore ++ [gate.target + 2])

/-- What an interrupt writes to the stack, from the frame of the processor to the return address.
    -/
theorem handling_mem (gate : Gate) (c_wrap : UInt32) :
    (handling c_wrap (system.enter gate s)).mem =
      pushWords s.mem (system.stackOf s) (handlerWords system gate s) :=
  (pushWords_append s.mem (system.stackOf s) s.frame _).symm

theorem handlerWords_length (gate : Gate) :
    (handlerWords system gate s).length = s.frame.length + 9 := by
  rw [handlerWords, List.length_append]
  rfl

theorem handling_esp (gate : Gate) (c_wrap : UInt32) :
    (handling c_wrap (system.enter gate s)).esp =
      system.stackOf s - UInt32.ofNat (4 * (handlerWords system gate s).length) := by
  rw [handlerWords_length, Nat.mul_add, UInt32.ofNat_add]
  change system.stackOf s - UInt32.ofNat (4 * s.frame.length) - 32 - 4 = _
  grind

/-- The frame has five words at most. -/
theorem frame_length_le : s.frame.length ≤ 5 := by
  rw [Cpu.frame]
  split <;> simp

/-- The handler has been called above what it needs to return and to go on. -/
theorem handling_stack (gate : Gate) (c_wrap : UInt32) :
    Holds (handling c_wrap (system.enter gate s)).mem (handling c_wrap (system.enter gate s)).esp
      ((gate.target + 2) :: ((registers (system.enter gate s).toCore).reverse ++ s.frame.reverse)) := by
  have hlength := frame_length_le s
  have htop := pushWords_top s.mem (system.stackOf s) (handlerWords system gate s)
    (by rw [handlerWords_length]; omega)
  rw [← handling_esp system s gate c_wrap, ← handling_mem system s gate c_wrap, handlerWords, List.reverse_append,
    List.reverse_append] at htop
  exact htop

/-- The state in front of the last instruction leads back to what was interrupted. -/
theorem iret_handled (gate : Gate) {r : Cpu} (hframe : Holds r.mem (r.esp + 32) s.frame.reverse)
    (hesp : r.esp + 32 = (system.enter gate s).esp) (hss : r.ss = (system.enter gate s).ss) :
    (handled (system.enter gate s) r).iret = { s with mem := r.mem } := by
  cases huser : s.user with
  | true =>
    rw [iret_user (s := s) hframe huser]
    rfl
  | false =>
    have hback : r.esp + 32 + 12 = s.esp := by
      rw [hesp, System.enter, frame_of_kernel huser, System.stackOf, huser]
      change s.esp - 12 + 12 = s.esp
      grind
    have hsame : r.ss = s.ss := by
      rw [hss, System.enter, huser]
      rfl
    rw [iret_kernel (s := s) hframe huser]
    change { s with mem := r.mem, esp := r.esp + 32 + 12, ss := r.ss } = { s with mem := r.mem }
    rw [hback, hsame]

/-- An interrupt is not seen by what it interrupts, a program or the kernel. The wrapper calls
    its function, and whatever that does, when it returns as C functions do, the interrupted
    code goes on with every register as it was. Only the memory may be another. -/
theorem interrupts_transparent (gate : Gate) (c_wrap : UInt32)
    (hcode : system.Loaded gate.target (InterruptWrap c_wrap)) :
    ∃ e, system.Reaches (system.enter gate s) e ∧ e.eip = c_wrap ∧
      (gate.interrupt = true → flag e.eflags INTERRUPT = false) ∧
      (∀ d n, Apart d n e.esp (36 + 4 * s.frame.length) → Keeps s.mem e.mem d n) ∧
      ∀ r, Returned e r 0 (32 + 4 * s.frame.length) → system.Reaches r { s with mem := r.mem } := by
  have hshort := frame_length_le s
  have hlength := handlerWords_length system s gate
  refine ⟨handling c_wrap (system.enter gate s), reaches_handling hcode, rfl, ?_, ?_, ?_⟩
  · intro hgate
    change flag (if gate.interrupt then setFlag s.eflags INTERRUPT false else s.eflags) INTERRUPT = false
    rw [if_pos hgate]
    exact flag_setFlag s.eflags false (by decide)
  · intro d n hapart
    rw [handling_esp] at hapart
    rw [handling_mem]
    refine pushWords_keeps s.mem _ _ (by rw [hlength]; omega) ?_
    rw [hlength, Nat.mul_add, Nat.add_comm] at hapart ⊢
    exact hapart
  · intro r hreturned
    have hstack := handling_stack system s gate c_wrap
    have hwords : ((registers (system.enter gate s).toCore).reverse ++ s.frame.reverse).length =
        8 + s.frame.length := by
      rw [List.length_append, List.length_reverse, List.length_reverse]
      rfl
    -- The saved registers and the frame above them are as they were pushed.
    have hsaved := hstack.2.kept (by rw [hwords]; omega)
      (by rw [hwords, Nat.mul_add]; exact hreturned.stack)
    rw [← hreturned.esp] at hsaved
    obtain ⟨hregisters, hframe⟩ := (Holds.append _).mp hsaved
    have hiret := reaches_handled (c := system.enter gate s) hcode (hreturned.eip.trans hstack.1) hregisters
    have hesp : r.esp + 32 = (system.enter gate s).esp := by
      rw [hreturned.esp]
      change (system.enter gate s).esp - 32 - 4 + 4 + 32 = _
      grind
    rw [iret_handled system s gate hframe hesp hreturned.ss] at hiret
    exact hiret

/-- The timer interrupts the kernel, and its function changes registers that are its to change. -/
theorem interrupts_transparent_kernel_code :
    let gate : Gate := ⟨0x1000, true⟩
    let system : System := ⟨placed 0x1000 (InterruptWrap 0x2000), fun _ => some gate, 0x10, 0x18, 0x800000⟩
    let s : Cpu := ⟨⟨1, 2, 3, 4, 0x7fff00, 5, 6, 7, 0x202, fun _ => 0⟩, 0x3000, 0x10, 0x18⟩
    ∃ e r, system.Reaches (system.enter gate s) e ∧ e.eip = 0x2000 ∧ r.eax ≠ s.eax ∧
      Returned e r 0 (32 + 4 * s.frame.length) ∧ system.Reaches r { s with mem := r.mem } := by
  intro gate system s
  obtain ⟨e, hreach, heip, -, -, hback⟩ := interrupts_transparent system s gate 0x2000
    fun i instr hi => placed_at 0x1000 (by decide) hi
  have hreturned : Returned e { e with eax := 9, ecx := 9, eip := e.toCore.top, esp := e.esp + 4 } 0
      (32 + 4 * s.frame.length) := ⟨rfl, rfl, rfl, rfl, rfl, rfl, rfl, rfl, fun _ _ => rfl⟩
  exact ⟨e, _, hreach, heip, (by decide : (9 : UInt32) ≠ 1), hreturned, hback _ hreturned⟩

end Interrupt

end lacos.idt_handle_wrap
