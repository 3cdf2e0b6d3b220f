import LacOS.IdtHandle.Wrap

open memory stack assembly lacos.idt_handle_wrap

namespace lacos.user

/-- The code of the library's wrapper for a system call. -/
def DO_CALL (number : UInt32) : List Instr :=
  [.op (.pushl (.reg .ebx)),
   .op (.movl (.imm number) .eax),
   .op (.movl (.at 8 .esp) .ebx),
   .op (.movl (.at 12 .esp) .ecx),
   .op (.movl (.at 16 .esp) .edx),
   .int SYSCALL,
   .op (.popl .ebx),
   .ret]

def SYS_HALT : UInt32 := 1

/-- Where a program starts: it runs `main` and halts with its result. -/
def _start (main ece391_halt : UInt32) : List Instr :=
  [.call main,
   .op (.pushl (.imm 0)),
   .op (.pushl (.imm 0)),
   .op (.pushl (.reg .eax)),
   .call ece391_halt]

/-- The kernel's stack, its table of functions and the top of a program's stack at `p` are
    apart from each other. -/
structure Separate (system : System) (table p : UInt32) : Prop where
  kernel : Apart table 40 (system.esp0 - 44) 44
  program : Apart table 40 (p - 4) 4
  both : Apart (p - 4) 8 (system.esp0 - 44) 44

section Call

variable {system : System} {base table number : UInt32} {functions : List UInt32} {s : Cpu}

/-- The state at a wrapper's interrupt instruction. -/
def asking (number a b c : UInt32) (s : Cpu) : Cpu :=
  { s with
    esp := s.esp - 4
    mem := pushWords s.mem s.esp [s.ebx]
    eax := number
    ebx := a
    ecx := b
    edx := c
    eip := s.eip + 5 }

/-- The stub of a system call loads the number and the three arguments from the stack of its
    caller, whatever function it is. -/
theorem reaches_asking (hcode : system.Loaded s.eip (DO_CALL number)) {back a b c : UInt32}
    (hargs : Holds s.mem s.esp [back, a, b, c]) :
    system.Reaches s (asking number a b c s) := by
  have hblock := reaches_part hcode (s := s) (i := 0) (by simp)
    [.pushl (.reg .ebx), .movl (.imm number) .eax, .movl (.at 8 .esp) .ebx, .movl (.at 12 .esp) .ecx,
      .movl (.at 16 .esp) .edx] rfl
  have hholds : Holds (pushWords s.mem s.esp [s.ebx]) (s.esp - 4) [s.ebx, back, a, b, c] :=
    pushWords_holds s.mem s.esp [s.ebx] hargs (by simp)
  have ha : load32 (store32 s.mem (s.esp - 4) s.ebx) (s.esp - 4 + 8) = a := hholds.load (i := 2) rfl
  have hb : load32 (store32 s.mem (s.esp - 4) s.ebx) (s.esp - 4 + 12) = b := hholds.load (i := 3) rfl
  have hc : load32 (store32 s.mem (s.esp - 4) s.ebx) (s.esp - 4 + 16) = c := hholds.load (i := 4) rfl
  simp only [List.foldl, Op.exec, Core.value, Core.get, Core.set, Core.push, ha, hb, hc] at hblock
  exact hblock

/-- A wrapper called with three arguments enters the function of its number with them. -/
theorem enters_call (hlinked : Linked system base table) (hcode : system.Loaded s.eip (DO_CALL number))
    (huser : s.user = true) (hvalid : Valid number) {back a b c : UInt32}
    (hargs : Holds s.mem s.esp [back, a, b, c]) (htable : Holds s.mem table functions)
    (hcount : functions.length = 10) (hseparate : Separate system table s.esp) :
    ∃ e, system.Reaches s e ∧ Called system base (asking number a b c s).next e ∧
      functions[(number - 1).toNat]? = some e.eip := by
  have hasking := reaches_asking hcode hargs
  have hkept : Keeps s.mem (asking number a b c s).mem table 40 :=
    pushWords_keeps s.mem s.esp [s.ebx] (by simp) hseparate.program
  have hheld := htable.kept (by omega) (by rw [hcount]; exact hkept)
  have hint : system.code (asking number a b c s).eip = some (.int SYSCALL) :=
    hcode.code_at (s := asking number a b c s) (i := 5) rfl rfl
  obtain ⟨e, hreach, hcalled, hentry⟩ :=
    enters_function (s := asking number a b c s) hlinked hint huser hvalid hheld hcount hseparate.kernel
  exact ⟨e, hasking.trans hreach, hcalled, hentry⟩

/-- Behind its interrupt instruction a wrapper restores the register it had saved and returns. -/
theorem returns {p : Cpu} {start ebx back : UInt32} (hcode : system.Loaded start (DO_CALL number))
    (heip : p.eip = start + 6) (hstack : Holds p.mem p.esp [ebx, back]) :
    system.Reaches p { p with ebx := ebx, esp := p.esp + 4 + 4, eip := back } := by
  have hpop := reaches_part hcode (i := 6) heip [.popl .ebx] rfl
  have hret := hpop.tail (step_ret (hcode.code_at (i := 7) rfl rfl))
  obtain ⟨hebx, hback, -⟩ := hstack
  rw [← hebx, ← hback]
  exact hret

/-- The wrapper of a system call works as the C function it stands for. Called with three
    arguments, it enters the function of its number in the kernel with just these arguments; when
    that function has returned as C functions do, the wrapper does, with its result. The registers
    may hold anything, and the function may use the stack and the registers as C functions do. -/
theorem wrappers_call_functions (hlinked : Linked system base table)
    (hcode : system.Loaded s.eip (DO_CALL number)) (huser : s.user = true) (hvalid : Valid number)
    {back a b c : UInt32} (hargs : Holds s.mem s.esp [back, a, b, c])
    (htable : Holds s.mem table functions) (hcount : functions.length = 10)
    (hseparate : Separate system table s.esp) :
    ∃ e, system.Reaches s e ∧ functions[(number - 1).toNat]? = some e.eip ∧
      Holds e.mem (e.esp + 4) [a, b, c] ∧
      ∀ r, Returned e r 3 28 → Keeps e.mem r.mem (s.esp - 4) 8 →
        ∃ s', system.Reaches r s' ∧ Returned s s' 3 0 ∧ s'.eax = r.eax ∧ s'.mem = r.mem ∧
          s'.eflags = s.eflags := by
  obtain ⟨e, hreach, hcalled, hentry⟩ :=
    enters_call hlinked hcode huser hvalid hargs htable hcount hseparate
  refine ⟨e, hreach, hentry, ?_, ?_⟩
  · obtain ⟨-, ha, hb, hc, -⟩ := hcalled.stack
    exact ⟨ha, hb, hc, trivial⟩
  · intro r hreturned hkeep
    obtain ⟨p, hresume, hresumed⟩ := resumes hlinked.code hcalled hreturned huser
    -- The program's stack still holds its register and the way back.
    have hholds : Holds (asking number a b c s).mem (s.esp - 4) [s.ebx, back] :=
      ((Holds.append [s.ebx, back]).mp (pushWords_holds s.mem s.esp [s.ebx] hargs (by simp))).1
    have hkept := (hholds.kept (by simp) (hcalled.memory _ _ hseparate.both)).kept (by simp) hkeep
    have heip : p.eip = s.eip + 6 := by
      rw [hresumed.eip]
      change s.eip + 5 + 1 = s.eip + 6
      rw [UInt32.add_assoc]
      rfl
    have hesp : p.esp = s.esp - 4 := hresumed.esp
    rw [← hresumed.mem, ← hesp] at hkept
    have hlast := returns hcode heip hkept
    refine ⟨_, hresume.trans hlast, ⟨hargs.1.symm, ?_, rfl, hresumed.ebp, hresumed.esi, hresumed.edi,
      hresumed.cs, hresumed.ss, ?_⟩, hresumed.eax, hresumed.mem, hresumed.eflags⟩
    · change p.esp + 4 + 4 = s.esp + 4
      rw [hesp]
      grind
    · intro a ha
      exact absurd ha (Nat.not_lt_zero _)

/-- The addresses of ten functions, a wrapper for the third of them, and a call with the
    arguments 1, 2 and 3. -/
theorem wrappers_call_functions_read :
    let functions : List UInt32 := [0x4000, 0x4100, 0x4200, 0x4300, 0x4400, 0x4500, 0x4600, 0x4700, 0x4800, 0x4900]
    let code a := (placed 0x1000 (_syscall 0x1000 0x2000) a).or (placed 0x8048100 (DO_CALL 3) a)
    let system : System := ⟨code, fun _ => some ⟨0x1000, false⟩, 0x10, 0x18, 0x800000⟩
    let mem := pushWords (pushWords (fun _ => 0) 0x2028 functions.reverse) 0x83fff10 [3, 2, 1, 0x8048200]
    let s : Cpu := ⟨⟨0, 0, 0, 4, 0x83fff00, 5, 6, 7, 0x202, mem⟩, 0x8048100, 0x23, 0x2b⟩
    ∃ e r s', system.Reaches s e ∧ e.eip = 0x4200 ∧ Holds e.mem (e.esp + 4) [1, 2, 3] ∧
      r.eax = 9 ∧ system.Reaches r s' ∧ Returned s s' 3 0 ∧ s'.eax = 9 := by
  intro functions code system mem s
  have hlinked : Linked system 0x1000 0x2000 := by
    refine ⟨fun i instr hi => ?_, rfl⟩
    change (placed _ _ _).or _ = _
    rw [placed_at 0x1000 (by decide) hi]
    rfl
  have hcode : system.Loaded s.eip (DO_CALL 3) :=
    fun i instr hi => placed_or (by decide) (apart_of_toNat (by decide) (by decide) (by decide)) hi
  have hseparate : Separate system 0x2000 s.esp :=
    ⟨apart_of_toNat (by decide) (by decide) (by decide), apart_of_toNat (by decide) (by decide) (by decide),
      apart_of_toNat (by decide) (by decide) (by decide)⟩
  have hargs : Holds s.mem s.esp [0x8048200, 1, 2, 3] := by decide +kernel
  have htable : Holds s.mem 0x2000 functions := by decide +kernel
  obtain ⟨e, hreach, hentry, hentered, hback⟩ :=
    wrappers_call_functions hlinked hcode (by decide) (by decide) hargs htable rfl hseparate
  have hreturned : Returned e { e with eax := 9, eip := e.toCore.top, esp := e.esp + 4 } 3 28 :=
    ⟨rfl, rfl, rfl, rfl, rfl, rfl, rfl, rfl, fun _ _ => rfl⟩
  obtain ⟨s', hresume, hwrapper, heax, -⟩ := hback _ hreturned fun _ _ => rfl
  exact ⟨e, _, s', hreach, (Option.some.inj hentry).symm, hentered, rfl, hresume, hwrapper, heax⟩

end Call

section Start

variable {system : System} {base table start main halt : UInt32} {functions : List UInt32} {s : Cpu}

/-- The state at the wrapper that halts a program, after `main` has returned in `r`. -/
def halting (start halt : UInt32) (r : Cpu) : Cpu :=
  { r with
    esp := r.esp - 12 - 4
    mem := pushWords r.mem r.esp [0, 0, r.eax, start + 5]
    eip := halt }

/-- When `main` returns, the start code calls `halt` with what it has returned. -/
theorem reaches_halting (hcode : system.Loaded start (_start main halt)) {r : Cpu} (heip : r.eip = start + 1) :
    system.Reaches r (halting start halt r) := by
  have hpush := reaches_part hcode (i := 1) heip [.pushl (.imm 0), .pushl (.imm 0), .pushl (.reg .eax)] rfl
  have hexec : [Op.pushl (.imm 0), .pushl (.imm 0), .pushl (.reg .eax)].foldl Op.exec r.toCore =
      { r.toCore with esp := r.esp - 12, mem := pushWords r.mem r.esp [0, 0, r.eax] } :=
    pushAll_eq r.toCore [0, 0, r.eax]
  rw [hexec] at hpush
  have hcall := hpush.tail (step_call (hcode.code_at (i := 4) rfl rfl))
  have hback : start + UInt32.ofNat 4 + 1 = start + 5 := by
    rw [UInt32.add_assoc]
    rfl
  have hmem : pushWords r.mem r.esp [0, 0, r.eax, start + 5] =
      store32 (pushWords r.mem r.esp [0, 0, r.eax]) (r.esp - 12 - 4) (start + 5) :=
    pushWords_append r.mem r.esp [0, 0, r.eax] [start + 5]
  rw [halting, hmem, ← hback]
  exact hcall

/-- A program that returns from `main` halts with its result: the kernel's function for that is
    entered with what `main` returned. What the registers and the stack hold at the start does not
    matter. -/
theorem programs_halt_with_result (hlinked : Linked system base table)
    (hcode : system.Loaded start (_start main halt)) (hhalt : system.Loaded halt (DO_CALL SYS_HALT))
    (heip : s.eip = start) (huser : s.user = true) (hcount : functions.length = 10)
    (hseparate : Separate system table (s.esp - 16)) (hprogram : Apart table 40 (s.esp - 16) 16) :
    ∃ m, system.Reaches s m ∧ m.eip = main ∧
      ∀ r, Returned m r 0 0 → Holds r.mem table functions →
        ∃ e, system.Reaches r e ∧ functions[0]? = some e.eip ∧
          Holds e.mem (e.esp + 4) [r.eax, 0, 0] := by
  refine ⟨s.call main, Relation.ReflTransGen.single (step_call (hcode.code_at (i := 0) (by simpa using heip) rfl)),
    rfl, ?_⟩
  intro r hreturned htable
  have hback : r.eip = start + 1 := by
    rw [hreturned.eip, ← heip]
    exact load32_store32 s.mem (s.esp - 4) (s.eip + 1)
  have hesp : r.esp = s.esp := by
    rw [hreturned.esp]
    change s.esp - 4 + 4 = s.esp
    grind
  have huser' : (halting start halt r).user = true := by
    rw [← huser, Cpu.user, Cpu.user]
    exact congrArg (fun cs => cs &&& 3 == 3) hreturned.cs
  have htop : (halting start halt r).esp = s.esp - 16 := by
    change r.esp - 12 - 4 = s.esp - 16
    rw [hesp]
    grind
  have hargs : Holds (halting start halt r).mem (halting start halt r).esp [start + 5, r.eax, 0, 0] := by
    rw [htop, ← hesp]
    exact pushWords_top r.mem r.esp [0, 0, r.eax, start + 5] (by simp)
  have hkept : Keeps r.mem (halting start halt r).mem table 40 :=
    pushWords_keeps r.mem r.esp [0, 0, r.eax, start + 5] (by simp) (by rw [hesp]; exact hprogram)
  obtain ⟨e, hreach, hcalled, hentry⟩ := enters_call (s := halting start halt r) hlinked hhalt huser'
    (by decide) hargs (htable.kept (by omega) (by rw [hcount]; exact hkept)) hcount
    (by rw [htop]; exact hseparate)
  obtain ⟨-, ha, hb, hc, -⟩ := hcalled.stack
  exact ⟨e, (reaches_halting hcode hback).trans hreach, hentry, ha, hb, hc, trivial⟩

/-- A program that returns 5 from `main`. -/
theorem programs_halt_with_result_five :
    let functions : List UInt32 := [0x4000, 0x4100, 0x4200, 0x4300, 0x4400, 0x4500, 0x4600, 0x4700, 0x4800, 0x4900]
    let program := DO_CALL SYS_HALT ++ _start 0x8048200 0x8048100
    let code a := (placed 0x1000 (_syscall 0x1000 0x2000) a).or (placed 0x8048100 program a)
    let system : System := ⟨code, fun _ => some ⟨0x1000, false⟩, 0x10, 0x18, 0x800000⟩
    let mem := pushWords (fun _ => 0) 0x2028 functions.reverse
    let s : Cpu := ⟨⟨0, 0, 0, 4, 0x83ffffc, 5, 6, 7, 0x202, mem⟩, 0x8048108, 0x23, 0x2b⟩
    ∃ m r e, system.Reaches s m ∧ m.eip = 0x8048200 ∧ Returned m r 0 0 ∧ r.eax = 5 ∧
      system.Reaches r e ∧ e.eip = 0x4000 ∧ Holds e.mem (e.esp + 4) [5, 0, 0] := by
  intro functions program code system mem s
  have hlinked : Linked system 0x1000 0x2000 := by
    refine ⟨fun i instr hi => ?_, rfl⟩
    change (placed _ _ _).or _ = _
    rw [placed_at 0x1000 (by decide) hi]
    rfl
  have hprogram : system.Loaded 0x8048100 program :=
    fun i instr hi => placed_or (by decide) (apart_of_toNat (by decide) (by decide) (by decide)) hi
  have hseparate : Separate system 0x2000 (s.esp - 16) :=
    ⟨apart_of_toNat (by decide) (by decide) (by decide), apart_of_toNat (by decide) (by decide) (by decide),
      apart_of_toNat (by decide) (by decide) (by decide)⟩
  have hhalt : system.Loaded 0x8048100 (DO_CALL SYS_HALT) := hprogram.part 0 8
  have hcode : system.Loaded 0x8048108 (_start 0x8048200 0x8048100) := hprogram.part 8 5
  obtain ⟨m, hmain, heip, hrest⟩ := programs_halt_with_result (s := s) hlinked hcode hhalt rfl (by decide)
    (rfl : functions.length = 10) hseparate (apart_of_toNat (by decide) (by decide) (by decide))
  have hreturned : Returned m { m with eax := 5, mem := mem, eip := m.toCore.top, esp := m.esp + 4 } 0 0 :=
    ⟨rfl, rfl, rfl, rfl, rfl, rfl, rfl, rfl, fun _ ha => absurd ha (Nat.not_lt_zero _)⟩
  have htable : Holds mem 0x2000 functions := by decide +kernel
  obtain ⟨e, hreach, hentry, hargs⟩ := hrest _ hreturned htable
  exact ⟨m, _, e, hmain, heip, hreturned, rfl, hreach, (Option.some.inj hentry).symm, hargs⟩

end Start

end lacos.user
