import LacOS.Lib.Printf
import LacOS.Syscalls.Halt

open memory lacos.lib lacos.file_system lacos.syscalls

namespace lacos.idt_handle

/-- The exceptions, by the name of their handler. -/
inductive Exception where
  | div_zero_fault
  | reserved_fault
  | nmi_intr
  | breakpoint_trap
  | overflow_trap
  | bound_range_fault
  | invalid_opcode_fault
  | device_na_fault
  | double_fault_abort
  | seg_overrun_fault
  | tss_fault
  | seg_np_fault
  | ss_fault
  | gen_pro_fault
  | dne_entry
  | fpu_math_fault
  | align_fault
  | machine_chk_abort
  | simd_fpe_fault
  | page_fault (cr2 : UInt32)

/-- What the handler prints. -/
def Exception.message : Exception → List UInt8
  | .div_zero_fault => chars "Divide-by-zero fault occurred. Do you even math?\n".toList
  | .reserved_fault => chars "RESERVED. You got an exception for intel used only...\n".toList
  | .nmi_intr => chars "Non-maskable interrupt triggered. Hardware wants attention bad.\n".toList
  | .breakpoint_trap => chars "Breakpoint thrown. How long is this going to take?\n".toList
  | .overflow_trap => chars "Overflow detected. It's too big.\n".toList
  | .bound_range_fault => chars "Bounds exceeded. Try a tigher fit.\n".toList
  | .invalid_opcode_fault => chars "Invalid opcode used. This is x86, bruh...\n".toList
  | .device_na_fault => chars "Device not available fault. You gonna wait today.\n".toList
  | .double_fault_abort => chars "Double fault, abort! RIP, GG.\n".toList
  | .seg_overrun_fault =>
    chars "Coprocessor Segment Overrun (reserved). Really shouldn't be getting this...\n".toList
  | .tss_fault => chars "Invalid task state segment. No context switching for you, ha.\n".toList
  | .seg_np_fault => chars "Segment not present. Is your brain segment present?\n".toList
  | .ss_fault => chars "Stack segment fault. Have fun debugging.\n".toList
  | .gen_pro_fault => chars "General protection fault. You're violating me.\n".toList
  | .dne_entry => chars "Intel reserved. Why are you even getting this?!\n".toList
  | .fpu_math_fault => chars "x87 FPU Floating-Point Error. No one actually knows...\n".toList
  | .align_fault => chars "Alignment check faulted. Guess your brain also needs re-alignment.\n".toList
  | .machine_chk_abort => chars "Machine check failed, abort! Another RIP, GG.\n".toList
  | .simd_fpe_fault => chars "Floating point exception. IDEK, but GL.\n".toList
  | .page_fault cr2 => chars "Page fault encountered with error ".toList ++ itoa cr2 16 ++ chars ['\n']

/-- An exception handler: it prints its message and halts the process. -/
def handle (fs : Image) (k : Kernel) (exception : Exception) (locals : Locals) : Option (Halted × Kernel) :=
  let k := k.onConsole (printText · exception.message)
  sys_halt fs { k with except_raised := true } 0 locals

end lacos.idt_handle
