import LacOS.State

open memory

namespace lacos.rtc

abbrev CONTROL_REG_A : UInt8 := 0x8A

/-- `outb(data, CMOS_REG_1)`: select a register. The top bit is the NMI mask. -/
def selectReg (k : Kernel) (data : UInt8) : Kernel :=
  { k with cmos_index := data &&& 0x7F }

/-- `inb(CMOS_REG_2)`: a read resets the index to register D. -/
def readReg (k : Kernel) : UInt8 × Kernel :=
  (k.cmos_reg k.cmos_index, { k with cmos_index := 0x0D })

/-- `outb(data, CMOS_REG_2)`. -/
def writeReg (k : Kernel) (data : UInt8) : Kernel :=
  { k with cmos_reg := Function.update k.cmos_reg k.cmos_index data }

def set_int_freq (k : Kernel) (new_freq : UInt32) : Kernel :=
  let k := cli k
  let k := selectReg k CONTROL_REG_A
  let (prev, k) := readReg k
  let k := selectReg k CONTROL_REG_A
  let k := writeReg k (new_freq.toUInt8 ||| (prev &&& 0xF0))
  sti k

def rtc_interrupt (k : Kernel) : Kernel :=
  let k := { k with intr_occured := true }
  let k := cli k
  let k := selectReg k 0x0C
  let (_, k) := readReg k
  sti k

def rtc_open (k : Kernel) : Int × Kernel :=
  (0, set_int_freq k 0x0F)

/-- The wait of the source ends with a run of the interrupt handler. -/
def rtc_read (k : Kernel) : Int × Kernel :=
  let k := { k with intr_occured := false }
  (SUCCESS, rtc_interrupt k)

/-- `do { pow2freq++; } while((new_freq >>= 1) > 1)`. Each turn shifts one bit
    out, so there are at most 32. -/
def pow2freq_loop : Nat → UInt32 → UInt32 → UInt32
  | 0, _, pow2freq => pow2freq
  | fuel + 1, new_freq, pow2freq =>
    let new_freq := new_freq >>> (1 : UInt32)
    if new_freq > 1 then pow2freq_loop fuel new_freq (pow2freq + 1) else pow2freq + 1

/-- `rtc_write`, with `new_freq` the word its buffer points at. -/
def rtc_write (k : Kernel) (new_freq : UInt32) (nbytes : Int) : Int × Kernel :=
  if new_freq &&& (new_freq - 1) ≠ 0 ∨ new_freq > 1024 ∨ new_freq < 2 then (FAILURE, k)
  else
    let k := { k with rtc_freq := new_freq }
    (nbytes, set_int_freq k (0x10 - pow2freq_loop 32 new_freq 0))

end lacos.rtc
