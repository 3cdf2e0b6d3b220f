import Mathlib.Algebra.GroupWithZero.Nat
import Mathlib.Logic.Function.Basic
import Mathlib.Tactic.Common

namespace lacos

abbrev NULL : UInt32 := 0
abbrev FOUR_MB : UInt32 := 0x400000
abbrev FOUR_KB : UInt32 := 0x1000
abbrev KEY_BUF_SIZE : Nat := 129
abbrev MAX_TERM_NUM : Nat := 3
abbrev MAX_PROCESSES : UInt32 := 6
abbrev HIST_COM_NUM : UInt32 := 10

abbrev SUCCESS : Int := 0
abbrev FAILURE : Int := -1

abbrev VIDEO_ADDR : UInt32 := 0xB8000
abbrev NUM_COLS : Nat := 80
abbrev NUM_ROWS : Nat := 25

instance : NeZero MAX_TERM_NUM := ⟨by decide⟩

/-- The bytes of a character sequence. -/
def chars (s : List Char) : List UInt8 := s.map Char.toUInt8

/-- The value of a `uint32_t` converted to `int32_t`. -/
def toInt32 (value : UInt32) : Int := value.toBitVec.toInt

/-- Half of the unsigned numbers are the same number when signed. -/
theorem toInt32_of_lt {value : UInt32} (hvalue : value.toNat < 2 ^ 31) :
    toInt32 value = value.toNat := by
  have hsmall : 2 * value.toBitVec.toNat < 2 ^ 32 := by
    rw [UInt32.toNat_toBitVec]
    omega
  rw [toInt32, BitVec.toInt_eq_toNat_of_lt hsmall, UInt32.toNat_toBitVec]

end lacos
