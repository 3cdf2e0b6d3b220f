import LacOS.Lib.Console

open memory

namespace lacos.lib

/-- The digits of `newval`, lowest first. A division by the radix shortens the
    number, so there are at most 32. -/
def itoa_loop (radix : UInt32) : Nat → UInt32 → List UInt8
  | 0, _ => []
  | fuel + 1, newval =>
    if newval > 0 then
      (chars "0123456789ABCDEFGHIJKLMNOPQRSTUVWXYZ".toList).getD (newval % radix).toNat 0 ::
        itoa_loop radix fuel (newval / radix)
    else []

/-- The string `itoa` leaves in its buffer. -/
def itoa (value radix : UInt32) : List UInt8 :=
  if value = 0 then chars ['0'] else (itoa_loop radix 32 value).reverse

/-- `printf` of a text without conversions. -/
def printText (con : Console) (text : List UInt8) : Console := puts con con.sched_term_id text

end lacos.lib
