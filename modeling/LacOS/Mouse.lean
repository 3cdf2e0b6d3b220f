import LacOS.Lib.Printf

open lacos.lib

namespace lacos.mouse

/-- The globals of `mouse.c`. -/
structure Mouse where
  cycle : Nat
  mouse_bytes : Fin 3 → UInt8
  x_neg : Bool
  y_neg : Bool
  mouse_x_pos : Int8
  mouse_y_pos : Int8
  old_char : UInt8

/-- The values they start with. -/
def mouseGlobals : Mouse where
  cycle := 0
  mouse_bytes _ := 0
  x_neg := false
  y_neg := false
  mouse_x_pos := Int8.ofNat (NUM_COLS - 1)
  mouse_y_pos := Int8.ofNat (NUM_ROWS - 1)
  old_char := 0

/-- The movement along one axis: by the lowest bit of `byte`, back if `neg`, and no further
    than the ends of the axis. The sum is an `int` that is assigned to an `int8_t`. -/
def movement (pos : Int8) (neg : Bool) (byte : UInt8) (size : Nat) : Int8 :=
  let delta : Int16 := Int16.ofNat (byte &&& 1).toNat
  if delta ≠ 0 then
    let delta := if neg then -delta else delta
    let pos := Int8.ofInt (pos.toInt + delta.toInt)
    let pos := if pos.toInt < 0 then 0 else pos
    if pos.toInt ≥ size then Int8.ofNat (size - 1) else pos
  else pos

/-- Put back the character under the pointer, move it, and draw it over the next one. -/
def movePointer (con : Console) (m : Mouse) : Console × Mouse :=
  let con := set_char con m.old_char con.fg_color con.bg_color m.mouse_y_pos.toUInt8 m.mouse_x_pos.toUInt8
  let m := { m with mouse_x_pos := movement m.mouse_x_pos m.x_neg (m.mouse_bytes 2) NUM_COLS }
  let m := { m with mouse_y_pos := movement m.mouse_y_pos m.y_neg (m.mouse_bytes 0) NUM_ROWS }
  let m := { m with old_char := get_char con m.mouse_y_pos.toUInt8 m.mouse_x_pos.toUInt8 }
  (set_char con 0x20 3 1 m.mouse_y_pos.toUInt8 m.mouse_x_pos.toUInt8, m)

/-- The clicks of a packet. -/
def reportButtons (con : Console) (flags : UInt8) : Console :=
  let con := if flags &&& 0x4 ≠ 0 then printText con (chars "Middle button is pressed!\n".toList) else con
  let con := if flags &&& 0x2 ≠ 0 then printText con (chars "Right button is pressed!\n".toList) else con
  if flags &&& 0x1 ≠ 0 then printText con (chars "Left button is pressed!\n".toList) else con

/-- What `mouse_interrupt` does once all three bytes of a packet are there. -/
def packet (con : Console) (m : Mouse) : Console × Mouse :=
  let flags := m.mouse_bytes 1
  if flags &&& 0x80 ≠ 0 ∨ flags &&& 0x40 ≠ 0 then (con, m)
  else
    let m := { m with y_neg := decide (flags &&& 0x20 = 0), x_neg := decide (flags &&& 0x10 ≠ 0) }
    movePointer (reportButtons con flags) m

/-- `mouse_interrupt` for a byte at the data port. There is no result if it is stored past the
    end of `mouse_bytes`. -/
def mouse_interrupt (con : Console) (m : Mouse) (data : UInt8) : Option (Console × Mouse) :=
  if hcycle : m.cycle < 3 then
    let m := { m with
      mouse_bytes := Function.update m.mouse_bytes ⟨m.cycle, hcycle⟩ data
      cycle := m.cycle + 1 }
    if m.cycle = 3 then some (packet con { m with cycle := 0 }) else some (con, m)
  else none

end lacos.mouse
