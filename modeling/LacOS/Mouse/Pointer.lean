import Mathlib.Data.List.Induction
import LacOS.Base.Run
import LacOS.Mouse

open memory trace lacos.lib

namespace lacos.mouse

def mouseStep (s : Console × Mouse) (data : UInt8) : Option (Console × Mouse) := mouse_interrupt s.1 s.2 data

/-- The character at a place of the screen. -/
def charAt (con : Console) (row col : Nat) : UInt8 := get_char con (UInt8.ofNat row) (UInt8.ofNat col)

/-- The pointer covers a place of the screen. -/
def Covers (m : Mouse) (row col : Nat) : Prop := m.mouse_y_pos.toInt = row ∧ m.mouse_x_pos.toInt = col

/-- The packet counter is between 0 and 2, and the pointer is on the screen. -/
structure OnScreen (m : Mouse) : Prop where
  cycle : m.cycle ≤ 2
  x_nonneg : 0 ≤ m.mouse_x_pos.toInt
  x_lt : m.mouse_x_pos.toInt < NUM_COLS
  y_nonneg : 0 ≤ m.mouse_y_pos.toInt
  y_lt : m.mouse_y_pos.toInt < NUM_ROWS

/-- Every character that the pointer does not cover is what it was. -/
def Transparent (before con : Console) (m : Mouse) : Prop :=
  ∀ row < NUM_ROWS, ∀ col < NUM_COLS, ¬ Covers m row col → charAt con row col = charAt before row col

/-- The second byte of a packet has its flags: no button is down in any of them. -/
def NoButtons (bytes : List UInt8) : Prop := ∀ i, i % 3 = 1 → bytes.getD i 0 &&& 0x7 = 0

/-- Where a packet moves the pointer, from a row and a column. -/
def packetMove (pos : Int8 × Int8) (y flags x : UInt8) : Int8 × Int8 :=
  if flags &&& 0x80 ≠ 0 ∨ flags &&& 0x40 ≠ 0 then pos
  else (movement pos.1 (decide (flags &&& 0x20 = 0)) y NUM_ROWS, movement pos.2 (decide (flags &&& 0x10 ≠ 0)) x NUM_COLS)

/-- Where the packets of a stream move it, one after the other. -/
def movedBy (pos : Int8 × Int8) : List UInt8 → Int8 × Int8
  | y :: flags :: x :: rest => movedBy (packetMove pos y flags x) rest
  | _ => pos

/-- The place the pointer starts from. -/
def corner : Int8 × Int8 := (Int8.ofNat (NUM_ROWS - 1), Int8.ofNat (NUM_COLS - 1))

section Screen

/-- The address of a character, as the pointer computes it, is that of the screen. -/
theorem charAddr_eq (row col : UInt8) :
    charAddr row col = VIDEO_ADDR + UInt32.ofNat (2 * (80 * row.toNat + col.toNat)) := by
  rw [charAddr, Nat.shiftLeft_eq, Nat.mul_comm]

variable {row col : Nat} (hrow : row < NUM_ROWS) (hcol : col < NUM_COLS)
include hrow hcol

theorem charAt_eq (con : Console) :
    charAt con row col = con.video (VIDEO_ADDR + UInt32.ofNat (2 * (80 * row + col))) := by
  have hsize : UInt8.size = 256 := rfl
  simp only [NUM_ROWS, NUM_COLS] at hrow hcol
  rw [charAt, get_char, charAddr_eq, UInt8.toNat_ofNat_of_lt' (by omega), UInt8.toNat_ofNat_of_lt' (by omega)]

/-- `set_char` changes one character. -/
theorem charAt_set_char (con : Console) (ch fg bg : UInt8) {r c : UInt8} (hr : r.toNat < NUM_ROWS)
    (hc : c.toNat < NUM_COLS) : charAt (set_char con ch fg bg r c) row col =
      if row = r.toNat ∧ col = c.toNat then ch else charAt con row col := by
  have hnext : VIDEO_ADDR + UInt32.ofNat (2 * (80 * r.toNat + c.toNat)) + 1 =
      VIDEO_ADDR + UInt32.ofNat (2 * (80 * r.toNat + c.toNat) + 1) := by
    rw [UInt32.ofNat_add, UInt32.add_assoc]
    rfl
  rw [charAt_eq hrow hcol, charAt_eq hrow hcol]
  simp only [NUM_ROWS, NUM_COLS] at hr hc hrow hcol
  simp only [set_char, charAddr_eq, hnext]
  rw [store_offset _ _ _ (by omega) (by omega), if_neg (by omega), store_offset _ _ _ (by omega) (by omega)]
  exact if_congr (by omega) rfl rfl

end Screen

/-- A position that is not negative is the same number without a sign. -/
theorem toUInt8_toNat {pos : Int8} (hpos : 0 ≤ pos.toInt) : (pos.toUInt8.toNat : Int) = pos.toInt := by
  have hvalue : pos.toInt = _ := BitVec.toInt_eq_toNat_cond pos.toBitVec
  change (pos.toBitVec.toNat : Int) = pos.toInt
  have hlt := pos.toBitVec.isLt
  split at hvalue
  · exact hvalue.symm
  · omega

/-- A movement stops at the ends of its axis. -/
theorem movement_inside {pos : Int8} {size : Nat} (hsize : size ≤ 127) (hlow : 0 ≤ pos.toInt) (hhigh : pos.toInt < size)
    (neg : Bool) (byte : UInt8) :
    0 ≤ (movement pos neg byte size).toInt ∧ (movement pos neg byte size).toInt < size := by
  have hlast : (Int8.ofNat (size - 1)).toInt = size - 1 := by
    rw [Int8.toInt_ofNat_of_lt (by omega)]
    omega
  simp only [movement]
  split
  · -- The two tests bring any sum back onto the axis.
    generalize Int8.ofInt _ = next
    split
    · split
      · omega
      · exact ⟨Int.le_refl 0, by omega⟩
    · split
      · omega
      · omega
  · exact ⟨hlow, hhigh⟩

section Move

variable {before con : Console} {m : Mouse}

/-- The screen the pointer moves over: the place it starts from has lost its character. -/
def leftChar (before : Console) (row col : Nat) : UInt8 :=
  if row = NUM_ROWS - 1 ∧ col = NUM_COLS - 1 then 0 else charAt before row col

/-- The pointer has saved the character it covers, and all others are on the screen. -/
structure Shows (before con : Console) (m : Mouse) : Prop where
  covered : ∀ row < NUM_ROWS, ∀ col < NUM_COLS, Covers m row col → m.old_char = leftChar before row col
  others : ∀ row < NUM_ROWS, ∀ col < NUM_COLS, ¬ Covers m row col → charAt con row col = leftChar before row col

/-- The place of the pointer, as `mouse_interrupt` passes it to `get_char` and `set_char`. -/
theorem OnScreen.covers_iff (hm : OnScreen m) (row col : Nat) :
    Covers m row col ↔ row = m.mouse_y_pos.toUInt8.toNat ∧ col = m.mouse_x_pos.toUInt8.toNat := by
  have hy := toUInt8_toNat hm.y_nonneg
  have hx := toUInt8_toNat hm.x_nonneg
  rw [Covers]
  omega

/-- The pointer is on a character of the screen. -/
theorem OnScreen.pos_lt (hm : OnScreen m) :
    m.mouse_y_pos.toUInt8.toNat < NUM_ROWS ∧ m.mouse_x_pos.toUInt8.toNat < NUM_COLS := by
  have hy := toUInt8_toNat hm.y_nonneg
  have hx := toUInt8_toNat hm.x_nonneg
  have hrow := hm.y_lt
  have hcol := hm.x_lt
  omega

/-- A move stops at the edges. -/
theorem OnScreen.movePointer (hm : OnScreen m) : OnScreen (movePointer con m).2 where
  cycle := hm.cycle
  x_nonneg := (movement_inside (by decide) hm.x_nonneg hm.x_lt _ _).1
  x_lt := (movement_inside (by decide) hm.x_nonneg hm.x_lt _ _).2
  y_nonneg := (movement_inside (by decide) hm.y_nonneg hm.y_lt _ _).1
  y_lt := (movement_inside (by decide) hm.y_nonneg hm.y_lt _ _).2

/-- Between the two `set_char` calls no place is covered. -/
theorem Shows.uncovered (hm : OnScreen m) (hshows : Shows before con m) (fg bg : UInt8) {row col : Nat}
    (hrow : row < NUM_ROWS) (hcol : col < NUM_COLS) :
    charAt (set_char con m.old_char fg bg m.mouse_y_pos.toUInt8 m.mouse_x_pos.toUInt8) row col =
      leftChar before row col := by
  obtain ⟨hy, hx⟩ := hm.pos_lt
  rw [charAt_set_char hrow hcol con _ _ _ hy hx]
  split
  · rename_i hplace
    exact hshows.covered row hrow col hcol ((hm.covers_iff row col).mpr hplace)
  · rename_i hplace
    exact hshows.others row hrow col hcol (mt (hm.covers_iff row col).mp hplace)

/-- A move gives back what the pointer has covered and covers another character. -/
theorem Shows.movePointer (hm : OnScreen m) (hshows : Shows before con m) :
    Shows before (movePointer con m).1 (movePointer con m).2 := by
  have hm' : OnScreen (mouse.movePointer con m).2 := hm.movePointer
  obtain ⟨hy, hx⟩ := hm'.pos_lt
  refine ⟨fun row hrow col hcol hcovers => ?_, fun row hrow col hcol hcovers => ?_⟩
  · obtain ⟨rfl, rfl⟩ := (hm'.covers_iff row col).mp hcovers
    rw [← hshows.uncovered hm con.fg_color con.bg_color hrow hcol, charAt, UInt8.ofNat_toNat, UInt8.ofNat_toNat]
    rfl
  · have hplace := mt (hm'.covers_iff row col).mpr hcovers
    have hdrawn := charAt_set_char hrow hcol
      (set_char con m.old_char con.fg_color con.bg_color m.mouse_y_pos.toUInt8 m.mouse_x_pos.toUInt8) 0x20 3 1 hy hx
    rw [if_neg hplace, hshows.uncovered hm _ _ hrow hcol] at hdrawn
    exact hdrawn

end Move

/-- Without a button nothing is printed. -/
theorem reportButtons_of_none (con : Console) {flags : UInt8} (hflags : flags &&& 0x7 = 0) :
    reportButtons con flags = con := by
  have hall : ∀ f : Fin 256, UInt8.ofNat f &&& 0x7 = 0 →
      UInt8.ofNat f &&& 0x4 = 0 ∧ UInt8.ofNat f &&& 0x2 = 0 ∧ UInt8.ofNat f &&& 0x1 = 0 := by decide +kernel
  have hbits := hall ⟨flags.toNat, flags.toNat_lt⟩
  simp only [UInt8.ofNat_toNat] at hbits
  obtain ⟨hmiddle, hright, hleft⟩ := hbits hflags
  simp only [reportButtons, hmiddle, hright, hleft, ne_eq, not_true, if_false]

/-- What holds after `n` bytes. -/
structure Tracked (before : Console) (n : Nat) (s : Console × Mouse) : Prop where
  on_screen : OnScreen s.2
  cycle : s.2.cycle = n % 3
  flags : s.2.cycle = 2 → s.2.mouse_bytes 1 &&& 0x7 = 0
  shows : Shows before s.1 s.2

theorem onScreen_mouseGlobals : OnScreen mouseGlobals := by
  constructor <;> decide

theorem tracked_start (before : Console) : Tracked before 0 (before, mouseGlobals) where
  on_screen := onScreen_mouseGlobals
  cycle := rfl
  flags h := absurd (show mouseGlobals.cycle = 2 from h) (by decide)
  shows := by
    have hplace (row col : Nat) : Covers mouseGlobals row col ↔ row = NUM_ROWS - 1 ∧ col = NUM_COLS - 1 := by
      have hy : mouseGlobals.mouse_y_pos.toInt = 24 := by decide
      have hx : mouseGlobals.mouse_x_pos.toInt = 79 := by decide
      rw [Covers, hy, hx]
      simp only [NUM_ROWS, NUM_COLS]
      omega
    refine ⟨fun row _ col _ hcovers => ?_, fun row _ col _ hcovers => ?_⟩
    · rw [leftChar, if_pos ((hplace row col).mp hcovers)]
      rfl
    · rw [leftChar, if_neg (mt (hplace row col).mpr hcovers)]

section Packet

variable {before con : Console} {m : Mouse}

/-- A packet leaves the place in the cycle to its caller. -/
theorem packet_cycle : (packet con m).2.cycle = m.cycle := by
  simp only [packet]
  split <;> rfl

/-- A whole packet leaves the pointer on the screen, whatever its bytes are. -/
theorem OnScreen.packet (hm : OnScreen m) : OnScreen (packet con m).2 := by
  simp only [mouse.packet]
  split
  · exact hm
  · exact OnScreen.movePointer ⟨hm.cycle, hm.x_nonneg, hm.x_lt, hm.y_nonneg, hm.y_lt⟩

/-- A whole packet leaves the screen as it was but for the pointer, if no button is down. -/
theorem Shows.packet (hm : OnScreen m) (hflags : m.mouse_bytes 1 &&& 0x7 = 0) (hshows : Shows before con m) :
    Shows before (packet con m).1 (packet con m).2 := by
  simp only [mouse.packet, reportButtons_of_none con hflags]
  split
  · exact hshows
  · exact Shows.movePointer ⟨hm.cycle, hm.x_nonneg, hm.x_lt, hm.y_nonneg, hm.y_lt⟩ ⟨hshows.covered, hshows.others⟩

end Packet

/-- One more byte. -/
theorem Tracked.mouseStep {before : Console} {n : Nat} {s : Console × Mouse} (hs : Tracked before n s)
    (data : UInt8) (hdata : n % 3 = 1 → data &&& 0x7 = 0) :
    ∃ s', mouseStep s data = some s' ∧ Tracked before (n + 1) s' := by
  obtain ⟨con, m⟩ := s
  obtain ⟨hm, hcycle, hflags, hshows⟩ := hs
  simp only at hm hcycle hflags hshows
  have hroom : m.cycle < 3 := Nat.lt_succ_of_le hm.cycle
  simp only [mouse.mouseStep, mouse_interrupt, hroom, dif_pos]
  by_cases hlast : m.cycle + 1 = 3
  · -- The third byte completes a packet whose flags were checked with the second one.
    rw [if_pos hlast]
    have htwo : m.cycle = 2 := by omega
    have hkept : Function.update m.mouse_bytes ⟨m.cycle, hroom⟩ data 1 = m.mouse_bytes 1 :=
      Function.update_of_ne (by simp [Fin.ext_iff, htwo]) _ _
    have hon : OnScreen { m with mouse_bytes := Function.update m.mouse_bytes ⟨m.cycle, hroom⟩ data, cycle := 0 } :=
      ⟨Nat.zero_le 2, hm.x_nonneg, hm.x_lt, hm.y_nonneg, hm.y_lt⟩
    refine ⟨_, rfl, hon.packet, ?_, ?_, ?_⟩
    · rw [packet_cycle]
      simp only
      omega
    · intro hcycle'
      rw [packet_cycle] at hcycle'
      cases hcycle'
    · refine Shows.packet hon ?_ ⟨hshows.covered, hshows.others⟩
      simp only [hkept]
      exact hflags htwo
  · rw [if_neg hlast]
    refine ⟨_, rfl, ⟨?_, hm.x_nonneg, hm.x_lt, hm.y_nonneg, hm.y_lt⟩, ?_, ?_, ⟨hshows.covered, hshows.others⟩⟩
    · simp only
      omega
    · simp only
      omega
    · intro hcycle'
      simp only at hcycle'
      have hone : m.cycle = 1 := by omega
      have hstored : Function.update m.mouse_bytes ⟨m.cycle, hroom⟩ data 1 = data := by
        have hindex : (⟨m.cycle, hroom⟩ : Fin 3) = 1 := Fin.ext hone
        rw [hindex, Function.update_self]
      simp only [hstored]
      exact hdata (by omega)

/-- Any bytes without buttons leave the pointer on a screen that is otherwise as it was. By
    induction on them. -/
theorem tracked_run (before : Console) (bytes : List UInt8) (hbuttons : NoButtons bytes) :
    ∃ s, run mouseStep (before, mouseGlobals) bytes = some s ∧ Tracked before bytes.length s := by
  induction bytes using List.reverseRecOn with
  | nil => exact ⟨_, rfl, tracked_start before⟩
  | append_singleton bytes data ih =>
    have hfront : NoButtons bytes := by
      intro i hi
      have hbyte := hbuttons i hi
      rw [getD_snoc] at hbyte
      split at hbyte
      · rename_i hlast
        rw [List.getD_eq_default _ _ (Nat.le_of_eq hlast.symm)]
        rfl
      · exact hbyte
    obtain ⟨s, hrun, hs⟩ := ih hfront
    obtain ⟨s', hstep, hs'⟩ := hs.mouseStep data fun hflags => by
      have hbyte := hbuttons bytes.length hflags
      rwa [getD_snoc, if_pos rfl] at hbyte
    refine ⟨s', ?_, by rwa [List.length_append]⟩
    rw [run_append, hrun, Option.bind_some, run, hstep]
    rfl

section Position

variable {con : Console} {m : Mouse} {data : UInt8}

/-- The first two bytes of a packet are kept. -/
theorem mouseStep_early (hcycle : m.cycle < 2) : mouseStep (con, m) data =
    some (con, { m with
      mouse_bytes := Function.update m.mouse_bytes ⟨m.cycle, by omega⟩ data
      cycle := m.cycle + 1 }) := by
  have hroom : m.cycle < 3 := by omega
  have hlast : ¬ m.cycle + 1 = 3 := by omega
  simp only [mouseStep, mouse_interrupt, dif_pos hroom, if_neg hlast]

/-- The third one completes it. -/
theorem mouseStep_last (hcycle : m.cycle = 2) : mouseStep (con, m) data =
    some (packet con { m with mouse_bytes := Function.update m.mouse_bytes 2 data, cycle := 0 }) := by
  have hroom : m.cycle < 3 := by omega
  have hlast : m.cycle + 1 = 3 := by omega
  have hindex : (⟨m.cycle, hroom⟩ : Fin 3) = 2 := Fin.ext hcycle
  simp only [mouseStep, mouse_interrupt, dif_pos hroom, if_pos hlast, hindex]

/-- The pointer moves by the first and the last byte. The middle one has their signs, and holds
    the pointer in case of an overflow. -/
theorem packet_position (con : Console) (m : Mouse) :
    ((packet con m).2.mouse_y_pos, (packet con m).2.mouse_x_pos) =
      packetMove (m.mouse_y_pos, m.mouse_x_pos) (m.mouse_bytes 0) (m.mouse_bytes 1) (m.mouse_bytes 2) := by
  simp only [packet, packetMove]
  split
  · rfl
  · rfl

/-- The three bytes of a packet. -/
theorem run_packet (hcycle : m.cycle = 0) (y flags x : UInt8) : ∃ con' m',
    run mouseStep (con, m) [y, flags, x] = some (con', m') ∧ m'.cycle = 0 ∧
      (m'.mouse_y_pos, m'.mouse_x_pos) = packetMove (m.mouse_y_pos, m.mouse_x_pos) y flags x := by
  obtain ⟨cycle, bytes, x_neg, y_neg, x_pos, y_pos, old_char⟩ := m
  obtain rfl : cycle = 0 := hcycle
  rw [run, mouseStep_early (by exact Nat.zero_lt_two), Option.bind_some, run,
    mouseStep_early (by exact Nat.one_lt_two), Option.bind_some, run, mouseStep_last rfl, Option.bind_some, run]
  refine ⟨_, _, congrArg some (Prod.eta _).symm, packet_cycle, ?_⟩
  rw [packet_position]
  rfl

/-- The pointer is where the packets have moved it; the bytes of one that is not complete
    move nothing. -/
theorem run_position {con : Console} {m : Mouse} {bytes : List UInt8} {s : Console × Mouse} (hcycle : m.cycle = 0)
    (hrun : run mouseStep (con, m) bytes = some s) :
    (s.2.mouse_y_pos, s.2.mouse_x_pos) = movedBy (m.mouse_y_pos, m.mouse_x_pos) bytes := by
  match bytes with
  | [] =>
    cases hrun
    rfl
  | [y] =>
    rw [run, mouseStep_early (by omega)] at hrun
    cases hrun
    rfl
  | [y, flags] =>
    rw [run, mouseStep_early (by omega), Option.bind_some, run, mouseStep_early (by simp only; omega)] at hrun
    cases hrun
    rfl
  | y :: flags :: x :: rest =>
    obtain ⟨con', m', hpacket, hcycle', hmoved⟩ := @run_packet con m hcycle y flags x
    have hsplit : y :: flags :: x :: rest = [y, flags, x] ++ rest := rfl
    rw [hsplit, run_append, hpacket, Option.bind_some] at hrun
    rw [run_position hcycle' hrun, hmoved, movedBy]

end Position

/-- The last character of the screen is covered from one position only. -/
theorem covers_corner_iff (m : Mouse) :
    Covers m (NUM_ROWS - 1) (NUM_COLS - 1) ↔ (m.mouse_y_pos, m.mouse_x_pos) = corner := by
  have hrow : (Int8.ofNat (NUM_ROWS - 1)).toInt = (NUM_ROWS - 1 : Nat) := by decide
  have hcol : (Int8.ofNat (NUM_COLS - 1)).toInt = (NUM_COLS - 1 : Nat) := by decide
  rw [Covers, corner, Prod.mk.injEq, ← Int8.toInt_inj, ← Int8.toInt_inj, hrow, hcol]

/-- With no button down, the packet counter and the pointer stay in their ranges for every
    stream of bytes, and the pointer is where the packets move it. After a complete packet all
    characters but the covered one are what they were before the first, exactly if the packets
    have brought the pointer back to the place it started from, or there was no character. -/
theorem pointer_transparent_iff (before : Console) (bytes : List UInt8) (hbuttons : NoButtons bytes) :
    ∃ con m, run mouseStep (before, mouseGlobals) bytes = some (con, m) ∧ OnScreen m ∧
      (m.mouse_y_pos, m.mouse_x_pos) = movedBy corner bytes ∧
      (bytes.length % 3 = 0 → (Transparent before con m ↔
        movedBy corner bytes = corner ∨ charAt before (NUM_ROWS - 1) (NUM_COLS - 1) = 0)) := by
  obtain ⟨⟨con, m⟩, hrun, hm, -, -, hshows⟩ := tracked_run before bytes hbuttons
  have hposition : (m.mouse_y_pos, m.mouse_x_pos) = movedBy corner bytes := run_position rfl hrun
  refine ⟨con, m, hrun, hm, hposition, fun _ => ?_⟩
  rw [← hposition, ← covers_corner_iff]
  refine ⟨fun htransparent => ?_, fun hcorner row hrow col hcol hcovers => ?_⟩
  · by_contra hnot
    obtain ⟨hcovers, hchar⟩ := not_or.mp hnot
    have hlost := hshows.others _ (by decide) _ (by decide) hcovers
    rw [htransparent _ (by decide) _ (by decide) hcovers, leftChar, if_pos ⟨rfl, rfl⟩] at hlost
    exact hchar hlost
  · rw [hshows.others row hrow col hcol hcovers, leftChar]
    split
    · rename_i hplace
      obtain ⟨rfl, rfl⟩ := hplace
      rcases hcorner with hcorner | hcorner
      · exact absurd hcorner hcovers
      · exact hcorner.symm
    · rfl

theorem noButtons_nil : NoButtons [] := fun i _ => by rw [List.getD_nil, UInt8.zero_and]

/-- A packet without buttons can be put before others. -/
theorem noButtons_packet (y x : UInt8) {flags : UInt8} (hflags : flags &&& 0x7 = 0) {rest : List UInt8}
    (hrest : NoButtons rest) : NoButtons (y :: flags :: x :: rest) := by
  intro i hi
  match i with
  | 0 => cases hi
  | 1 => exact hflags
  | 2 => cases hi
  | i + 3 =>
    have hi' : i % 3 = 1 := by omega
    exact hrest i hi'

/-- A screen full of the letter A. -/
def letters : Console := { blankMachine.toConsole with video := fun _ => 0x41 }

/-- A step to the left and one back on a screen full of text. -/
theorem pointer_transparent_back : NoButtons [0, 0x10, 1, 0, 0, 1] ∧
    ∃ con m, run mouseStep (letters, mouseGlobals) [0, 0x10, 1, 0, 0, 1] = some (con, m) ∧
      OnScreen m ∧ Transparent letters con m := by
  have hbuttons : NoButtons [0, 0x10, 1, 0, 0, 1] :=
    noButtons_packet 0 1 (by decide) (noButtons_packet 0 1 (by decide) noButtons_nil)
  obtain ⟨con, m, hrun, hm, -, hiff⟩ := pointer_transparent_iff letters _ hbuttons
  exact ⟨hbuttons, con, m, hrun, hm, (hiff rfl).mpr (.inl (by decide))⟩

/-- A step to the left alone leaves a zero in the corner. -/
theorem corner_loses_char : NoButtons [0, 0x10, 1] ∧
    ∃ con m, run mouseStep (letters, mouseGlobals) [0, 0x10, 1] = some (con, m) ∧ ¬ Transparent letters con m := by
  refine ⟨noButtons_packet 0 1 (by decide) noButtons_nil, _, _, rfl, fun htransparent => ?_⟩
  have hcorner := htransparent 24 (by decide) 79 (by decide) fun hcovers => absurd hcovers.2 (by decide +kernel)
  exact absurd hcorner (by decide +kernel)

end lacos.mouse
