import LacOS.Lib.Memory
import LacOS.State

open memory

namespace lacos.lib

/-- Writes a byte to one of the VGA ports. -/
def outb (con : Console) (data : UInt8) (port : UInt16) : Console :=
  if port = 0x3D4 then { con with vga_index := data }
  else if port = 0x3D5 then { con with vga_reg := Function.update con.vga_reg con.vga_index data }
  else con

def set_keyboard_pos (con : Console) (term_id : Fin MAX_TERM_NUM) (row col : Nat) : Console :=
  con.setTerm term_id
    { con.terminals term_id with scrn_r := UInt8.ofNat row, scrn_c := UInt8.ofNat col }

def set_cursor_pos (con : Console) (term_id : Fin MAX_TERM_NUM) (row col : Nat) : Console :=
  let con := con.setTerm term_id
    { con.terminals term_id with curs_r := UInt8.ofNat row, curs_c := UInt8.ofNat col }
  if term_id = con.vis_term_id then
    let position : UInt16 := UInt16.ofNat (row * 80 + col)
    let con := outb con 0x0F 0x3D4
    let con := outb con (position &&& 0xFF).toUInt8 0x3D5
    let con := outb con 0x0E 0x3D4
    outb con ((position >>> 8) &&& 0xFF).toUInt8 0x3D5
  else con

/-- `temp` and the sizes computed from it are `uint32_t`. -/
def scroll (con : Console) (term_id : Fin MAX_TERM_NUM) : Console :=
  let term := con.terminals term_id
  if term.scrn_r.toNat ≥ NUM_ROWS then
    let blank := (0x20 : UInt32) ||| (con.color.toUInt32 <<< 8)
    let temp : UInt32 := term.scrn_r.toUInt32 - UInt32.ofNat NUM_ROWS + 1
    let kept : UInt32 := (UInt32.ofNat NUM_ROWS - temp) * UInt32.ofNat NUM_COLS * 2
    let video := memcpy con.video term.vid_mem (term.vid_mem + temp * UInt32.ofNat NUM_COLS * 2) kept
    let video := memset_word video (term.vid_mem + kept) blank (UInt32.ofNat NUM_COLS)
    { con with video }.setTerm term_id { term with scrn_r := UInt8.ofNat (NUM_ROWS - 1) }
  else con

/-- The first `i` turns of the loop over all cells. -/
def clearCells (video : Mem) (color : UInt8) : Nat → Mem
  | 0 => video
  | i + 1 =>
    let video := clearCells video color i
    let video := store video (VIDEO_ADDR + UInt32.ofNat (i <<< 1)) 0x20
    store video (VIDEO_ADDR + UInt32.ofNat (i <<< 1) + 1) color

def clear_screen (con : Console) : Console :=
  let con := { con with video := clearCells con.video con.color (NUM_ROWS * NUM_COLS) }
  let con := set_keyboard_pos con con.vis_term_id 0 0
  set_cursor_pos con con.vis_term_id 0 0

/-- The character and attribute stores at a terminal's current position. -/
def putCell (con : Console) (term_id : Fin MAX_TERM_NUM) (c attrib : UInt8) : Console :=
  let term := con.terminals term_id
  let cell := term.vid_mem + UInt32.ofNat ((NUM_COLS * term.scrn_r.toNat + term.scrn_c.toNat) <<< 1)
  { con with video := store (store con.video cell c) (cell + 1) attrib }

/-- The two calls that end `putc`. -/
def syncPos (con : Console) (term_id : Fin MAX_TERM_NUM) : Console :=
  let con := set_cursor_pos con term_id (con.terminals term_id).scrn_r.toNat (con.terminals term_id).scrn_c.toNat
  set_keyboard_pos con term_id (con.terminals term_id).scrn_r.toNat (con.terminals term_id).scrn_c.toNat

def putc (con : Console) (term_id : Fin MAX_TERM_NUM) (c : UInt8) : Console :=
  let term := con.terminals term_id
  if c = 10 ∨ c = 13 then
    let con := con.setTerm term_id { term with scrn_r := term.scrn_r + 1, scrn_c := 0 }
    let con := scroll con term_id
    syncPos con term_id
  else if c = 8 then
    if term.scrn_c = 0 then con
    else
      let con := con.setTerm term_id { term with scrn_c := term.scrn_c - 1 }
      let con := putCell con term_id 0x20 con.color
      syncPos con term_id
  else
    let con := con.setTerm term_id
      { term with scrn_r := term.scrn_r + term.scrn_c / 80, scrn_c := term.scrn_c % 80 }
    let con := scroll con term_id
    let con := putCell con term_id c con.color
    let con := con.setTerm term_id { con.terminals term_id with scrn_c := (con.terminals term_id).scrn_c + 1 }
    syncPos con term_id

def puts (con : Console) (term_id : Fin MAX_TERM_NUM) (s : List UInt8) : Console :=
  s.foldl (fun con c => putc con term_id c) con

def putc_color (con : Console) (term_id : Fin MAX_TERM_NUM) (c fg bg : UInt8) : Console :=
  let attrib := (bg <<< 4) ||| (fg &&& 0xF)
  let term := con.terminals term_id
  if c = 10 ∨ c = 13 then
    let con := con.setTerm term_id { term with scrn_r := term.scrn_r + 1, scrn_c := 0 }
    let con := scroll con term_id
    syncPos con term_id
  else
    let con := con.setTerm term_id
      { term with scrn_r := term.scrn_r + term.scrn_c / 80, scrn_c := term.scrn_c % 80 }
    let con := scroll con term_id
    let con := putCell con term_id c attrib
    let con := con.setTerm term_id { con.terminals term_id with scrn_c := (con.terminals term_id).scrn_c + 1 }
    syncPos con term_id

/-- The terminal asked for is not used: the text goes to the scheduled one. -/
def puts_color (con : Console) (_term_id : Fin MAX_TERM_NUM) (s : List UInt8) (fg bg : UInt8) : Console :=
  s.foldl (fun con c => putc_color con con.sched_term_id c fg bg) con

def set_color (con : Console) (fg bg : UInt8) : Console :=
  { con with fg_color := fg, bg_color := bg, color := (bg <<< 4) ||| (fg &&& 0xF) }

/-- The address of a character in video memory. -/
def charAddr (row col : UInt8) : UInt32 :=
  VIDEO_ADDR + UInt32.ofNat ((NUM_COLS * row.toNat + col.toNat) <<< 1)

def get_char (con : Console) (row col : UInt8) : UInt8 := con.video (charAddr row col)

def set_char (con : Console) (c fg bg row col : UInt8) : Console :=
  let attrib := (bg <<< 4) ||| (fg &&& 0xF)
  { con with video := store (store con.video (charAddr row col) c) (charAddr row col + 1) attrib }

end lacos.lib
