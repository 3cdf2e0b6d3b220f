import LacOS.Keyboard.KeyMaps
import LacOS.Lib.Console
import LacOS.Lib.String
import LacOS.MultiTerm
import LacOS.Rtc
import LacOS.TermMem

open memory lacos.lib

namespace lacos.keyboard

abbrev BACKSPACE_P : UInt8 := 0x0E
abbrev ENTER_KEY_P : UInt8 := 0x1C
abbrev CTRL_KEY_P : UInt8 := 0x1D
abbrev L_KEY_P : UInt8 := 0x26
abbrev L_SHIFT_P : UInt8 := 0x2A
abbrev R_SHIFT_P : UInt8 := 0x36
abbrev ALT_KEY_P : UInt8 := 0x38
abbrev CAPS_LOCK_P : UInt8 := 0x3A
abbrev F1_KEY_P : UInt8 := 0x3B
abbrev F2_KEY_P : UInt8 := 0x3C
abbrev F3_KEY_P : UInt8 := 0x3D
abbrev UP_KEY_P : UInt8 := 0x48
abbrev DOWN_KEY_P : UInt8 := 0x50
abbrev FOUR_KEY_P : UInt8 := 0x05
abbrev FIVE_KEY_P : UInt8 := 0x06

/-- The release codes are the `char` values -99, -86 and -74. -/
abbrev CTRL_KEY_R : UInt8 := 0x9D
abbrev L_SHIFT_R : UInt8 := 0xAA
abbrev R_SHIFT_R : UInt8 := 0xB6

/-- The address of `terminals[t].key_buf`. -/
def key_buf (t : Fin MAX_TERM_NUM) : UInt32 := termAddr t + UInt32.ofNat KEY_BUF

/-- The address of `terminals[t].hist_buf[i]`. The index is a `uint32_t` and need
    not be one of the array's. -/
def hist_buf (t : Fin MAX_TERM_NUM) (i : UInt32) : UInt32 :=
  termAddr t + UInt32.ofNat HIST_BUF + i * UInt32.ofNat KEY_BUF_SIZE

def get_keymap (kbd : Keyboard) (c : UInt8) : UInt8 :=
  if (kbd.l_shift || kbd.r_shift) && kbd.caps_lock then caps_shift_key_map.getD c.toNat 0
  else if kbd.l_shift || kbd.r_shift then shift_key_map.getD c.toNat 0
  else if kbd.caps_lock then caps_key_map.getD c.toNat 0
  else reg_key_map.getD c.toNat 0

def clear_buffer (con : Console) : Console :=
  let t := con.vis_term_id
  let con := con.setTermMem (memset con.termMem (key_buf t) 0 (strlen con.termMem (key_buf t)))
  con.setTerm t { con.terminals t with key_buf_index := 0 }

def add_to_history (con : Console) (command : UInt32) : Console :=
  let t := con.vis_term_id
  let index := (con.terminals t).hist_buf_index
  if index ≥ HIST_COM_NUM then con
  else
    let buf_size := strlen con.termMem command - 1
    let con :=
      if buf_size ≠ 0 ∧ strncmp con.termMem (hist_buf t (index - 1)) con.termMem command buf_size ≠ 0 then
        let con := con.setTerm t { con.terminals t with hist_buf_index := index + 1 }
        con.setTermMem (strncpy con.termMem (hist_buf t index) command buf_size)
      else con
    con.setTerm t { con.terminals t with cur_hist_index := (con.terminals t).hist_buf_index }

/-- `case BACKSPACE_P`. -/
def keyBackspace (con : Console) : Console :=
  let t := con.vis_term_id
  let index := (con.terminals t).key_buf_index
  if index ≠ 0 then
    let con := con.setTerm t { con.terminals t with key_buf_index := index - 1 }
    let con := con.setTermMem (store con.termMem (key_buf t + (index - 1)) 0)
    let con :=
      if (con.terminals t).scrn_c = 0 then
        con.setTerm t
          { con.terminals t with scrn_r := (con.terminals t).scrn_r - 1, scrn_c := UInt8.ofNat NUM_COLS }
      else con
    putc con t 8
  else con

/-- `case ENTER_KEY_P`. -/
def keyEnter (con : Console) : Console :=
  let t := con.vis_term_id
  let index := (con.terminals t).key_buf_index
  let last : UInt32 := if index.toNat < KEY_BUF_SIZE - 1 then index else UInt32.ofNat (KEY_BUF_SIZE - 2)
  let con := con.setTermMem (store con.termMem (key_buf t + last) 10)
  let con := con.setTermMem (store con.termMem (key_buf t + (last + 1)) 0)
  let con := putc con t 10
  con.setTerm t { con.terminals t with key_buf_index := 0, new_line := true }

/-- Put a character into the read buffer and display it. -/
def putKey (con : Console) (c_print : UInt8) : Console :=
  let t := con.vis_term_id
  let index := (con.terminals t).key_buf_index
  let con := con.setTerm t { con.terminals t with key_buf_index := index + 1 }
  let con := con.setTermMem (store con.termMem (key_buf t + index) c_print)
  putc con t c_print

/-- From the label `print_char` on. A full buffer makes the source return without
    enabling interrupts again. -/
def print_char (k : Kernel) (c : UInt8) : Kernel :=
  if (k.terminals k.vis_term_id).key_buf_index.toNat = KEY_BUF_SIZE - 1 then k
  else
    let c_print := get_keymap k.toKeyboard c
    if c_print ≠ 0 then sti (k.onConsole (putKey · c_print)) else sti k

/-- `process_input(BACKSPACE_P)`, as `clear_cur_cmd` calls it. -/
def inputBackspace (k : Kernel) : Kernel :=
  sti ((cli k).onConsole keyBackspace)

def clear_cur_cmd (k : Kernel) : Kernel :=
  let char_cnt := toInt32 (k.terminals k.vis_term_id).key_buf_index
  let k := Nat.repeat inputBackspace char_cnt.toNat k
  k.onConsole clear_buffer

/-- The loop that displays the first `n` characters of the read buffer. -/
def printBuf (con : Console) (t : Fin MAX_TERM_NUM) (n : Nat) : Console :=
  (List.range n).foldl (fun con i => putc con t (con.termMem (key_buf t + UInt32.ofNat i))) con

/-- Copy a history entry of the given length into the read buffer, make it the
    current one and display it. -/
def recallEntry (con : Console) (t : Fin MAX_TERM_NUM) (entry buf_size : UInt32) : Console :=
  let con := con.setTermMem (memcpy con.termMem (key_buf t) (hist_buf t entry) buf_size)
  let con := con.setTerm t { con.terminals t with cur_hist_index := entry, key_buf_index := buf_size }
  printBuf con t (toInt32 buf_size).toNat

/-- `case UP_KEY_P`. -/
def keyUp (k : Kernel) : Kernel :=
  let t := k.vis_term_id
  let buf_size := strlen k.termMem (hist_buf t ((k.terminals t).cur_hist_index - 1))
  if buf_size = 0 then k
  else
    let k := clear_cur_cmd k
    let k := k.onConsole clear_buffer
    k.onConsole fun con => recallEntry con t ((con.terminals t).cur_hist_index - 1) buf_size

/-- `case DOWN_KEY_P`. -/
def keyDown (k : Kernel) : Kernel :=
  let t := k.vis_term_id
  let prev_size := strlen k.termMem (hist_buf t (k.terminals t).cur_hist_index)
  let buf_size := strlen k.termMem (hist_buf t ((k.terminals t).cur_hist_index + 1))
  let k := clear_cur_cmd k
  let k := k.onConsole clear_buffer
  if buf_size = 0 then
    if prev_size ≠ 0 then
      k.onConsole fun con =>
        con.setTerm t { con.terminals t with cur_hist_index := (con.terminals t).cur_hist_index + 1 }
    else k
  else k.onConsole fun con => recallEntry con t ((con.terminals t).cur_hist_index + 1) buf_size

/-- `case FOUR_KEY_P` with CTRL: double the RTC frequency. -/
def keyCtrlFour (k : Kernel) : Kernel :=
  let k := { k with rtc_freq := k.rtc_freq <<< (1 : UInt32) }
  let k := if k.rtc_freq > 0x400 then { k with rtc_freq := 2 } else k
  (rtc.rtc_write k k.rtc_freq 0).2

/-- `case F1_KEY_P` to `F3_KEY_P`. -/
def keyFunction (k : Kernel) (c : UInt8) : Kernel :=
  if k.alt then
    let tid := c - F1_KEY_P
    if k.vis_term_id.val ≠ tid.toNat then multi_term.switch_terminal k tid.toNat else k
  else k

/-- `char` is signed: codes from 0x80 on are key releases. -/
def process_input (k : Kernel) (c : UInt8) : Kernel :=
  let k := cli k
  if c < 0x80 then
    if c = BACKSPACE_P then sti (k.onConsole keyBackspace)
    else if c = ENTER_KEY_P then sti (k.onConsole keyEnter)
    else if c = CTRL_KEY_P then sti { k with ctrl := true }
    else if c = ALT_KEY_P then sti { k with alt := true }
    else if c = L_KEY_P ∧ k.ctrl then sti ((k.onConsole clear_screen).onConsole clear_buffer)
    else if c = L_SHIFT_P then sti { k with l_shift := true }
    else if c = R_SHIFT_P then sti { k with r_shift := true }
    else if c = CAPS_LOCK_P then sti { k with caps_lock := !k.caps_lock }
    else if c = F1_KEY_P ∨ c = F2_KEY_P ∨ c = F3_KEY_P then sti (keyFunction k c)
    else if c = UP_KEY_P then sti (keyUp k)
    else if c = DOWN_KEY_P then sti (keyDown k)
    else if c = FOUR_KEY_P ∧ k.ctrl then sti (keyCtrlFour k)
    else if c = FIVE_KEY_P ∧ k.ctrl then sti { k with rtc_loop := false }
    else print_char k c
  else if c = CTRL_KEY_R then sti { k with ctrl := false }
  else if c = L_SHIFT_R then sti { k with l_shift := false }
  else if c = R_SHIFT_R then sti { k with r_shift := false }
  else sti k

end lacos.keyboard
