import LacOS.Lib.Console
import LacOS.Pcb.Slots

open memory lacos.lib lacos.pcb

namespace lacos.multi_term

/-- The page a terminal's screen is kept in while another terminal is visible. -/
def backingPage (t : Fin MAX_TERM_NUM) : UInt32 :=
  VIDEO_ADDR + UInt32.ofNat (t + 1) * FOUR_KB

def multi_term_init (k : Kernel) : Kernel :=
  { k with
    terminals := fun i =>
      { k.terminals i with
        term_id := UInt8.ofNat i
        vid_mem := if i = 0 then VIDEO_ADDR else backingPage i
        scrn_c := 0
        scrn_r := 0
        curs_r := 0
        curs_c := 0
        key_buf_index := 0
        esp := .null
        cur_task := NULL }
    cur_pcb := NULL }

/-- The first `i` turns of the copying loop, with `current` and `next` the
    screens of the terminal going out and of the one coming in. -/
def swapCells (video : Mem) (current next : UInt32) : Nat → Mem
  | 0 => video
  | i + 1 =>
    let video := swapCells video current next i
    let video := store video (current + UInt32.ofNat i) (video (VIDEO_ADDR + UInt32.ofNat i))
    store video (VIDEO_ADDR + UInt32.ofNat i) (video (next + UInt32.ofNat i))

def switch_screen (con : Console) (new_term_id : Fin MAX_TERM_NUM) : Console :=
  let vis := con.vis_term_id
  let con := con.setTerm vis { con.terminals vis with vid_mem := backingPage vis }
  let con := { con with
    video := swapCells con.video (con.terminals vis).vid_mem (con.terminals new_term_id).vid_mem
      (2 * NUM_COLS * NUM_ROWS) }
  con.setTerm new_term_id { con.terminals new_term_id with vid_mem := VIDEO_ADDR }

def switch_keyboard_and_cursor_pos (con : Console) (new_term_id : Fin MAX_TERM_NUM) : Console :=
  let con := set_keyboard_pos con new_term_id (con.terminals new_term_id).scrn_r.toNat
    (con.terminals new_term_id).scrn_c.toNat
  set_cursor_pos con new_term_id (con.terminals new_term_id).curs_r.toNat (con.terminals new_term_id).curs_c.toNat

/-- The part of `switch_terminal` after its checks. -/
def switchTo (k : Kernel) (new_term_id : Fin MAX_TERM_NUM) : Kernel :=
  let k := cli k
  let k := k.onConsole (switch_screen · new_term_id)
  let k := { k with vis_term_id := new_term_id }
  let k := k.onConsole (switch_keyboard_and_cursor_pos · new_term_id)
  sti k

def switch_terminal (k : Kernel) (new_term_id : Int) : Kernel :=
  if h : 0 ≤ new_term_id ∧ new_term_id < MAX_TERM_NUM then
    if our_popcount k.pcb_status > MAX_PROCESSES then k
    else switchTo k ⟨new_term_id.toNat, by omega⟩
  else k

end lacos.multi_term
