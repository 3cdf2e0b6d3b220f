import LacOS.Base.Run
import LacOS.Keyboard.Input
import LacOS.Lib.Frame
import LacOS.Lib.Refine
import LacOS.MultiTerm.Virtual
import LacOS.Terminal

open memory lacos.lib lacos.multi_term lacos.terminal trace

namespace lacos.keyboard

/-- Terminal `t` is visible and scheduled, its position is on the screen and its
    buffer index in the buffer; outside the screen, video memory is `video`. -/
structure OnScreen (video : Mem) (t : Fin MAX_TERM_NUM) (con : Console) : Prop where
  vis : con.vis_term_id = t
  sched : con.sched_term_id = t
  vid_mem : (con.terminals t).vid_mem = VIDEO_ADDR
  in_bounds : (screen con t).InBounds
  index : (con.terminals t).key_buf_index.toNat < KEY_BUF_SIZE
  frame : ∀ a, 4000 ≤ (a - VIDEO_ADDR).toNat → con.video a = video a

section OnScreen

variable {video : Mem} {t : Fin MAX_TERM_NUM} {con : Console} (hcon : OnScreen video t con)
include hcon

/-- The terminal can get any screen with its position in bounds. -/
theorem OnScreen.install {s : Screen} (hpos : s.InBounds) :
    OnScreen video t (showCursor (lib.install con t s) t) where
  vis := by simpa using hcon.vis
  sched := by simpa using hcon.sched
  vid_mem := by simpa using hcon.vid_mem
  in_bounds := by simpa using hpos
  index := by simpa using hcon.index
  frame a ha := by
    rw [showCursor_video, install_video, hcon.vid_mem, fillWith_outside _ ha]
    exact hcon.frame a ha

/-- A change to the terminal that leaves its screen alone. -/
theorem OnScreen.setTerm {term : term_t} (hvid : term.vid_mem = (con.terminals t).vid_mem)
    (hrow : term.scrn_r.toNat ≤ 24) (hcol : term.scrn_c.toNat ≤ 80) (hindex : term.key_buf_index.toNat < KEY_BUF_SIZE) :
    OnScreen video t (con.setTerm t term) where
  vis := hcon.vis
  sched := hcon.sched
  vid_mem := by
    rw [Console.setTerm_same, hvid]
    exact hcon.vid_mem
  in_bounds := by
    simp only [Screen.InBounds, screen, Console.setTerm_same]
    exact ⟨hrow, hcol⟩
  index := by simpa using hindex
  frame := hcon.frame

/-- A character printed stays on the screen. This holds for a backspace character in the first
    place too. -/
theorem OnScreen.putc (c : UInt8) : OnScreen video t (lib.putc con t c) := by
  obtain hsame | ⟨s, hpos, hputc⟩ := putc_cases con t c hcon.in_bounds
  · rw [hsame]
    exact hcon
  · rw [hputc]
    exact hcon.install hpos

/-- So does a string. By induction on it. -/
theorem OnScreen.puts (s : List UInt8) : OnScreen video t (lib.puts con t s) := by
  induction s generalizing con with
  | nil => exact hcon
  | cons c s ih => exact ih (hcon.putc c)

theorem OnScreen.clear_screen : OnScreen video t (lib.clear_screen con) := by
  rw [clear_screen_eq con (by rw [hcon.vis]; exact hcon.vid_mem), hcon.vis]
  exact hcon.install (Screen.clear_inBounds _ _)

theorem OnScreen.clear_buffer : OnScreen video t (keyboard.clear_buffer con) := by
  obtain ⟨hrow, hcol⟩ := hcon.in_bounds
  rw [clear_buffer_eq, hcon.vis]
  exact hcon.setTerm rfl hrow hcol (show (0 : UInt32).toNat < KEY_BUF_SIZE by decide)

/-- So does a character that is typed, if the key buffer has room for it. -/
theorem OnScreen.putKey (c_print : UInt8) (hroom : (con.terminals t).key_buf_index.toNat ≠ KEY_BUF_SIZE - 1) :
    OnScreen video t (keyboard.putKey con c_print) := by
  obtain ⟨hrow, hcol⟩ := hcon.in_bounds
  have hindex : (addChar (con.terminals t) c_print).key_buf_index.toNat < KEY_BUF_SIZE := by
    have hlt := hcon.index
    rw [addChar_index _ _ hlt]
    omega
  rw [putKey_eq con c_print (by rw [hcon.vis]; exact hcon.index), hcon.vis]
  have hset : OnScreen video t (con.setTerm t (addChar (con.terminals t) c_print)) :=
    hcon.setTerm rfl hrow hcol hindex
  exact hset.putc c_print

/-- So does Enter, for a full line too. -/
theorem OnScreen.keyEnter : OnScreen video t (keyboard.keyEnter con) := by
  obtain ⟨hrow, hcol⟩ := hcon.in_bounds
  have hline : OnScreen video t (con.setTerm t (endLine (con.terminals t))) :=
    hcon.setTerm rfl hrow hcol hcon.index
  have hputc := hline.putc 10
  obtain ⟨hrow', hcol'⟩ := hputc.in_bounds
  rw [keyEnter_eq, hcon.vis]
  exact hputc.setTerm rfl hrow' hcol' (show (0 : UInt32).toNat < KEY_BUF_SIZE by decide)

/-- Backspace stays on the screen unless the position is its first cell. -/
theorem OnScreen.keyBackspace (hguard : (con.terminals t).key_buf_index ≠ 0 →
      ¬ ((con.terminals t).scrn_r = 0 ∧ (con.terminals t).scrn_c = 0)) :
    OnScreen video t (keyboard.keyBackspace con) := by
  by_cases hempty : (con.terminals t).key_buf_index = 0
  · simp only [keyboard.keyBackspace, hcon.vis, hempty, ne_eq, not_true, if_false]
    exact hcon
  · rw [keyBackspace_eq con (by rw [hcon.vis]; exact hempty) (by rw [hcon.vis]; exact hcon.index), hcon.vis]
    obtain ⟨hrow, hcol⟩ := hcon.in_bounds
    have hindex : (eraseLast (con.terminals t)).key_buf_index.toNat < KEY_BUF_SIZE := by
      rw [eraseLast_index hempty]
      exact Nat.lt_of_le_of_lt (Nat.sub_le _ _) hcon.index
    refine OnScreen.putc (hcon.setTerm ?_ ?_ ?_ ?_) 8
    · split <;> rfl
    · split
      · rename_i hzero
        have hfirst : (con.terminals t).scrn_r ≠ 0 := fun h => hguard hempty ⟨h, hzero⟩
        change ((con.terminals t).scrn_r - 1).toNat ≤ 24
        rw [byte_pred hfirst]
        exact Nat.le_trans (Nat.sub_le _ _) hrow
      · exact hrow
    · split
      · exact show (UInt8.ofNat NUM_COLS).toNat ≤ 80 by decide
      · exact hcol
    · split <;> exact hindex

end OnScreen

/-- What happens to a terminal that is visible and scheduled. -/
inductive Event where
  | key (c : UInt8)
  | write (m : Mem) (buf : UInt32) (nbytes : Int)

def step (k : Kernel) : Event → Option Kernel
  | .key c => if c ∈ navigationKeys then none else some (process_input k c)
  | .write m buf nbytes => some (terminal_write k m buf nbytes).2

/-- Backspace finds an empty line or a position after the first cell. -/
def BackspaceStays (k : Kernel) : Event → Prop
  | .key c => c = BACKSPACE_P → (k.terminals k.vis_term_id).key_buf_index ≠ 0 →
      ¬ ((k.terminals k.vis_term_id).scrn_r = 0 ∧ (k.terminals k.vis_term_id).scrn_c = 0)
  | .write _ _ _ => True

instance (k : Kernel) (ev : Event) : Decidable (BackspaceStays k ev) := by
  cases ev <;> (unfold BackspaceStays; infer_instance)

/-- The position of terminal `t` is on its screen, and nothing outside of the
    screen has been written to `video`. -/
def PositionSafe (video : Mem) (t : Fin MAX_TERM_NUM) (k : Kernel) : Prop :=
  (k.terminals t).scrn_r.toNat ≤ 24 ∧ (k.terminals t).scrn_c.toNat ≤ 80 ∧
    ∀ a, 4000 ≤ (a - (k.terminals t).vid_mem).toNat → k.video a = video a

/-- A terminal on its screen is safe. -/
theorem OnScreen.positionSafe {video : Mem} {t : Fin MAX_TERM_NUM} {k : Kernel}
    (hk : OnScreen video t k.toConsole) : PositionSafe video t k := by
  obtain ⟨hrow, hcol⟩ := hk.in_bounds
  refine ⟨hrow, hcol, fun a ha => hk.frame a ?_⟩
  rwa [hk.vid_mem] at ha

/-- One event leaves the terminal on its screen, if a Backspace does. By cases on it. -/
theorem step_onScreen {video : Mem} {t : Fin MAX_TERM_NUM} (k : Kernel) (ev : Event) (k' : Kernel)
    (hk : OnScreen video t k.toConsole) (hguard : BackspaceStays k ev) (hstep : step k ev = some k') :
    OnScreen video t k'.toConsole := by
  cases ev with
  | key c =>
    simp only [step] at hstep
    split at hstep
    · cases hstep
    · rename_i hkey
      cases hstep
      rw [process_input_toConsole k c hkey]
      simp only [BackspaceStays, hk.vis] at hguard
      split
      · rename_i hback
        exact hk.keyBackspace (hguard hback)
      · split
        · exact hk.keyEnter
        · split
          · exact hk.clear_screen.clear_buffer
          · split
            · exact hk
            · rename_i hroom
              rw [hk.vis] at hroom
              cases typed k.toKeyboard c with
              | none => exact hk
              | some ch => exact hk.putKey ch hroom
  | write m buf nbytes =>
    cases hstep
    have hputs := hk.puts ((List.range nbytes.toNat).map fun i => m (buf + UInt32.ofNat i))
    simp only [terminal_write, sti_toConsole, Kernel.onConsole_toConsole, cli_toConsole, hk.sched]
    exact hputs

/-- A backspace character stays in its row, but for the first column. -/
theorem putc_backspace_scrn_r (con : Console) (t : Fin MAX_TERM_NUM) (hcol : (con.terminals t).scrn_c ≠ 0) :
    ((lib.putc con t 8).terminals t).scrn_r = (con.terminals t).scrn_r := by
  have hc : ¬ ((8 : UInt8) = 10 ∨ (8 : UInt8) = 13) := by decide
  simp only [lib.putc, hc, hcol, if_false, if_true, syncPos_eq, showCursor_terminals, install_terminals]
  simp only [Screen.sync, screen, putCell, Console.setTerm_same]

/-- From the first cell, Backspace on a non-empty line leaves the screen. -/
theorem keyBackspace_scrn_r (con : Console) (hempty : (con.terminals con.vis_term_id).key_buf_index ≠ 0)
    (hindex : (con.terminals con.vis_term_id).key_buf_index.toNat < KEY_BUF_SIZE)
    (hrow : (con.terminals con.vis_term_id).scrn_r = 0) (hcol : (con.terminals con.vis_term_id).scrn_c = 0) :
    ((keyBackspace con).terminals con.vis_term_id).scrn_r = 255 := by
  have hcol' : (eraseLast (con.terminals con.vis_term_id)).scrn_c = 0 := hcol
  have hrow' : (eraseLast (con.terminals con.vis_term_id)).scrn_r = 0 := hrow
  rw [keyBackspace_eq con hempty hindex]
  simp only [hcol', if_true]
  rw [putc_backspace_scrn_r, Console.setTerm_same, hrow']
  · rfl
  · rw [Console.setTerm_same]
    exact show UInt8.ofNat NUM_COLS ≠ 0 by decide

/-- A Backspace in the first place with something to erase does leave the screen: the row wraps
    around to 255. -/
theorem step_escapes {video : Mem} {t : Fin MAX_TERM_NUM} (k : Kernel) (ev : Event)
    (hk : OnScreen video t k.toConsole) (hnot : ¬ BackspaceStays k ev) :
    ∃ k', step k ev = some k' ∧ ¬ PositionSafe video t k' := by
  cases ev with
  | key c =>
    simp only [BackspaceStays, hk.vis] at hnot
    push Not at hnot
    obtain ⟨hback, hempty, hrow, hcol⟩ := hnot
    subst hback
    refine ⟨process_input k BACKSPACE_P, by rw [step, if_neg (by decide)], fun hsafe => ?_⟩
    have hrow' := hsafe.1
    rw [process_input_toConsole k BACKSPACE_P (by decide), if_pos rfl] at hrow'
    have hescape := keyBackspace_scrn_r k.toConsole
    rw [hk.vis] at hescape
    rw [hescape hempty hk.index hrow hcol] at hrow'
    simp at hrow'
  | write m buf nbytes => exact absurd trivial hnot

/-- Screen position safety. On a terminal that is visible and scheduled, from a cleared screen on,
    the position stays on the screen and nothing outside of it is written, all along a run,
    exactly if no Backspace of the run finds a non-empty line and the position in the first cell.
    The process may print anything, and the line need not be empty at the start. -/
theorem position_safe_iff (k : Kernel) (hsched : k.sched_term_id = k.vis_term_id)
    (hvid : (k.terminals k.vis_term_id).vid_mem = VIDEO_ADDR)
    (hindex : (k.terminals k.vis_term_id).key_buf_index.toNat < KEY_BUF_SIZE) (events : List Event) :
    let start := k.onConsole clear_screen
    (∀ events', events' <+: events → ∀ k', run step start events' = some k' →
      PositionSafe start.video k.vis_term_id k') ↔ Guarded step BackspaceStays start events := by
  intro start
  have hstart : OnScreen start.video k.vis_term_id start.toConsole := by
    simp only [start, Kernel.onConsole_toConsole, clear_screen_eq k.toConsole hvid]
    refine ⟨by simp, by simpa using hsched, by simpa using hvid, ?_, by simpa using hindex, fun _ _ => rfl⟩
    simpa using Screen.clear_inBounds k.color (screen k.toConsole k.vis_term_id)
  exact always_iff_guarded (fun _ hk => OnScreen.positionSafe hk) step_onScreen step_escapes hstart

/-- A letter, output of the process behind it, and Backspace: the run passes the guard, so
    that the position is safe all along it. -/
theorem position_safe_iff_letter_erased :
    let events := [.key 0x1E, .write (fun _ => 0x62) 0 2, .key BACKSPACE_P]
    Guarded step BackspaceStays (fresh.onConsole clear_screen) events ∧
      ∀ events', events' <+: events → ∀ k', run step (fresh.onConsole clear_screen) events' = some k' →
        PositionSafe (fresh.onConsole clear_screen).video fresh.vis_term_id k' := by
  intro events
  have hguard : Guarded step BackspaceStays (fresh.onConsole clear_screen) events := by decide +kernel
  exact ⟨hguard, (position_safe_iff fresh rfl rfl (by decide) events).mpr hguard⟩

/-- Type a letter, let the process print a backspace over it, then press
    Backspace: the row wraps to 255 and a blank is written 40958 bytes after the
    start of video memory. -/
theorem backspace_after_process_output :
    ∃ k', run step (fresh.onConsole clear_screen)
        [.key 0x1E, .write (fun _ => 8) 0 1, .key BACKSPACE_P] = some k' ∧
      k'.video (VIDEO_ADDR + 40958) ≠ (fresh.onConsole clear_screen).video (VIDEO_ADDR + 40958) ∧
      ¬ PositionSafe (fresh.onConsole clear_screen).video fresh.vis_term_id k' := by
  have hend : ((run step (fresh.onConsole clear_screen)
      [.key 0x1E, .write (fun _ => 8) 0 1, .key BACKSPACE_P]).map fun k =>
        ((k.terminals 0).scrn_r, k.video (VIDEO_ADDR + 40958))) = some (255, 0x20) := by
    decide +kernel
  have hbefore : (fresh.onConsole clear_screen).video (VIDEO_ADDR + 40958) = 0 := by decide +kernel
  obtain ⟨k', hrun, hk'⟩ := Option.map_eq_some_iff.mp hend
  obtain ⟨hrow, hbyte⟩ := Prod.mk.inj hk'
  refine ⟨k', hrun, ?_, fun hsafe => ?_⟩
  · rw [hbyte, hbefore]
    decide
  · have hle : (k'.terminals 0).scrn_r.toNat ≤ 24 := hsafe.1
    rw [hrow] at hle
    simp at hle

end lacos.keyboard
