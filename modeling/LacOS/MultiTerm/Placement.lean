import LacOS.Lib.Refine
import LacOS.MultiTerm

open memory lacos.lib

namespace lacos.multi_term

/-- Page `p` of the video region: page 0 is what the hardware shows. -/
def videoPage (p : Nat) : UInt32 := VIDEO_ADDR + UInt32.ofNat p * FOUR_KB

theorem videoPage_zero : videoPage 0 = VIDEO_ADDR := by decide

theorem videoPage_succ (t : Fin MAX_TERM_NUM) : videoPage (t + 1) = backingPage t := rfl

/-- The four pages lie one behind the other from the address of the screen on. -/
theorem videoPage_offset_toNat {p i : Nat} (hp : p ≤ MAX_TERM_NUM) (hi : i < 4096) :
    (videoPage p + UInt32.ofNat i).toNat = 0xB8000 + p * 4096 + i := by
  simp only [MAX_TERM_NUM] at hp
  have hvideo : VIDEO_ADDR.toNat = 0xB8000 := rfl
  have hsize : FOUR_KB.toNat = 4096 := rfl
  simp only [videoPage, UInt32.toNat_add, UInt32.toNat_mul, UInt32.toNat_ofNat', hvideo, hsize]
  omega

/-- Distinct pages do not overlap. -/
theorem videoPage_offset_inj {p q i j : Nat} (hp : p ≤ MAX_TERM_NUM) (hq : q ≤ MAX_TERM_NUM) (hi : i < 4096)
    (hj : j < 4096) : videoPage p + UInt32.ofNat i = videoPage q + UInt32.ofNat j ↔ p = q ∧ i = j := by
  constructor
  · intro h
    have htoNat := congrArg UInt32.toNat h
    rw [videoPage_offset_toNat hp hi, videoPage_offset_toNat hq hj] at htoNat
    omega
  · rintro ⟨rfl, rfl⟩
    rfl

/-- A place of one page is outside of the others. -/
theorem videoPage_outside {p q i : Nat} (hp : p ≤ MAX_TERM_NUM) (hq : q ≤ MAX_TERM_NUM) (hi : i < 4000)
    (hne : p ≠ q) : 4000 ≤ (videoPage p + UInt32.ofNat i - videoPage q).toNat := by
  have hat := videoPage_offset_toNat hp (i := i) (by omega)
  have hbase := videoPage_offset_toNat hq (i := 0) (by omega)
  simp only [MAX_TERM_NUM] at hp hq
  have hzero : videoPage q + UInt32.ofNat 0 = videoPage q := by simp
  rw [hzero] at hbase
  rw [UInt32.toNat_sub, hat, hbase]
  omega

/-- A store into a page is seen at its own place and at no other one, of any page. -/
theorem store_videoPage (m : Mem) (value : UInt8) {p q i j : Nat} (hp : p ≤ MAX_TERM_NUM) (hq : q ≤ MAX_TERM_NUM)
    (hi : i < 4096) (hj : j < 4096) :
    store m (videoPage q + UInt32.ofNat j) value (videoPage p + UInt32.ofNat i) =
      if p = q ∧ i = j then value else m (videoPage p + UInt32.ofNat i) := by
  simp only [store, Function.update_apply, videoPage_offset_inj hp hq hi hj]

/-- The loop of `switch_screen` saves the shown page and brings in the next one.
    If they are the same terminal's, the shown page stays as it is. -/
theorem swapCells_spec (m : Mem) {p q : Nat} (hp : p ≤ MAX_TERM_NUM) (hq : q ≤ MAX_TERM_NUM) (hp0 : p ≠ 0)
    {n : Nat} (hn : n ≤ 4000) {r i : Nat} (hr : r ≤ MAX_TERM_NUM) (hi : i < 4096) :
    swapCells m (videoPage p) (videoPage q) n (videoPage r + UInt32.ofNat i) =
      if i < n ∧ r = p then m (videoPage 0 + UInt32.ofNat i)
      else if i < n ∧ r = 0 ∧ p ≠ q then m (videoPage q + UInt32.ofNat i)
      else m (videoPage r + UInt32.ofNat i) := by
  induction n generalizing r i with
  | zero => simp [swapCells]
  | succ n ih =>
    have hn4096 : n < 4096 := by omega
    have hn' : n ≤ 4000 := by omega
    simp only [swapCells, ← videoPage_zero]
    rw [store_videoPage _ _ hr (Nat.zero_le _) hi hn4096, store_videoPage _ _ hr hp hi hn4096,
      store_videoPage _ _ hq hp hn4096 hn4096, ih hn' (Nat.zero_le _) hn4096, ih hn' hq hn4096, ih hn' hr hi]
    by_cases hlast : i = n
    · subst hlast
      grind
    · have hlt : i < n + 1 ↔ i < n := by omega
      simp only [hlast, and_false, if_false, hlt]

/-- The page of a terminal's screen: the shown one belongs to the visible terminal. -/
def pageOf (visible t : Fin MAX_TERM_NUM) : Nat := if t = visible then 0 else t + 1

/-- Every terminal has one of the four pages. -/
theorem pageOf_le (visible t : Fin MAX_TERM_NUM) : pageOf visible t ≤ MAX_TERM_NUM := by
  unfold pageOf
  split <;> omega

/-- No two terminals have the same page, whichever one is visible. -/
theorem pageOf_inj {visible t u : Fin MAX_TERM_NUM} : pageOf visible t = pageOf visible u ↔ t = u := by
  unfold pageOf
  split <;> split <;> omega

/-- Each terminal's screen is in its own page. -/
def Paged (con : Console) : Prop := ∀ t, (con.terminals t).vid_mem = videoPage (pageOf con.vis_term_id t)

/-- A terminal that is not visible has its backing page. -/
theorem Paged.hidden {con : Console} (hpaged : Paged con) {t : Fin MAX_TERM_NUM} (hne : t ≠ con.vis_term_id) :
    (con.terminals t).vid_mem = backingPage t := by
  rw [hpaged, pageOf, if_neg hne, videoPage_succ]

/-- Changing one terminal's screen does not touch another's. -/
theorem Paged.screen_install_other {con : Console} (hpaged : Paged con) (t : Fin MAX_TERM_NUM) (s : Screen)
    {u : Fin MAX_TERM_NUM} (hne : u ≠ t) : screen (install con t s) u = screen con u := by
  have hterm : (install con t s).terminals u = con.terminals u := Console.setTerm_other _ t _ hne
  have hcells (i : Fin 4000) : (install con t s).video ((con.terminals u).vid_mem + UInt32.ofNat i) =
      con.video ((con.terminals u).vid_mem + UInt32.ofNat i) := by
    rw [install_video, hpaged t, hpaged u]
    apply fillWith_outside
    apply videoPage_outside (pageOf_le _ _) (pageOf_le _ _) i.isLt
    rw [Ne, pageOf_inj]
    exact hne
  simp only [screen, hterm, hcells]

/-- New contents for a screen leave every screen in its page. -/
theorem Paged.install {con : Console} (hpaged : Paged con) (t : Fin MAX_TERM_NUM) (s : Screen) :
    Paged (showCursor (lib.install con t s) t) := by
  intro u
  simp only [showCursor_terminals, showCursor_vis_term_id, install_vis_term_id]
  by_cases hu : u = t
  · rw [hu, install_terminals]
    exact hpaged t
  · have hterm : (lib.install con t s).terminals u = con.terminals u := Console.setTerm_other _ t _ hu
    rw [hterm]
    exact hpaged u

/-- Each terminal's screen is in its own page, its position is on the screen, and
    the hardware cursor is that of the visible terminal. -/
structure Placed (con : Console) : Prop where
  vid_mem : ∀ t, (con.terminals t).vid_mem = videoPage (pageOf con.vis_term_id t)
  in_bounds : ∀ t, (screen con t).InBounds
  cursor : ShowsCursor con

theorem Placed.paged {con : Console} (hplaced : Placed con) : Paged con := hplaced.vid_mem

theorem Placed.visible {con : Console} (hplaced : Placed con) :
    (con.terminals con.vis_term_id).vid_mem = VIDEO_ADDR := by
  rw [hplaced.vid_mem, pageOf, if_pos rfl, videoPage_zero]

theorem Placed.hidden {con : Console} (hplaced : Placed con) {t : Fin MAX_TERM_NUM} (hne : t ≠ con.vis_term_id) :
    (con.terminals t).vid_mem = backingPage t := hplaced.paged.hidden hne

section Install

variable {con : Console} (hplaced : Placed con) (t : Fin MAX_TERM_NUM) (s : Screen)
include hplaced

/-- A terminal can get any screen with its position in bounds. -/
theorem Placed.install (hpos : s.InBounds) : Placed (showCursor (lib.install con t s) t) where
  vid_mem := hplaced.paged.install t s
  in_bounds u := by
    rw [screen_showCursor]
    by_cases hu : u = t
    · rw [hu, screen_install]
      exact hpos
    · rw [hplaced.paged.screen_install_other t s hu]
      exact hplaced.in_bounds u
  cursor := showsCursor_install con t s hplaced.cursor

end Install

section Putc

variable {con : Console} (hplaced : Placed con) (t : Fin MAX_TERM_NUM) (c : UInt8)
include hplaced

/-- A character printed on any terminal leaves every screen in its place. -/
theorem Placed.putc : Placed (lib.putc con t c) := by
  rw [putc_eq con t c (hplaced.in_bounds t)]
  split
  · exact hplaced
  · exact hplaced.install t _ (Screen.putc_inBounds con.color _ c (hplaced.in_bounds t))

/-- A character reaches the screen of its own terminal only, and is printed there as on a screen
    of its own. -/
theorem Placed.screen_putc (u : Fin MAX_TERM_NUM) : screen (lib.putc con t c) u =
    if u = t then (screen con t).putc con.color c else screen con u := by
  rw [putc_eq con t c (hplaced.in_bounds t)]
  split
  · rename_i hstay
    have hsame : (screen con t).putc con.color c = screen con t := by
      have hzero : (screen con t).scrn_c = 0 := hstay.2
      simp [Screen.putc, hstay.1, hzero]
    split
    · rename_i hu
      rw [hsame, hu]
    · rfl
  · rw [screen_showCursor]
    split
    · rename_i hu
      rw [hu, screen_install]
    · rename_i hu
      exact hplaced.paged.screen_install_other t _ hu

end Putc

section ClearScreen

variable {con : Console} (hplaced : Placed con)
include hplaced

/-- Clearing leaves every screen in its place. -/
theorem Placed.clear_screen : Placed (lib.clear_screen con) := by
  rw [clear_screen_eq con hplaced.visible]
  exact hplaced.install _ _ (Screen.clear_inBounds _ _)

/-- `clear_screen` clears the screen of the visible terminal and no other one. -/
theorem Placed.screen_clear_screen (u : Fin MAX_TERM_NUM) : screen (lib.clear_screen con) u =
    if u = con.vis_term_id then (screen con u).clear con.color else screen con u := by
  rw [clear_screen_eq con hplaced.visible, screen_showCursor]
  split
  · rename_i hu
    rw [hu, screen_install]
  · rename_i hu
    exact hplaced.paged.screen_install_other _ _ hu

end ClearScreen

/-- After `switch_screen` each terminal has the page it has with the new one visible. -/
theorem Paged.switch_screen_terminals {con : Console} (hpaged : Paged con) (new_term_id t : Fin MAX_TERM_NUM) :
    (switch_screen con new_term_id).terminals t =
      { con.terminals t with vid_mem := videoPage (pageOf new_term_id t) } := by
  simp only [switch_screen]
  by_cases hnew : t = new_term_id
  · subst hnew
    have hpage : videoPage (pageOf t t) = VIDEO_ADDR := by rw [pageOf, if_pos rfl, videoPage_zero]
    rw [Console.setTerm_same, hpage]
    by_cases hvis : t = con.vis_term_id
    · subst hvis
      simp only [Console.setTerm, Function.update_self]
    · simp only [Console.setTerm, Function.update_of_ne hvis]
  · rw [Console.setTerm_other _ _ _ hnew]
    have hpage : videoPage (pageOf new_term_id t) = backingPage t := by
      rw [pageOf, if_neg hnew, videoPage_succ]
    rw [hpage]
    by_cases hvis : t = con.vis_term_id
    · subst hvis
      simp only [Console.setTerm, Function.update_self]
    · simp only [Console.setTerm, Function.update_of_ne hvis, ← hpaged.hidden hvis]

section SwitchTo

variable {con : Console} (hplaced : Placed con) (new_term_id : Fin MAX_TERM_NUM)
include hplaced

/-- With every screen in its page, a switch exchanges the contents of two pages, by way of the
    shown one. -/
theorem Placed.switch_screen_video : (switch_screen con new_term_id).video =
    swapCells con.video (videoPage (con.vis_term_id + 1)) (videoPage (new_term_id + 1)) 4000 := by
  have hcurrent : ((con.setTerm con.vis_term_id { con.terminals con.vis_term_id with
      vid_mem := backingPage con.vis_term_id }).terminals new_term_id).vid_mem = backingPage new_term_id := by
    by_cases hvis : new_term_id = con.vis_term_id
    · rw [hvis, Console.setTerm_same]
    · rw [Console.setTerm_other _ _ _ hvis, hplaced.hidden hvis]
  simp only [switch_screen, Console.setTerm_video, Console.setTerm_same, hcurrent]
  rfl

/-- Switching moves the screens between pages without changing any of them. -/
theorem Placed.screen_switch_screen (t : Fin MAX_TERM_NUM) :
    screen (switch_screen con new_term_id) t = screen con t := by
  have hcells (i : Fin 4000) :
      (switch_screen con new_term_id).video (videoPage (pageOf new_term_id t) + UInt32.ofNat i) =
        con.video (videoPage (pageOf con.vis_term_id t) + UInt32.ofNat i) := by
    have hi : i.val < 4096 := by omega
    rw [hplaced.switch_screen_video, swapCells_spec _ (by omega) (by omega) (by omega) (Nat.le_refl _)
      (pageOf_le _ _) hi]
    by_cases hnew : t = new_term_id
    · by_cases hvis : t = con.vis_term_id
      · simp [pageOf, ← hnew, ← hvis]
      · have hne : con.vis_term_id.val ≠ new_term_id.val := by omega
        simp [pageOf, ← hnew, hvis]
        omega
    · by_cases hvis : t = con.vis_term_id
      · simp [pageOf, hnew, ← hvis]
      · have hne : t.val ≠ con.vis_term_id.val := by omega
        simp [pageOf, hnew, hvis, hne]
  simp only [screen, hplaced.paged.switch_screen_terminals, hcells, hplaced.vid_mem]

/-- After a switch every screen is in its page again, now with another visible terminal. -/
theorem Placed.switch_screen :
    Placed (showCursor { multi_term.switch_screen con new_term_id with vis_term_id := new_term_id } new_term_id) where
  vid_mem t := by
    simp only [showCursor_terminals, showCursor_vis_term_id, hplaced.paged.switch_screen_terminals]
  in_bounds t := by
    rw [screen_showCursor]
    have hsame := hplaced.screen_switch_screen new_term_id t
    have hpos := hplaced.in_bounds t
    rw [← hsame] at hpos
    exact hpos
  cursor := showCursor_showsCursor { multi_term.switch_screen con new_term_id with vis_term_id := new_term_id }

end SwitchTo

/-- What the switch does to the positions is to show the cursor: it writes the stored positions
    back as they are. -/
theorem switch_keyboard_and_cursor_pos_eq (con : Console) (t : Fin MAX_TERM_NUM) :
    switch_keyboard_and_cursor_pos con t = showCursor con t := by
  simp only [switch_keyboard_and_cursor_pos, set_keyboard_pos_same, set_cursor_pos_eq]
  exact congrArg (showCursor · t) (Console.setTerm_self con t)

/-- The part of a switch that concerns screens: the pages are exchanged, then the cursor of the
    new terminal is shown. -/
theorem switchTo_toConsole (k : Kernel) (new_term_id : Fin MAX_TERM_NUM) : (switchTo k new_term_id).toConsole =
    showCursor { switch_screen k.toConsole new_term_id with vis_term_id := new_term_id } new_term_id := by
  rw [← switch_keyboard_and_cursor_pos_eq]
  rfl

/-- A switch is refused, or goes to one of the terminals. -/
theorem switch_terminal_cases (k : Kernel) (new_term_id : Int) :
    switch_terminal k new_term_id = k ∨
      ∃ t : Fin MAX_TERM_NUM, new_term_id = (t : Nat) ∧ switch_terminal k new_term_id = switchTo k t := by
  unfold switch_terminal
  split
  · rename_i hin
    split
    · exact Or.inl rfl
    · exact Or.inr ⟨_, (Int.toNat_of_nonneg hin.1).symm, rfl⟩
  · exact Or.inl rfl

/-- What every switch keeps, `switch_terminal` keeps, whatever the id. -/
theorem switch_terminal_keeps {P : Kernel → Prop} {k : Kernel} (hk : P k) (hswitch : ∀ t, P (switchTo k t))
    (new_term_id : Int) : P (switch_terminal k new_term_id) := by
  obtain hstay | ⟨t, -, hmoved⟩ := switch_terminal_cases k new_term_id
  · rw [hstay]
    exact hk
  · rw [hmoved]
    exact hswitch t

theorem switch_terminal_toTasks (k : Kernel) (new_term_id : Int) :
    (switch_terminal k new_term_id).toTasks = k.toTasks :=
  switch_terminal_keeps (P := fun k' => k'.toTasks = k.toTasks) rfl (fun _ => rfl) new_term_id

/-- Switching to a terminal changes no terminal but in its page. -/
theorem switchTo_terminals {k : Kernel} (hpaged : Paged k.toConsole) (new_term_id t : Fin MAX_TERM_NUM) :
    (switchTo k new_term_id).terminals t =
      { k.terminals t with vid_mem := videoPage (pageOf new_term_id t) } := by
  rw [switchTo_toConsole, showCursor_terminals]
  exact hpaged.switch_screen_terminals new_term_id t

theorem switchTo_vis_term_id (k : Kernel) (new_term_id : Fin MAX_TERM_NUM) :
    (switchTo k new_term_id).vis_term_id = new_term_id := by
  rw [switchTo_toConsole, showCursor_vis_term_id]

theorem switchTo_sched_term_id (k : Kernel) (new_term_id : Fin MAX_TERM_NUM) :
    (switchTo k new_term_id).sched_term_id = k.sched_term_id := by
  rw [switchTo_toConsole, showCursor_sched_term_id]
  rfl

theorem switchTo_toTasks (k : Kernel) (new_term_id : Fin MAX_TERM_NUM) :
    (switchTo k new_term_id).toTasks = k.toTasks := rfl

theorem switchTo_toPaging (k : Kernel) (new_term_id : Fin MAX_TERM_NUM) :
    (switchTo k new_term_id).toPaging = k.toPaging := rfl

/-- A switch leaves every screen in its page. The positions need not be in bounds. -/
theorem Paged.switchTo {k : Kernel} (hpaged : Paged k.toConsole) (new_term_id : Fin MAX_TERM_NUM) :
    Paged (switchTo k new_term_id).toConsole := by
  intro t
  rw [switchTo_terminals hpaged, switchTo_vis_term_id]

/-- Another task on a terminal. -/
def setTask (con : Console) (t : Fin MAX_TERM_NUM) (task : UInt32) : Console :=
  con.setTerm t { con.terminals t with cur_task := task }

section SetTask

variable (con : Console) (t : Fin MAX_TERM_NUM) (task : UInt32)

theorem setTask_vid_mem (u : Fin MAX_TERM_NUM) : ((setTask con t task).terminals u).vid_mem = (con.terminals u).vid_mem := by
  by_cases hu : u = t
  · rw [hu, setTask, Console.setTerm_same]
  · rw [setTask, Console.setTerm_other _ _ _ hu]

/-- A new task and a new page of terminals, in either order. -/
theorem setTask_set_vid_mem (u : Fin MAX_TERM_NUM) (vid_mem : UInt32) :
    (setTask con t task).setTerm u { (setTask con t task).terminals u with vid_mem := vid_mem } =
      setTask (con.setTerm u { con.terminals u with vid_mem := vid_mem }) t task := by
  by_cases hu : u = t
  · subst hu
    simp only [setTask, Console.setTerm_same, Console.setTerm_setTerm]
  · simp only [setTask, Console.setTerm_other _ _ _ hu, Console.setTerm_other _ _ _ (Ne.symm hu)]
    simp only [Console.setTerm, Function.update_comm hu]

/-- Which task runs on a terminal does not matter for a switch of the screens. -/
theorem switch_screen_setTask (new_term_id : Fin MAX_TERM_NUM) :
    switch_screen (setTask con t task) new_term_id = setTask (switch_screen con new_term_id) t task := by
  obtain ⟨shown, hshown⟩ : ∃ shown, con.setTerm con.vis_term_id
      { con.terminals con.vis_term_id with vid_mem := backingPage con.vis_term_id } = shown := ⟨_, rfl⟩
  have hvis : (setTask con t task).vis_term_id = con.vis_term_id := rfl
  simp only [switch_screen, hvis, setTask_set_vid_mem, hshown, setTask_vid_mem]
  exact setTask_set_vid_mem { shown with
    video := swapCells shown.video (shown.terminals con.vis_term_id).vid_mem (shown.terminals new_term_id).vid_mem
      (2 * NUM_COLS * NUM_ROWS) } t task new_term_id VIDEO_ADDR

theorem setTask_curs (u : Fin MAX_TERM_NUM) : ((setTask con t task).terminals u).curs_r = (con.terminals u).curs_r ∧
    ((setTask con t task).terminals u).curs_c = (con.terminals u).curs_c := by
  by_cases hu : u = t
  · rw [hu, setTask, Console.setTerm_same]
    exact ⟨rfl, rfl⟩
  · rw [setTask, Console.setTerm_other _ _ _ hu]
    exact ⟨rfl, rfl⟩

theorem showCursor_setTask (u : Fin MAX_TERM_NUM) :
    showCursor (setTask con t task) u = setTask (showCursor con u) t task := by
  obtain ⟨hrow, hcol⟩ := setTask_curs con t task u
  have hvis : (setTask con t task).vis_term_id = con.vis_term_id := rfl
  rw [showCursor, showCursor, hvis, hrow, hcol]
  split <;> rfl

/-- Which task runs on a terminal does not matter for a switch. -/
theorem switchTo_setTask (k : Kernel) (new_term_id : Fin MAX_TERM_NUM) :
    switchTo (k.onConsole (setTask · t task)) new_term_id =
      (switchTo k new_term_id).onConsole (setTask · t task) := by
  have hconsole : (switchTo (k.onConsole (setTask · t task)) new_term_id).toConsole =
      setTask (switchTo k new_term_id).toConsole t task := by
    rw [switchTo_toConsole, switchTo_toConsole, ← showCursor_setTask]
    change showCursor { switch_screen (setTask k.toConsole t task) new_term_id with vis_term_id := new_term_id } _ = _
    rw [switch_screen_setTask]
    rfl
  change { k with toConsole := (switchTo (k.onConsole (setTask · t task)) new_term_id).toConsole, interrupts := true } = _
  rw [hconsole]
  rfl

end SetTask

/-- No backing page is the one that is shown. -/
theorem backingPage_ne (t : Fin MAX_TERM_NUM) : backingPage t ≠ VIDEO_ADDR := by
  revert t
  decide

end lacos.multi_term
