import LacOS.Lib.Screen

open memory

namespace lacos.lib

/-- Give a terminal the contents and positions of a private screen. -/
def install (con : Console) (t : Fin MAX_TERM_NUM) (s : Screen) : Console :=
  { con with video := fillWith con.video (con.terminals t).vid_mem s.cell 4000 }.setTerm t
    { con.terminals t with scrn_r := s.scrn_r, scrn_c := s.scrn_c, curs_r := s.curs_r, curs_c := s.curs_c }

section Install

variable (con : Console) (t : Fin MAX_TERM_NUM) (s s' : Screen)

@[simp] theorem install_video :
    (install con t s).video = fillWith con.video (con.terminals t).vid_mem s.cell 4000 := rfl

@[simp] theorem install_terminals : (install con t s).terminals t =
    { con.terminals t with scrn_r := s.scrn_r, scrn_c := s.scrn_c, curs_r := s.curs_r, curs_c := s.curs_c } := by
  simp [install]

@[simp] theorem install_color : (install con t s).color = con.color := rfl

@[simp] theorem install_vis_term_id : (install con t s).vis_term_id = con.vis_term_id := rfl

@[simp] theorem install_sched_term_id : (install con t s).sched_term_id = con.sched_term_id := rfl

@[simp] theorem screen_install : screen (install con t s) t = s := by
  ext i
  · simp only [screen, install_terminals, install_video]
    rw [fillWith_inside _ _ _ i.isLt (by simp), Screen.cell_of_lt s i.isLt]
  all_goals simp [screen]

@[simp] theorem install_install : install (install con t s) t s' = install con t s' := by
  have hvideo : fillWith (fillWith con.video (con.terminals t).vid_mem s.cell 4000)
      (con.terminals t).vid_mem s'.cell 4000 =
      fillWith con.video (con.terminals t).vid_mem s'.cell 4000 := by
    funext a
    simp only [fillWith]
    split <;> rfl
  simp only [install, Console.setTerm, Function.update_self, Function.update_idem, hvideo]

/-- A change of positions alone leaves video memory as it is. -/
theorem install_of_cells_eq (hcells : s.cells = (screen con t).cells) :
    install con t s = con.setTerm t
      { con.terminals t with scrn_r := s.scrn_r, scrn_c := s.scrn_c, curs_r := s.curs_r, curs_c := s.curs_c } := by
  have hvideo : fillWith con.video (con.terminals t).vid_mem s.cell 4000 = con.video := by
    symm
    apply eq_fillWith
    · intro i hi
      rw [Screen.cell_of_lt _ hi, hcells]
      rfl
    · intro a _
      rfl
  rw [install, hvideo]

/-- Video memory that differs from the current one only in the screen of `t`. -/
theorem eq_install (video : Mem)
    (hinside : ∀ i (hi : i < 4000), video ((con.terminals t).vid_mem + UInt32.ofNat i) = s.cells ⟨i, hi⟩)
    (houtside : ∀ a, 4000 ≤ (a - (con.terminals t).vid_mem).toNat → video a = con.video a) :
    { con with video }.setTerm t
      { con.terminals t with scrn_r := s.scrn_r, scrn_c := s.scrn_c, curs_r := s.curs_r, curs_c := s.curs_c } =
      install con t s := by
  have hvideo : video = fillWith con.video (con.terminals t).vid_mem s.cell 4000 := by
    apply eq_fillWith
    · intro i hi
      rw [hinside i hi, Screen.cell_of_lt s hi]
    · exact houtside
  rw [install, hvideo]

end Install

/-- Stores inside the 4000 bytes of a terminal are stores to its screen. -/
theorem putCell_eq_install (con : Console) (t : Fin MAX_TERM_NUM) (c attrib : UInt8)
    (hrow : (con.terminals t).scrn_r.toNat ≤ 24) (hcol : (con.terminals t).scrn_c.toNat ≤ 79) :
    putCell con t c attrib = install con t ((screen con t).put c attrib) := by
  generalize hpos : 2 * (NUM_COLS * (con.terminals t).scrn_r.toNat + (con.terminals t).scrn_c.toNat) = pos
  have hlt : pos + 1 < 4000 := by
    simp only [NUM_COLS] at hpos
    omega
  have hshift : (NUM_COLS * (con.terminals t).scrn_r.toNat + (con.terminals t).scrn_c.toNat) <<< 1 = pos := by
    rw [Nat.shiftLeft_eq, ← hpos]
    omega
  have hput : (screen con t).put c attrib = ((screen con t).set pos c).set (pos + 1) attrib := by
    simp only [Screen.put, screen, hpos]
  have hnext : (con.terminals t).vid_mem + UInt32.ofNat pos + 1 =
      (con.terminals t).vid_mem + UInt32.ofNat (pos + 1) := by
    rw [UInt32.ofNat_add, UInt32.add_assoc]
    rfl
  rw [hput, ← eq_install con t _ (store (store con.video ((con.terminals t).vid_mem + UInt32.ofNat pos) c)
    ((con.terminals t).vid_mem + UInt32.ofNat (pos + 1)) attrib)]
  · simp only [putCell, hshift, hnext, Screen.set_pos, screen]
    exact (Console.setTerm_self _ t).symm
  · intro i hi
    rw [store_offset _ _ _ (by omega) (by omega), store_offset _ _ _ (by omega) (by omega)]
    rw [Screen.set_cells _ _ hlt, Screen.set_cells _ _ (by omega)]
    rfl
  · intro a ha
    rw [store_outside attrib hlt (by omega) ha, store_outside c (by omega) (by omega) ha]

/-- A terminal that gets its own screen again stays as it is. -/
theorem install_screen (con : Console) (t : Fin MAX_TERM_NUM) : install con t (screen con t) = con := by
  rw [install_of_cells_eq con t _ rfl]
  exact Console.setTerm_self con t

/-- The word that a cleared cell is filled with is a blank and the color. -/
private theorem wordByte_blank (color : UInt8) :
    wordByte ((0x20 : UInt32) ||| (color.toUInt32 <<< 8)) 0 = 0x20 ∧
      wordByte ((0x20 : UInt32) ||| (color.toUInt32 <<< 8)) 1 = color := by
  have hall : ∀ n : Fin 256, wordByte ((0x20 : UInt32) ||| ((UInt8.ofNat n).toUInt32 <<< 8)) 0 = 0x20 ∧
      wordByte ((0x20 : UInt32) ||| ((UInt8.ofNat n).toUInt32 <<< 8)) 1 = UInt8.ofNat n := by decide +kernel
  simpa using hall ⟨color.toNat, color.toNat_lt⟩

/-- Video memory after the copy and the blanking of `scroll`. -/
private theorem scroll_memory (m : Mem) (d c : UInt32) :
    memset_word (memcpy m d (d + 160) 3840) (d + 3840) c 80 =
      fillWith m d (fun i => if i < 3840 then m (d + UInt32.ofNat (i + 160)) else wordByte c (i % 2)) 4000 := by
  have hsafe : (3840 : UInt32).toNat ≤ (d - (d + 160)).toNat := by
    rw [show d - (d + 160) = 0 - 160 by grind]
    decide
  rw [memset_word_eq_fillWith _ _ _ _ (by decide), memcpy_eq_blit _ _ _ _ (Or.inr hsafe),
    show (3840 : UInt32).toNat = 3840 from rfl, show (80 : UInt32).toNat = 80 from rfl]
  have hpage (a : UInt32) := sub_add_toNat a d (n := 3840) (by omega)
  apply eq_fillWith
  · intro i hi
    have hoff := offset_toNat d (i := i) (by omega)
    have hrest := hpage (d + UInt32.ofNat i)
    rw [hoff] at hrest
    by_cases hkept : i < 3840
    · rw [fillWith_outside]
      · rw [blit_inside _ _ _ _ hkept (by decide), if_pos hkept, UInt32.ofNat_add, UInt32.add_assoc]
        congr 2
        exact UInt32.add_comm _ _
      · rw [if_neg (by omega)] at hrest
        change 160 ≤ (d + UInt32.ofNat i - (d + UInt32.ofNat 3840)).toNat
        omega
    · rw [if_pos (by omega)] at hrest
      have hblank : (d + UInt32.ofNat i - (d + 3840)).toNat = i - 3840 := hrest
      have hlast : i - 3840 < 2 * 80 := by omega
      have hparity : (i - 3840) % 2 = i % 2 := by omega
      simp only [fillWith, hblank, hlast, if_true, hparity, hkept, if_false]
  · intro a ha
    have hrest := hpage a
    rw [if_pos (by omega)] at hrest
    rw [fillWith_outside, blit_outside]
    · omega
    · change 160 ≤ (a - (d + UInt32.ofNat 3840)).toNat
      omega

/-- The overlapping copy of `scroll` moves every row up by one. -/
theorem scroll_eq_install (con : Console) (t : Fin MAX_TERM_NUM) (hrow : (con.terminals t).scrn_r.toNat ≤ 25) :
    scroll con t = install con t ((screen con t).scroll con.color) := by
  by_cases hfull : (con.terminals t).scrn_r.toNat ≥ NUM_ROWS
  · have hr : (con.terminals t).scrn_r = 25 := by
      apply UInt8.toNat_inj.mp
      simp only [NUM_ROWS] at hfull
      simp
      omega
    have htemp : (25 : UInt8).toUInt32 - UInt32.ofNat NUM_ROWS + 1 = 1 := by decide
    have hkept : (UInt32.ofNat NUM_ROWS - 1) * UInt32.ofNat NUM_COLS * 2 = 3840 := by decide
    have hstep : (1 : UInt32) * UInt32.ofNat NUM_COLS * 2 = 160 := by decide
    have hscreen : (screen con t).scrn_r.toNat ≥ NUM_ROWS := hfull
    obtain ⟨hlow, hhigh⟩ := wordByte_blank con.color
    have hmemory := scroll_memory con.video (con.terminals t).vid_mem
      ((0x20 : UInt32) ||| (con.color.toUInt32 <<< 8))
    rw [← eq_install con t _ (memset_word (memcpy con.video (con.terminals t).vid_mem
      ((con.terminals t).vid_mem + 160) 3840) ((con.terminals t).vid_mem + 3840)
      ((0x20 : UInt32) ||| (con.color.toUInt32 <<< 8)) 80)]
    · simp only [scroll, if_true, hr, htemp, hkept, hstep, Screen.scroll, hscreen]
      rfl
    · intro i hi
      rw [hmemory, fillWith_inside _ _ _ hi (by omega)]
      simp only [Screen.scroll, hscreen, if_true]
      by_cases hmove : i < 3840
      · have hbelow : i + 160 < 4000 := by omega
        simp only [hmove, if_true, hbelow, dif_pos, screen]
      · have hlast : ¬ i + 160 < 4000 := by omega
        simp only [hmove, if_false, hlast, dif_neg, not_false_eq_true]
        rcases Nat.mod_two_eq_zero_or_one i with heven | hodd
        · simp only [heven, hlow, if_true]
        · simp only [hodd, hhigh, Nat.one_ne_zero, if_false]
    · intro a ha
      rw [hmemory, fillWith_outside _ ha]
  · have hscreen : ¬ (screen con t).scrn_r.toNat ≥ NUM_ROWS := hfull
    simp only [scroll, hfull, Screen.scroll, hscreen, if_false, install_screen]

/-- Move the hardware cursor to a terminal's cursor if it is the visible one. -/
def showCursor (con : Console) (t : Fin MAX_TERM_NUM) : Console :=
  if t = con.vis_term_id then
    let position : UInt16 := UInt16.ofNat ((con.terminals t).curs_r.toNat * 80 + (con.terminals t).curs_c.toNat)
    { con with
      vga_index := 0x0E
      vga_reg := Function.update (Function.update con.vga_reg 0x0F (position &&& 0xFF).toUInt8) 0x0E
        ((position >>> 8) &&& 0xFF).toUInt8 }
  else con

/-- Setting the cursor stores its position and shows it, where the terminal is the visible one. -/
theorem set_cursor_pos_eq (con : Console) (t : Fin MAX_TERM_NUM) (row col : UInt8) :
    set_cursor_pos con t row.toNat col.toNat =
      showCursor (con.setTerm t { con.terminals t with curs_r := row, curs_c := col }) t := by
  simp only [set_cursor_pos, showCursor, UInt8.ofNat_toNat, Console.setTerm_vis_term_id, Console.setTerm_same]
  split
  · simp [outb]
  · rfl

@[simp] theorem showCursor_terminals (con : Console) (t : Fin MAX_TERM_NUM) :
    (showCursor con t).terminals = con.terminals := by
  unfold showCursor
  split <;> rfl

@[simp] theorem showCursor_video (con : Console) (t : Fin MAX_TERM_NUM) :
    (showCursor con t).video = con.video := by
  unfold showCursor
  split <;> rfl

@[simp] theorem showCursor_vis_term_id (con : Console) (t : Fin MAX_TERM_NUM) :
    (showCursor con t).vis_term_id = con.vis_term_id := by
  unfold showCursor
  split <;> rfl

@[simp] theorem showCursor_sched_term_id (con : Console) (t : Fin MAX_TERM_NUM) :
    (showCursor con t).sched_term_id = con.sched_term_id := by
  unfold showCursor
  split <;> rfl

@[simp] theorem showCursor_color (con : Console) (t : Fin MAX_TERM_NUM) :
    (showCursor con t).color = con.color := by
  unfold showCursor
  split <;> rfl

@[simp] theorem screen_showCursor (con : Console) (t u : Fin MAX_TERM_NUM) :
    screen (showCursor con t) u = screen con u := by
  simp only [screen, showCursor_terminals, showCursor_video]

/-- The VGA cursor registers hold the cursor position of the visible terminal. -/
def ShowsCursor (con : Console) : Prop :=
  (con.vga_reg 0x0E).toNat * 256 + (con.vga_reg 0x0F).toNat =
    80 * (con.terminals con.vis_term_id).curs_r.toNat + (con.terminals con.vis_term_id).curs_c.toNat

/-- The cursor registers agree with the visible terminal once its cursor has been shown. -/
theorem showCursor_showsCursor (con : Console) : ShowsCursor (showCursor con con.vis_term_id) := by
  have hrow := (con.terminals con.vis_term_id).curs_r.toNat_lt
  have hcol := (con.terminals con.vis_term_id).curs_c.toNat_lt
  simp only [ShowsCursor, showCursor_vis_term_id, showCursor_terminals]
  simp only [showCursor, if_true, Function.update_self]
  rw [Function.update_of_ne (by decide), Function.update_self]
  have hmask (n : Nat) : n &&& (255 : UInt16).toNat = n % 256 := Nat.and_two_pow_sub_one_eq_mod n 8
  have hshift (n : Nat) : n >>> ((8 : UInt16).toNat % 16) = n / 256 := Nat.shiftRight_eq_div_pow n 8
  simp only [UInt16.toNat_toUInt8, UInt16.toNat_and, UInt16.toNat_shiftRight, UInt16.toNat_ofNat', hmask, hshift]
  omega

/-- A terminal may get another screen without losing the cursor, if its cursor is shown
    afterwards. A terminal that is not visible does not matter. -/
theorem showsCursor_install (con : Console) (t : Fin MAX_TERM_NUM) (s : Screen) (hcursor : ShowsCursor con) :
    ShowsCursor (showCursor (install con t s) t) := by
  by_cases hvis : t = con.vis_term_id
  · rw [hvis]
    exact showCursor_showsCursor (install con con.vis_term_id s)
  · have hother : (install con t s).terminals con.vis_term_id = con.terminals con.vis_term_id :=
      Console.setTerm_other _ t _ (fun h => hvis h.symm)
    have hsame : showCursor (install con t s) t = install con t s := by
      simp only [showCursor, install_vis_term_id, hvis, if_false]
    rw [hsame]
    simp only [ShowsCursor, install_vis_term_id, hother]
    exact hcursor

/-- Writing the position that is there already changes nothing. -/
theorem set_keyboard_pos_same (con : Console) (t : Fin MAX_TERM_NUM) :
    set_keyboard_pos con t (con.terminals t).scrn_r.toNat (con.terminals t).scrn_c.toNat = con := by
  simp only [set_keyboard_pos, UInt8.ofNat_toNat]
  exact Console.setTerm_self con t

/-- Printing ends with the cursor moved to where the next character goes. -/
theorem syncPos_eq (con : Console) (t : Fin MAX_TERM_NUM) :
    syncPos con t = showCursor (install con t (screen con t).sync) t := by
  have hsync : install con t (screen con t).sync = con.setTerm t
      { con.terminals t with curs_r := (con.terminals t).scrn_r, curs_c := (con.terminals t).scrn_c } :=
    install_of_cells_eq con t _ rfl
  simp only [syncPos, set_cursor_pos_eq, set_keyboard_pos_same, hsync]

theorem set_pos_eq_install (con : Console) (t : Fin MAX_TERM_NUM) (row col : UInt8) :
    con.setTerm t { con.terminals t with scrn_r := row, scrn_c := col } =
      install con t { screen con t with scrn_r := row, scrn_c := col } :=
  (install_of_cells_eq con t { screen con t with scrn_r := row, scrn_c := col } rfl).symm

section PutcColor

variable (con : Console) (t : Fin MAX_TERM_NUM) (c fg bg : UInt8)

/-- A newline is handled on the screen of the terminal alone, up to the cursor registers. -/
theorem putc_color_newline (hrow : (con.terminals t).scrn_r.toNat ≤ 24) (hc : c = 10 ∨ c = 13) :
    putc_color con t c fg bg =
      showCursor (install con t ((screen con t).putc_color con.color ((bg <<< 4) ||| (fg &&& 0xF)) c)) t := by
  have hnext : ((con.terminals t).scrn_r + 1).toNat ≤ 25 := by
    rw [byte_succ (by omega)]
    omega
  simp only [putc_color, hc, if_true, Screen.putc_color]
  rw [set_pos_eq_install, scroll_eq_install _ _ (by simpa using hnext), syncPos_eq]
  simp only [screen_install, install_install, install_color]
  rfl

/-- So is a character that is printed, from every position up to the one behind a row. -/
theorem putc_color_printing (hrow : (con.terminals t).scrn_r.toNat ≤ 24)
    (hcol : (con.terminals t).scrn_c.toNat ≤ 80) (hnewline : ¬ (c = 10 ∨ c = 13)) :
    putc_color con t c fg bg =
      showCursor (install con t ((screen con t).putc_color con.color ((bg <<< 4) ||| (fg &&& 0xF)) c)) t := by
  have hcarry : ((con.terminals t).scrn_r + (con.terminals t).scrn_c / 80).toNat ≤ 25 := by
    rw [carry_row hrow hcol]
    omega
  have hrest := wrap_col (con.terminals t).scrn_c
  obtain ⟨scrolled, hscrolled⟩ : ∃ s, s = (Screen.scroll con.color { screen con t with
    scrn_r := (con.terminals t).scrn_r + (con.terminals t).scrn_c / 80
    scrn_c := (con.terminals t).scrn_c % 80 }) := ⟨_, rfl⟩
  have hrow' : scrolled.scrn_r.toNat ≤ 24 := by
    rw [hscrolled]
    exact Screen.scroll_row_le _ _ hcarry
  have hcol' : scrolled.scrn_c.toNat ≤ 79 := by
    rw [hscrolled, Screen.scroll_col]
    exact hrest
  have hscroll : scroll (con.setTerm t { con.terminals t with
      scrn_r := (con.terminals t).scrn_r + (con.terminals t).scrn_c / 80
      scrn_c := (con.terminals t).scrn_c % 80 }) t = install con t scrolled := by
    rw [set_pos_eq_install, scroll_eq_install _ _ (by simpa using hcarry), screen_install, install_install,
      install_color, hscrolled]
  have hput (attrib : UInt8) :
      putCell (install con t scrolled) t c attrib = install con t (scrolled.put c attrib) := by
    rw [putCell_eq_install _ _ _ _ (by simpa using hrow') (by simpa using hcol'), screen_install, install_install]
  simp only [putc_color, hnewline, if_false, Screen.putc_color, hscroll, hput]
  rw [set_pos_eq_install _ t ((install con t (scrolled.put c _)).terminals t).scrn_r, syncPos_eq]
  simp only [screen_install, install_install, install_terminals, hscrolled]
  rfl

/-- `putc_color` acts on the terminal's own screen as printing on a private screen
    does, and on nothing else but the hardware cursor. -/
theorem putc_color_eq (hpos : (screen con t).InBounds) :
    putc_color con t c fg bg =
      showCursor (install con t ((screen con t).putc_color con.color ((bg <<< 4) ||| (fg &&& 0xF)) c)) t := by
  obtain ⟨hrow, hcol⟩ := hpos
  by_cases hnewline : c = 10 ∨ c = 13
  · exact putc_color_newline con t c fg bg hrow hnewline
  · exact putc_color_printing con t c fg bg hrow hcol hnewline

end PutcColor

/-- A color in its two halves. -/
theorem color_halves (color : UInt8) : ((color >>> 4) <<< 4) ||| (color &&& 0xF) = color := by
  have hall : ∀ n : Fin 256, ((UInt8.ofNat n >>> 4) <<< 4) ||| (UInt8.ofNat n &&& 0xF) = UInt8.ofNat n := by
    decide +kernel
  simpa using hall ⟨color.toNat, color.toNat_lt⟩

theorem scroll_color (con : Console) (t : Fin MAX_TERM_NUM) : (scroll con t).color = con.color := by
  simp only [scroll]
  split <;> rfl

section Putc

variable (con : Console) (t : Fin MAX_TERM_NUM) (c : UInt8)

/-- Backspace apart, `putc` is `putc_color` with the current color. -/
theorem putc_eq_putc_color (hback : c ≠ 8) : putc con t c = putc_color con t c con.color (con.color >>> 4) := by
  rw [putc, putc_color]
  simp only [hback, if_false, color_halves, scroll_color]
  rfl

/-- So is a backspace, but for the first column. -/
theorem putc_backspace (hrow : (con.terminals t).scrn_r.toNat ≤ 24)
    (hcol : (con.terminals t).scrn_c.toNat ≤ 80) (hzero : (con.terminals t).scrn_c ≠ 0) :
    putc con t 8 = showCursor (install con t ((screen con t).putc con.color 8)) t := by
  have hzero' : (screen con t).scrn_c ≠ 0 := hzero
  have hprev : ((con.terminals t).scrn_c - 1).toNat ≤ 79 := by
    rw [byte_pred hzero]
    omega
  have hc : ¬ ((8 : UInt8) = 10 ∨ (8 : UInt8) = 13) := by decide
  simp only [putc, hc, hzero, if_false, if_true, Screen.putc, hzero']
  rw [set_pos_eq_install con t (con.terminals t).scrn_r,
    putCell_eq_install _ _ _ _ (by simpa using hrow) (by simpa using hprev), syncPos_eq]
  simp only [screen_install, install_install, install_color]
  rfl

/-- `putc` acts on the terminal's own screen as printing on a private screen
    does, and on nothing else but the hardware cursor. -/
theorem putc_eq (hpos : (screen con t).InBounds) :
    putc con t c =
      if c = 8 ∧ (con.terminals t).scrn_c = 0 then con
      else showCursor (install con t ((screen con t).putc con.color c)) t := by
  by_cases hback : c = 8
  · subst hback
    by_cases hzero : (con.terminals t).scrn_c = 0
    · simp [putc, hzero]
    · rw [if_neg (fun h => hzero h.2), putc_backspace con t hpos.1 hpos.2 hzero]
  · rw [if_neg (fun h => hback h.1), putc_eq_putc_color con t c hback, putc_color_eq con t c _ _ hpos, color_halves,
      Screen.putc_eq_putc_color _ _ hback]

/-- Where `putc` can lead from a position on the screen. -/
theorem putc_cases (hpos : (screen con t).InBounds) : putc con t c = con ∨
    ∃ s : Screen, s.InBounds ∧ putc con t c = showCursor (install con t s) t := by
  rw [putc_eq con t c hpos]
  split
  · exact Or.inl rfl
  · exact Or.inr ⟨_, Screen.putc_inBounds con.color _ c hpos, rfl⟩

end Putc

/-- The byte at offset `i` of a blank screen. -/
def blankCell (color : UInt8) (i : Nat) : UInt8 := if i % 2 = 0 then 0x20 else color

/-- The loop over the cells fills them with blanks of the color. -/
theorem clearCells_eq (video : Mem) (color : UInt8) {n : Nat} (hn : n ≤ 2000) :
    clearCells video color n = fillWith video VIDEO_ADDR (blankCell color) (2 * n) := by
  induction n with
  | zero => simp [clearCells]
  | succ n ih =>
    have hshift : n <<< 1 = 2 * n := by
      rw [Nat.shiftLeft_eq]
      omega
    have hnext : VIDEO_ADDR + UInt32.ofNat (2 * n) + 1 = VIDEO_ADDR + UInt32.ofNat (2 * n + 1) := by
      rw [UInt32.ofNat_add, UInt32.add_assoc]
      rfl
    have heven : blankCell color (2 * n) = 0x20 := by simp [blankCell]
    have hodd : blankCell color (2 * n + 1) = color := by simp [blankCell, Nat.add_mod]
    rw [clearCells, ih (by omega), hshift, hnext, show 2 * (n + 1) = 2 * n + 1 + 1 by omega,
      fillWith_succ _ _ _ _ (by omega), fillWith_succ _ _ _ _ (by omega), heven, hodd]

/-- `clear_screen` blanks what the hardware shows and puts position and cursor of the visible
    terminal to its beginning. -/
theorem clear_screen_eq_showCursor (con : Console) : clear_screen con = showCursor
    ({ con with video := clearCells con.video con.color (NUM_ROWS * NUM_COLS) }.setTerm con.vis_term_id
      { con.terminals con.vis_term_id with scrn_r := 0, scrn_c := 0, curs_r := 0, curs_c := 0 })
    con.vis_term_id := by
  have hcursor := set_cursor_pos_eq
    ({ con with video := clearCells con.video con.color (NUM_ROWS * NUM_COLS) }.setTerm con.vis_term_id
      { con.terminals con.vis_term_id with scrn_r := 0, scrn_c := 0 }) con.vis_term_id 0 0
  simp only [Console.setTerm_same, Console.setTerm_setTerm] at hcursor
  exact hcursor

@[simp] theorem clear_screen_vis_term_id (con : Console) : (clear_screen con).vis_term_id = con.vis_term_id := by
  rw [clear_screen_eq_showCursor, showCursor_vis_term_id]
  rfl

/-- After `clear_screen` the cursor registers point to the first cell. -/
theorem clear_screen_cursor (con : Console) :
    ((clear_screen con).vga_reg 0x0E).toNat * 256 + ((clear_screen con).vga_reg 0x0F).toNat = 0 := by
  have hshown := showCursor_showsCursor
    ({ con with video := clearCells con.video con.color (NUM_ROWS * NUM_COLS) }.setTerm con.vis_term_id
      { con.terminals con.vis_term_id with scrn_r := 0, scrn_c := 0, curs_r := 0, curs_c := 0 })
  simp only [ShowsCursor, showCursor_vis_term_id, showCursor_terminals, Console.setTerm_vis_term_id,
    Console.setTerm_same] at hshown
  rw [clear_screen_eq_showCursor]
  exact hshown

/-- `clear_screen` clears the screen of the visible terminal, provided that
    this is the one kept in video memory. -/
theorem clear_screen_eq (con : Console) (hvid : (con.terminals con.vis_term_id).vid_mem = VIDEO_ADDR) :
    clear_screen con = showCursor
      (install con con.vis_term_id ((screen con con.vis_term_id).clear con.color)) con.vis_term_id := by
  have hcells : clearCells con.video con.color (NUM_ROWS * NUM_COLS) =
      fillWith con.video (con.terminals con.vis_term_id).vid_mem (blankCell con.color) 4000 := by
    rw [hvid]
    exact clearCells_eq con.video con.color (Nat.le_refl 2000)
  rw [← eq_install con con.vis_term_id _ (clearCells con.video con.color (NUM_ROWS * NUM_COLS))]
  · exact clear_screen_eq_showCursor con
  · intro i hi
    rw [hcells, fillWith_inside _ _ _ hi (by omega)]
    rfl
  · intro a ha
    rw [hcells, fillWith_outside _ ha]

end lacos.lib
