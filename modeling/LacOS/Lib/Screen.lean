import LacOS.Lib.Console

open memory

namespace lacos.lib

/-- A screen of its own: character and attribute bytes, keyboard position and
    cursor position. -/
@[ext] structure Screen where
  cells : Fin 4000 → UInt8
  scrn_r : UInt8
  scrn_c : UInt8
  curs_r : UInt8
  curs_c : UInt8

def Screen.set (s : Screen) (i : Nat) (value : UInt8) : Screen :=
  if h : i < 4000 then { s with cells := Function.update s.cells ⟨i, h⟩ value } else s

/-- Write a character and its attribute at the keyboard position. -/
def Screen.put (s : Screen) (c attrib : UInt8) : Screen :=
  let i := 2 * (NUM_COLS * s.scrn_r.toNat + s.scrn_c.toNat)
  (s.set i c).set (i + 1) attrib

/-- Once the position has left the last row, all rows move up by one and the
    last one is blank. -/
def Screen.scroll (color : UInt8) (s : Screen) : Screen :=
  if s.scrn_r.toNat ≥ NUM_ROWS then
    { s with
      cells := fun i =>
        if h : i.val + 160 < 4000 then s.cells ⟨i.val + 160, h⟩
        else if i.val % 2 = 0 then 0x20 else color
      scrn_r := 24 }
  else s

def Screen.sync (s : Screen) : Screen :=
  { s with curs_r := s.scrn_r, curs_c := s.scrn_c }

/-- Printing one character on a private screen. -/
def Screen.putc (color : UInt8) (s : Screen) (c : UInt8) : Screen :=
  if c = 10 ∨ c = 13 then
    (Screen.scroll color { s with scrn_r := s.scrn_r + 1, scrn_c := 0 }).sync
  else if c = 8 then
    if s.scrn_c = 0 then s
    else (Screen.put { s with scrn_c := s.scrn_c - 1 } 0x20 color).sync
  else
    let s := Screen.scroll color { s with scrn_r := s.scrn_r + s.scrn_c / 80, scrn_c := s.scrn_c % 80 }
    let s := s.put c color
    Screen.sync { s with scrn_c := s.scrn_c + 1 }

/-- Printing one character with an attribute of its own. -/
def Screen.putc_color (color attrib : UInt8) (s : Screen) (c : UInt8) : Screen :=
  if c = 10 ∨ c = 13 then
    (Screen.scroll color { s with scrn_r := s.scrn_r + 1, scrn_c := 0 }).sync
  else
    let s := Screen.scroll color { s with scrn_r := s.scrn_r + s.scrn_c / 80, scrn_c := s.scrn_c % 80 }
    let s := s.put c attrib
    Screen.sync { s with scrn_c := s.scrn_c + 1 }

def Screen.clear (color : UInt8) (s : Screen) : Screen :=
  { s with
    cells := fun i => if i.val % 2 = 0 then 0x20 else color
    scrn_r := 0, scrn_c := 0, curs_r := 0, curs_c := 0 }

/-- The position from which the next character can be printed: column 80 is the
    resting place after the last column. -/
def Screen.InBounds (s : Screen) : Prop :=
  s.scrn_r.toNat ≤ 24 ∧ s.scrn_c.toNat ≤ 80

def Screen.cell (s : Screen) (i : Nat) : UInt8 :=
  if h : i < 4000 then s.cells ⟨i, h⟩ else 0

section Bytes

variable {n row col : UInt8}

/-- A byte that is not 255 is counted up as a number. -/
theorem byte_succ (hn : n.toNat < 255) : (n + 1).toNat = n.toNat + 1 := by
  rw [UInt8.toNat_add]
  exact Nat.mod_eq_of_lt (Nat.succ_lt_succ hn)

/-- A byte that is not 0 is counted down as a number. -/
theorem byte_pred (hn : n ≠ 0) : (n - 1).toNat = n.toNat - 1 := by
  have hpos : n.toNat ≠ 0 := fun h => hn (UInt8.toNat_inj.mp h)
  have hone : (1 : UInt8) ≤ n := UInt8.le_iff_toNat_le.mpr (Nat.one_le_iff_ne_zero.mpr hpos)
  exact UInt8.toNat_sub_of_le _ _ hone

/-- The row `putc` goes on to from column 80. -/
theorem carry_row (hrow : row.toNat ≤ 24) (hcol : col.toNat ≤ 80) :
    (row + col / 80).toNat = row.toNat + col.toNat / 80 := by
  rw [UInt8.toNat_add, UInt8.toNat_div]
  simp
  omega

/-- The column that `putc` wraps to is on the screen. -/
theorem wrap_col (col : UInt8) : (col % 80).toNat ≤ 79 := by
  rw [UInt8.toNat_mod]
  exact Nat.le_of_lt_succ (Nat.mod_lt _ (by decide))

end Bytes

theorem Screen.cell_of_lt (s : Screen) {i : Nat} (hi : i < 4000) : s.cell i = s.cells ⟨i, hi⟩ := by
  simp only [Screen.cell, hi, dif_pos]

/-- Setting a byte changes no other one. -/
theorem Screen.set_cells (s : Screen) {i : Nat} (value : UInt8) (hi : i < 4000) (j : Fin 4000) :
    (s.set i value).cells j = if j.val = i then value else s.cells j := by
  simp only [Screen.set, hi, dif_pos, Function.update_apply, Fin.ext_iff]

/-- Scrolling brings the position back to the screen from the row below it. From further down it
    would not. -/
theorem Screen.scroll_row_le (s : Screen) (color : UInt8) (hrow : s.scrn_r.toNat ≤ 25) :
    (s.scroll color).scrn_r.toNat ≤ 24 := by
  unfold Screen.scroll
  split
  · simp
  · rename_i hrow'
    simp only [NUM_ROWS] at hrow'
    omega

theorem Screen.scroll_col (s : Screen) (color : UInt8) : (s.scroll color).scrn_c = s.scrn_c := by
  unfold Screen.scroll
  split <;> rfl

@[simp] theorem Screen.set_pos (s : Screen) (i : Nat) (value : UInt8) :
    (s.set i value).scrn_r = s.scrn_r ∧ (s.set i value).scrn_c = s.scrn_c ∧
      (s.set i value).curs_r = s.curs_r ∧ (s.set i value).curs_c = s.curs_c := by
  unfold Screen.set
  split <;> simp

@[simp] theorem Screen.put_pos (s : Screen) (c attrib : UInt8) :
    (s.put c attrib).scrn_r = s.scrn_r ∧ (s.put c attrib).scrn_c = s.scrn_c := by
  simp [Screen.put]

/-- The position of a cleared screen is in bounds, whatever it was. -/
theorem Screen.clear_inBounds (color : UInt8) (s : Screen) : (s.clear color).InBounds := by
  simp [Screen.InBounds, Screen.clear]

/-- Backspace apart, the attribute is all that makes colored printing different. -/
theorem Screen.putc_eq_putc_color (color : UInt8) (s : Screen) {c : UInt8} (hback : c ≠ 8) :
    s.putc color c = s.putc_color color color c := by
  rw [Screen.putc, Screen.putc_color, if_neg hback]

/-- A printed character keeps the position in bounds. -/
theorem Screen.putc_color_inBounds (color attrib : UInt8) (s : Screen) (c : UInt8) (hpos : s.InBounds) :
    (s.putc_color color attrib c).InBounds := by
  obtain ⟨hrow, hcol⟩ := hpos
  unfold Screen.putc_color
  split
  · refine ⟨Screen.scroll_row_le _ _ ?_, ?_⟩
    · rw [byte_succ (by omega)]
      omega
    · simp [Screen.sync, Screen.scroll_col]
  · refine ⟨?_, ?_⟩
    · simp only [Screen.sync, Screen.put_pos]
      apply Screen.scroll_row_le
      rw [carry_row hrow hcol]
      omega
    · have hwrap := wrap_col s.scrn_c
      simp only [Screen.sync, Screen.put_pos, Screen.scroll_col]
      rw [byte_succ (by omega)]
      omega

/-- Printing keeps the position on the screen, whatever is printed. -/
theorem Screen.putc_inBounds (color : UInt8) (s : Screen) (c : UInt8) (hpos : s.InBounds) :
    (s.putc color c).InBounds := by
  by_cases hback : c = 8
  · subst hback
    obtain ⟨hrow, hcol⟩ := hpos
    rw [Screen.putc, if_neg (by decide), if_pos rfl]
    split
    · exact ⟨hrow, hcol⟩
    · rename_i hzero
      refine ⟨by simpa [Screen.sync] using hrow, ?_⟩
      simp only [Screen.sync, Screen.put_pos, byte_pred hzero]
      omega
  · rw [Screen.putc_eq_putc_color color s hback]
    exact Screen.putc_color_inBounds color color s c hpos

/-- The logical screen of a terminal: the bytes at its `vid_mem` and its positions. -/
def screen (con : Console) (t : Fin MAX_TERM_NUM) : Screen where
  cells i := con.video ((con.terminals t).vid_mem + UInt32.ofNat i)
  scrn_r := (con.terminals t).scrn_r
  scrn_c := (con.terminals t).scrn_c
  curs_r := (con.terminals t).curs_r
  curs_c := (con.terminals t).curs_c

end lacos.lib
