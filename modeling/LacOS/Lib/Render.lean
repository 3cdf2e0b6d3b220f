import LacOS.Base.Layout
import LacOS.Lib.Frame
import LacOS.Lib.Refine
import Mathlib.Data.List.Induction

open memory layout

namespace lacos.lib

/-- The character and the attribute at a position, counted along the rows. -/
def Screen.glyph (s : Screen) (q : Nat) : UInt8 × UInt8 := (s.cell (2 * q), s.cell (2 * q + 1))

def Screen.nextRow (color : UInt8) (s : Screen) : Screen :=
  Screen.scroll color { s with scrn_r := s.scrn_r + 1, scrn_c := 0 }

/-- A character at the position, which is then the next column. -/
def Screen.print (color : UInt8) (s : Screen) (c : UInt8) : Screen :=
  { s.put c color with scrn_c := s.scrn_c + 1 }

/-- A place one row below is 80 places further. -/
theorem row_below (i j : Nat) : NUM_COLS * i + j + 80 = NUM_COLS * (i + 1) + j := by
  simp only [NUM_COLS]
  omega

section Glyph

variable (color : UInt8) (s : Screen) {c : UInt8}

theorem Screen.cell_set {i : Nat} (value : UInt8) (hi : i < 4000) (j : Nat) :
    (s.set i value).cell j = if j = i then value else s.cell j := by
  by_cases hj : j < 4000
  · rw [Screen.cell_of_lt _ hj, Screen.cell_of_lt _ hj, Screen.set_cells _ _ hi]
  · rw [if_neg (by omega), Screen.cell, Screen.cell, dif_neg hj, dif_neg hj]

/-- Scrolling moves every row up by one and blanks the last one. -/
theorem Screen.cell_scroll (hfull : NUM_ROWS ≤ s.scrn_r.toNat) {i : Nat} (hi : i < 4000) :
    (s.scroll color).cell i = if i + 160 < 4000 then s.cell (i + 160) else if i % 2 = 0 then 0x20 else color := by
  rw [Screen.cell_of_lt _ hi]
  simp only [Screen.scroll, if_pos hfull]
  split
  · rename_i hrow
    exact (Screen.cell_of_lt s hrow).symm
  · rfl

/-- Scrolling in terms of places: each shows what the one below it has shown. -/
theorem Screen.glyph_scroll (hfull : NUM_ROWS ≤ s.scrn_r.toNat) {q : Nat} (hq : q < 2000) :
    (s.scroll color).glyph q = if q + 80 < 2000 then s.glyph (q + 80) else (0x20, color) := by
  rw [Screen.glyph, Screen.cell_scroll color s hfull (by omega), Screen.cell_scroll color s hfull (by omega)]
  by_cases hlast : q + 80 < 2000
  · rw [if_pos (by omega), if_pos (by omega), if_pos hlast]
    rfl
  · rw [if_neg (by omega), if_pos (by omega), if_neg (by omega), if_neg (by omega), if_neg hlast]

/-- There is no scrolling as long as the position is on the screen. -/
theorem Screen.scroll_of_lt (hrow : s.scrn_r.toNat < NUM_ROWS) : s.scroll color = s :=
  if_neg (Nat.not_le.mpr hrow)

/-- A newline, or a carriage return, begins the next row. -/
theorem Screen.putc_newline (hc : c = 10 ∨ c = 13) : s.putc color c = (s.nextRow color).sync :=
  if_pos hc

theorem Screen.putc_color_newline (attrib : UInt8) (hc : c = 10 ∨ c = 13) :
    s.putc_color color attrib c = (s.nextRow color).sync :=
  if_pos hc

variable (hrow : s.scrn_r.toNat ≤ 24)
include hrow

/-- In front of the end of a row a character is printed where the position is. -/
theorem Screen.putc_color_same_row (attrib : UInt8) (hcol : s.scrn_c.toNat < 80) (hnewline : ¬ (c = 10 ∨ c = 13)) :
    s.putc_color color attrib c = (s.print attrib c).sync := by
  have hdiv : s.scrn_c / 80 = 0 := by
    apply UInt8.toNat_inj.mp
    rw [UInt8.toNat_div]
    exact Nat.div_eq_of_lt hcol
  have hmod : s.scrn_c % 80 = s.scrn_c := by
    apply UInt8.toNat_inj.mp
    rw [UInt8.toNat_mod]
    exact Nat.mod_eq_of_lt hcol
  simp only [Screen.putc_color, hnewline, if_false, hdiv, hmod, UInt8.add_zero]
  rw [Screen.scroll_of_lt _ _ (Nat.lt_succ_of_le hrow)]
  simp only [Screen.print, Screen.put_pos]

theorem Screen.putc_same_row (hcol : s.scrn_c.toNat < 80) (hnewline : ¬ (c = 10 ∨ c = 13)) (hback : c ≠ 8) :
    s.putc color c = (s.print color c).sync := by
  rw [Screen.putc_eq_putc_color color s hback, Screen.putc_color_same_row color s hrow color hcol hnewline]

omit hrow in
/-- Column 80 is left only when a further character is printed. -/
theorem Screen.putc_color_wrap (attrib : UInt8) (hcol : s.scrn_c.toNat = 80) (hnewline : ¬ (c = 10 ∨ c = 13)) :
    s.putc_color color attrib c = ((s.nextRow color).print attrib c).sync := by
  have hfull : s.scrn_c = 80 := UInt8.toNat_inj.mp hcol
  have hdiv : (80 : UInt8) / 80 = 1 := by decide
  have hmod : (80 : UInt8) % 80 = 0 := by decide
  simp only [Screen.putc_color, hnewline, if_false, hfull, hdiv, hmod]
  simp only [Screen.print, Screen.put_pos, Screen.nextRow]

omit hrow in
/-- Behind the end of a row the next one is begun first. -/
theorem Screen.putc_wrap (hcol : s.scrn_c.toNat = 80) (hnewline : ¬ (c = 10 ∨ c = 13)) (hback : c ≠ 8) :
    s.putc color c = ((s.nextRow color).print color c).sync := by
  rw [Screen.putc_eq_putc_color color s hback, Screen.putc_color_wrap color s color hcol hnewline]

/-- The position goes to the first column of the next row, which is the last one at most. -/
theorem Screen.nextRow_pos :
    (s.nextRow color).scrn_r.toNat = min (s.scrn_r.toNat + 1) 24 ∧ (s.nextRow color).scrn_c = 0 := by
  have hnext := byte_succ (n := s.scrn_r) (by omega)
  refine ⟨?_, Screen.scroll_col _ color⟩
  simp only [Screen.nextRow, Screen.scroll, hnext, NUM_ROWS]
  split
  · rw [Nat.min_eq_right (by omega)]
    rfl
  · rw [Nat.min_eq_left (by omega)]
    exact hnext

/-- A new row below the last one moves all others up. -/
theorem Screen.glyph_nextRow {q : Nat} (hq : q < 2000) : (s.nextRow color).glyph q =
    if s.scrn_r.toNat = 24 then if q + 80 < 2000 then s.glyph (q + 80) else (0x20, color) else s.glyph q := by
  have hnext := byte_succ (n := s.scrn_r) (by omega)
  rw [Screen.nextRow]
  split
  · rename_i hlast
    rw [Screen.glyph_scroll _ _ (by simp only [hnext, hlast, NUM_ROWS]; decide) hq]
    rfl
  · rename_i hroom
    rw [Screen.scroll_of_lt _ _ (by simp only [hnext, NUM_ROWS]; omega)]
    rfl

variable (hcol : s.scrn_c.toNat < 80)
include hcol

omit hrow in
/-- Printing moves the position by one column, behind the last one too. -/
theorem Screen.print_pos (c : UInt8) :
    (s.print color c).scrn_r = s.scrn_r ∧ (s.print color c).scrn_c.toNat = s.scrn_c.toNat + 1 := by
  refine ⟨(Screen.put_pos s c color).1, ?_⟩
  exact byte_succ (by omega)

/-- Storing a character changes the place at the position only. -/
theorem Screen.glyph_put (c : UInt8) (q : Nat) : (s.put c color).glyph q =
    if q = 80 * s.scrn_r.toNat + s.scrn_c.toNat then (c, color) else s.glyph q := by
  simp only [Screen.put, Screen.glyph, NUM_COLS]
  rw [Screen.cell_set _ _ (by omega), Screen.cell_set _ _ (by omega), Screen.cell_set _ _ (by omega),
    Screen.cell_set _ _ (by omega), if_neg (by omega)]
  by_cases hq : q = 80 * s.scrn_r.toNat + s.scrn_c.toNat
  · rw [if_pos (by omega), if_pos (by omega), if_pos hq]
  · rw [if_neg (by omega), if_neg (by omega), if_neg (by omega), if_neg hq]

/-- Printing a character changes the place at the position only. -/
theorem Screen.glyph_print (c : UInt8) (q : Nat) : (s.print color c).glyph q =
    if q = 80 * s.scrn_r.toNat + s.scrn_c.toNat then (c, color) else s.glyph q :=
  Screen.glyph_put color s hrow hcol c q

end Glyph

/-- The bytes at which a line of text ends. -/
def isNewline (c : UInt8) : Bool := c = 10 ∨ c = 13

/-- The screen shows the end of a text given by its rows, and the position is behind its last
    character. -/
structure Renders (color : UInt8) (s : Screen) (text : List (List UInt8)) : Prop where
  scrn_r : s.scrn_r.toNat = min text.length NUM_ROWS - 1
  scrn_c : s.scrn_c.toNat = (text.getLastD []).length
  glyph : ∀ i < NUM_ROWS, ∀ j < NUM_COLS, s.glyph (NUM_COLS * i + j) = (shown 0x20 NUM_ROWS text i j, color)

theorem Renders.sync {color : UInt8} {s : Screen} {text : List (List UInt8)} (hs : Renders color s text) :
    Renders color s.sync text :=
  ⟨hs.scrn_r, hs.scrn_c, hs.glyph⟩

/-- A cleared screen shows one empty row. -/
theorem renders_clear (color : UInt8) (s : Screen) : Renders color (s.clear color) [[]] where
  scrn_r := rfl
  scrn_c := rfl
  glyph i hi j hj := by
    simp only [NUM_ROWS, NUM_COLS] at hi hj ⊢
    have hshown : shown (0x20 : UInt8) 25 [[]] i j = 0x20 := by
      rw [shown_eq, ← List.nil_append [[]], getD_append_default, List.getD_nil, List.getD_nil]
    rw [hshown, Screen.glyph, Screen.cell_of_lt _ (by omega), Screen.cell_of_lt _ (by omega)]
    simp only [Screen.clear]
    rw [if_pos (by omega), if_neg (by omega)]

section Step

variable {color : UInt8} {s : Screen} {init : List (List UInt8)} {last : List UInt8}
  (hs : Renders color s (init ++ [last]))
include hs

/-- The position is behind the last row of the text, wherever on the screen this is. -/
theorem Renders.position : s.scrn_r.toNat = min (init.length + 1) 25 - 1 ∧ s.scrn_c.toNat = last.length := by
  obtain ⟨hrow, hcol, -⟩ := hs
  rw [List.length_append] at hrow
  rw [List.getLastD_concat] at hcol
  exact ⟨hrow, hcol⟩

/-- The next row shows one empty row more. When the screen is full, it loses its first one. -/
theorem Renders.nextRow : Renders color (s.nextRow color) (init ++ [last] ++ [[]]) := by
  obtain ⟨hrow, -⟩ := hs.position
  obtain ⟨hrow', hcol'⟩ := s.nextRow_pos color (by omega)
  refine ⟨?_, ?_, ?_⟩
  · rw [hrow', List.length_append, List.length_append, List.length_singleton, List.length_singleton]
    simp only [NUM_ROWS]
    omega
  · rw [hcol', List.getLastD_concat]
    rfl
  · intro i hi j hj
    simp only [NUM_ROWS, NUM_COLS] at hi hj
    rw [Screen.glyph_nextRow color s (by omega) (by simp only [NUM_COLS]; omega)]
    split
    · rename_i hfull
      rw [shown_scrolled _ _ _ _ (by rw [List.length_append, List.length_singleton]; simp only [NUM_ROWS]; omega)]
      split
      · rename_i hlt
        simp only [NUM_COLS] at hlt
        rw [row_below, hs.glyph (i + 1) (by simp only [NUM_ROWS]; omega) j hj]
      · rename_i hge
        simp only [NUM_COLS] at hge
        rw [shown_below _ _ _ _ (by simp only [NUM_ROWS]; omega)]
    · rename_i hroom
      rw [shown_new_row _ _ _ _ (by rw [List.length_append, List.length_singleton]; simp only [NUM_ROWS]; omega)]
      exact hs.glyph i hi j hj

/-- A printed character goes to the end of the last row. The row must have room for it. -/
theorem Renders.print (c : UInt8) (hlast : last.length < 80) :
    Renders color (s.print color c) (init ++ [last ++ [c]]) := by
  obtain ⟨hrow, hcol⟩ := hs.position
  obtain ⟨hrow', hcol'⟩ := s.print_pos color (by omega) c
  refine ⟨?_, ?_, ?_⟩
  · rw [hrow', hrow, List.length_append]
    rfl
  · rw [hcol', hcol, List.getLastD_concat, List.length_append]
    rfl
  · intro i hi j hj
    simp only [NUM_COLS] at hj
    have hcell : NUM_COLS * i + j = 80 * s.scrn_r.toNat + s.scrn_c.toNat ↔
        i = min (init.length + 1) NUM_ROWS - 1 ∧ j = last.length := by
      simp only [NUM_COLS, NUM_ROWS]
      omega
    rw [Screen.glyph_print color s (by omega) (by omega), shown_put _ _ _ (by decide), if_congr hcell rfl rfl]
    split
    · rfl
    · exact hs.glyph i hi j hj

end Step

/-- Printing a byte adds it to the text shown, whether it wraps, scrolls or does neither. -/
theorem Renders.putc {color : UInt8} {s : Screen} {text : List UInt8} {c : UInt8}
    (hs : Renders color s (rows isNewline NUM_COLS text)) (hback : c ≠ 8) :
    Renders color (s.putc color c) (rows isNewline NUM_COLS (text ++ [c])) := by
  obtain ⟨init, last, hrows, hlength, hsnoc⟩ := rows_snoc (w := NUM_COLS) (by decide) isNewline text c
  rw [hrows] at hs
  obtain ⟨hrow, hcol⟩ := hs.position
  rw [hsnoc]
  by_cases hnewline : c = 10 ∨ c = 13
  · rw [if_pos (show isNewline c = true from decide_eq_true hnewline), Screen.putc_newline _ _ hnewline,
      List.append_cons]
    exact hs.nextRow.sync
  · rw [if_neg (by rwa [isNewline, decide_eq_true_eq])]
    -- A full row is left here and not when its last character was printed, as in the layout.
    split
    · rename_i hroom
      rw [Screen.putc_same_row color s (by omega) (hcol ▸ hroom) hnewline hback]
      exact (hs.print c hroom).sync
    · rename_i hfull
      have hcol' : s.scrn_c.toNat = 80 := by
        simp only [NUM_COLS] at hlength hfull
        omega
      rw [Screen.putc_wrap color s hcol' hnewline hback, List.append_cons]
      exact (hs.nextRow.print c (by decide)).sync

/-- A screen that shows rows of the width of the screen has its position in bounds. -/
theorem Renders.inBounds {color : UInt8} {s : Screen} {text : List UInt8}
    (hs : Renders color s (rows isNewline NUM_COLS text)) : s.InBounds := by
  obtain ⟨init, last, hrows, hlength, -⟩ := rows_snoc (w := NUM_COLS) (by decide) isNewline text 0
  rw [hrows] at hs
  obtain ⟨hrow, hcol⟩ := hs.position
  simp only [NUM_COLS] at hlength
  exact ⟨by omega, by omega⟩

section Scroll

variable (con : Console) (t : Fin MAX_TERM_NUM) (c : UInt8)

/-- The console in which `putc` calls `scroll`. -/
def beforeScroll : Console :=
  let term := con.terminals t
  if c = 10 ∨ c = 13 then con.setTerm t { term with scrn_r := term.scrn_r + 1, scrn_c := 0 }
  else con.setTerm t { term with scrn_r := term.scrn_r + term.scrn_c / 80, scrn_c := term.scrn_c % 80 }

/-- The rest of `putc` from the console that `scroll` leaves. -/
def afterScroll : Console :=
  if c = 10 ∨ c = 13 then syncPos con t
  else
    let con := putCell con t c con.color
    let con := con.setTerm t { con.terminals t with scrn_c := (con.terminals t).scrn_c + 1 }
    syncPos con t

/-- A call of `scroll` that has to scroll moves all rows up by one, blanks the last one and
    goes back to it. -/
structure ScrollsByOne : Prop where
  calls : putc con t c = afterScroll (scroll (beforeScroll con t c) t) t c
  rows : NUM_ROWS ≤ ((beforeScroll con t c).terminals t).scrn_r.toNat → ∀ i < NUM_ROWS, ∀ j < NUM_COLS,
    (screen (scroll (beforeScroll con t c) t) t).glyph (NUM_COLS * i + j) =
      if i + 1 < NUM_ROWS then (screen (beforeScroll con t c) t).glyph (NUM_COLS * (i + 1) + j)
      else (0x20, con.color)
  scrn_r : NUM_ROWS ≤ ((beforeScroll con t c).terminals t).scrn_r.toNat →
    ((scroll (beforeScroll con t c) t).terminals t).scrn_r = 24

theorem beforeScroll_color : (beforeScroll con t c).color = con.color := by
  unfold beforeScroll
  split <;> rfl

/-- Just before scrolling the position is one row below the screen at most. -/
theorem beforeScroll_row (hpos : (screen con t).InBounds) :
    ((beforeScroll con t c).terminals t).scrn_r.toNat ≤ 25 := by
  obtain ⟨hrow, hcol⟩ := hpos
  simp only [screen] at hrow hcol
  unfold beforeScroll
  split
  · rw [Console.setTerm_same]
    simp only [byte_succ (Nat.lt_of_le_of_lt hrow (by decide))]
    omega
  · rw [Console.setTerm_same]
    simp only [carry_row hrow hcol]
    omega

/-- A character other than a backspace scrolls the screen by one row or not at all. -/
theorem scrollsByOne (hpos : (screen con t).InBounds) (hback : c ≠ 8) : ScrollsByOne con t c := by
  have hscroll := scroll_eq_install (beforeScroll con t c) t (beforeScroll_row con t c hpos)
  refine ⟨?_, ?_, ?_⟩
  · unfold putc beforeScroll afterScroll
    by_cases hnewline : c = 10 ∨ c = 13
    · simp only [if_pos hnewline]
    · simp only [if_neg hnewline, if_neg hback]
  · intro hfull i hi j hj
    simp only [NUM_ROWS, NUM_COLS] at hi hj
    rw [hscroll, screen_install, Screen.glyph_scroll _ _ hfull (by simp only [NUM_COLS]; omega),
      beforeScroll_color]
    by_cases hlast : i + 1 < NUM_ROWS
    · rw [if_pos hlast, if_pos (by simp only [NUM_COLS, NUM_ROWS] at hlast ⊢; omega), row_below]
    · rw [if_neg hlast, if_neg (by simp only [NUM_COLS, NUM_ROWS] at hlast ⊢; omega)]
  · intro hfull
    have hfull' : (screen (beforeScroll con t c) t).scrn_r.toNat ≥ NUM_ROWS := hfull
    rw [hscroll, install_terminals, Screen.scroll, if_pos hfull']

end Scroll

section Puts

variable (con : Console) (t : Fin MAX_TERM_NUM)

/-- The last character of a string is printed last. -/
theorem puts_snoc (s : List UInt8) (c : UInt8) : puts con t (s ++ [c]) = putc (puts con t s) t c := by
  rw [puts, List.foldl_append]
  rfl

/-- Printing does not change the color. -/
theorem puts_color_eq (s : List UInt8) : (puts con t s).color = con.color :=
  (prints_puts con t s).color

/-- What a terminal shows after a text, if its screen was clear before. -/
structure Rendered (s : List UInt8) : Prop where
  text : Renders con.color (screen (puts con t s) t) (rows isNewline NUM_COLS s)
  curs_r : ((puts con t s).terminals t).curs_r = ((puts con t s).terminals t).scrn_r
  curs_c : ((puts con t s).terminals t).curs_c = ((puts con t s).terminals t).scrn_c

variable {con t} {s : List UInt8} (hclear : screen con t = (screen con t).clear con.color) (hs : 8 ∉ s)
include hclear hs

/-- A string printed on a cleared screen is shown row by row. By induction on the string, from its
    end. -/
theorem rendered_of_clear : Rendered con t s := by
  induction s using List.reverseRecOn with
  | nil =>
    refine ⟨?_, ?_, ?_⟩
    · rw [rows_nil, show puts con t [] = con from rfl, hclear]
      exact renders_clear con.color _
    · exact (congrArg Screen.curs_r hclear).trans (congrArg Screen.scrn_r hclear).symm
    · exact (congrArg Screen.curs_c hclear).trans (congrArg Screen.scrn_c hclear).symm
  | append_singleton s c ih =>
    obtain ⟨hs, hc⟩ : 8 ∉ s ∧ c ≠ 8 := by
      simp only [List.mem_append, List.mem_singleton, not_or] at hs
      exact ⟨hs.1, fun h => hs.2 h.symm⟩
    have htext := (ih hs).text
    have hputc := putc_eq (puts con t s) t c htext.inBounds
    rw [if_neg (fun h => hc h.1), puts_color_eq] at hputc
    have hscreen : screen (puts con t (s ++ [c])) t = (screen (puts con t s) t).putc con.color c := by
      rw [puts_snoc, hputc, screen_showCursor, screen_install]
    have hsync : ∃ s', (screen (puts con t s) t).putc con.color c = Screen.sync s' := by
      unfold Screen.putc
      split
      · exact ⟨_, rfl⟩
      · exact ⟨_, rfl⟩
    obtain ⟨s', hsync⟩ := hsync
    refine ⟨?_, ?_, ?_⟩
    · rw [hscreen]
      exact htext.putc hc
    · exact (congrArg Screen.curs_r (hscreen.trans hsync)).trans (congrArg Screen.scrn_r (hscreen.trans hsync)).symm
    · exact (congrArg Screen.curs_c (hscreen.trans hsync)).trans (congrArg Screen.scrn_c (hscreen.trans hsync)).symm

end Puts

/-- A text written to a cleared terminal is laid out in rows of 80 characters, of which the last
    25 are shown with the cursor behind them, and on the way every scroll is by one row. The
    terminal need not be the visible or the scheduled one, and any color will do. -/
theorem puts_renders (con : Console) (t : Fin MAX_TERM_NUM) (s : List UInt8)
    (hclear : screen con t = (screen con t).clear con.color) (hs : 8 ∉ s) :
    Rendered con t s ∧ ∀ printed c, printed ++ [c] <+: s → ScrollsByOne (puts con t printed) t c := by
  refine ⟨rendered_of_clear hclear hs, fun printed c hstep => ?_⟩
  have hprinted : 8 ∉ printed := fun h => hs (hstep.subset (List.mem_append_left _ h))
  have hc : c ≠ 8 := fun h => hs (hstep.subset (h ▸ List.mem_append_right _ (List.mem_singleton_self c)))
  exact scrollsByOne _ t c (rendered_of_clear hclear hprinted).text.inBounds hc

/-- `clear_screen` leaves the visible terminal clear. -/
theorem screen_clear_screen (con : Console) (hvid : (con.terminals con.vis_term_id).vid_mem = VIDEO_ADDR) :
    screen (clear_screen con) con.vis_term_id =
      (screen (clear_screen con) con.vis_term_id).clear (clear_screen con).color := by
  rw [clear_screen_eq con hvid, screen_showCursor, screen_install, showCursor_color, install_color]
  rfl

/-- A blank machine whose first terminal is in video memory. -/
def firstTerminal : Console :=
  blankMachine.toConsole.setTerm 0 { blankMachine.terminals 0 with vid_mem := VIDEO_ADDR }

theorem puts_renders_two_rows :
    rows isNewline NUM_COLS [72, 105, 10] = [[72, 105], []] ∧
      Rendered (clear_screen firstTerminal) 0 [72, 105, 10] :=
  ⟨by decide, (puts_renders _ 0 _ (screen_clear_screen firstTerminal rfl) (by decide)).1⟩

end lacos.lib
