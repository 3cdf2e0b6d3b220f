import LacOS.Lib.Render

open memory

namespace lacos.lib

/-- The position, counted along the rows: column 80 is the first one of the next row. -/
def Screen.pos (s : Screen) : Nat := NUM_COLS * s.scrn_r.toNat + s.scrn_c.toNat

/-- What Backspace does to a private screen: from the first column it goes back to the row
    before. -/
def Screen.erase (color : UInt8) (s : Screen) : Screen :=
  Screen.putc color (if s.scrn_c = 0 then { s with scrn_r := s.scrn_r - 1, scrn_c := 80 } else s) 8

/-- The screen shows 25 rows of an unbounded tape, of which `n` rows have been scrolled out.
    The position is place `v` of the tape, and all places below the screen are blank. -/
structure OnTape (color : UInt8) (tape : Nat → UInt8 × UInt8) (n v : Nat) (s : Screen) : Prop where
  in_bounds : s.InBounds
  pos : s.pos + 80 * n = v
  glyph : ∀ q < 2000, s.glyph q = tape (q + 80 * n)
  below : ∀ q, 80 * n + 2000 ≤ q → tape q = (0x20, color)

/-- The screen and the rows that have not come up yet, which will be blank. -/
def Screen.paper (color : UInt8) (s : Screen) (q : Nat) : UInt8 × UInt8 := if q < 2000 then s.glyph q else (0x20, color)

/-- A screen is a window on the tape that holds just what it shows. -/
theorem Screen.InBounds.onTape {s : Screen} (hpos : s.InBounds) (color : UInt8) :
    OnTape color (s.paper color) 0 s.pos s where
  in_bounds := hpos
  pos := rfl
  glyph _ hq := (if_pos hq).symm
  below _ hq := if_neg (by omega)

section OnTape

variable {color : UInt8} {tape : Nat → UInt8 × UInt8} {n v : Nat} {s : Screen} (hs : OnTape color tape n v s)
include hs

theorem OnTape.sync : OnTape color tape n v s.sync :=
  ⟨hs.in_bounds, hs.pos, hs.glyph, hs.below⟩

theorem OnTape.pos_eq : 80 * s.scrn_r.toNat + s.scrn_c.toNat + 80 * n = v := hs.pos

/-- Going on to the next row from column 80 stays at the same place of the tape. -/
theorem OnTape.nextRow (hcol : s.scrn_c.toNat = 80) :
    OnTape color tape (if v = 80 * n + 2000 then n + 1 else n) v (s.nextRow color) := by
  obtain ⟨hrow, -⟩ := hs.in_bounds
  have hpos := hs.pos_eq
  obtain ⟨hrow', hcol'⟩ := s.nextRow_pos color hrow
  have hbounds : (s.nextRow color).InBounds := by
    refine ⟨by omega, ?_⟩
    rw [hcol']
    decide
  have hpos' : (s.nextRow color).pos = 80 * min (s.scrn_r.toNat + 1) 24 := by
    rw [Screen.pos, hrow', hcol']
    rfl
  -- From the last row the screen moves on by one row of the tape, and only blanks come up.
  by_cases hlast : s.scrn_r.toNat = 24
  · rw [if_pos (by omega)]
    refine ⟨hbounds, by omega, fun q hq => ?_, fun q hq => hs.below q (by omega)⟩
    rw [Screen.glyph_nextRow color s hrow hq, if_pos hlast]
    split
    · rename_i hkept
      rw [hs.glyph _ hkept, Nat.add_right_comm, Nat.mul_succ, Nat.add_assoc]
    · rw [hs.below _ (by omega)]
  · rw [if_neg (by omega)]
    refine ⟨hbounds, by omega, fun q hq => ?_, hs.below⟩
    rw [Screen.glyph_nextRow color s hrow hq, if_neg hlast, hs.glyph q hq]

/-- Printing writes the tape at the position. The column must be one of the screen. -/
theorem OnTape.print (hcol : s.scrn_c.toNat < 80) (c : UInt8) :
    OnTape color (Function.update tape v (c, color)) n (v + 1) (s.print color c) := by
  obtain ⟨hrow, -⟩ := hs.in_bounds
  have hpos := hs.pos_eq
  obtain ⟨hrow', hcol'⟩ := s.print_pos color hcol c
  refine ⟨⟨by rwa [hrow'], by omega⟩, ?_, fun q hq => ?_, fun q hq => ?_⟩
  · rw [Screen.pos, hrow', hcol']
    simp only [NUM_COLS]
    omega
  · rw [Screen.glyph_print color s hrow hcol, Function.update_apply, hs.glyph q hq]
    exact if_congr (by omega) rfl rfl
  · rw [Function.update_of_ne (by omega), hs.below q hq]

/-- Printing writes the next place of the tape, scrolling if that is below the screen. -/
theorem OnTape.putc {c : UInt8} (hnewline : ¬ (c = 10 ∨ c = 13)) (hback : c ≠ 8) :
    OnTape color (Function.update tape v (c, color)) (if v = 80 * n + 2000 then n + 1 else n) (v + 1)
      (s.putc color c) := by
  obtain ⟨hrow, hcol⟩ := hs.in_bounds
  have hpos := hs.pos_eq
  rcases Nat.lt_or_eq_of_le hcol with hroom | hfull
  · rw [Screen.putc_same_row color s hrow hroom hnewline hback, if_neg (by omega)]
    exact (hs.print hroom c).sync
  · rw [Screen.putc_wrap color s hfull hnewline hback]
    have hstart : (s.nextRow color).scrn_c.toNat < 80 := by
      rw [(s.nextRow_pos color hrow).2]
      decide
    exact ((hs.nextRow hfull).print hstart c).sync

/-- Backspace never leaves the screen as long as there is a place before the position. -/
theorem OnTape.row_pos (hv : 80 * n < v) (hcol : s.scrn_c = 0) : s.scrn_r.toNat ≠ 0 := by
  have hpos := hs.pos_eq
  have hzero : s.scrn_c.toNat = 0 := congrArg UInt8.toNat hcol
  omega

/-- The end of a row and the beginning of the next one are the same place of the tape. -/
theorem OnTape.row_before (hv : 80 * n < v) (hcol : s.scrn_c = 0) :
    OnTape color tape n v { s with scrn_r := s.scrn_r - 1, scrn_c := 80 } := by
  obtain ⟨hrow, -⟩ := hs.in_bounds
  have hpos := hs.pos_eq
  have hne := hs.row_pos hv hcol
  have hprev : (s.scrn_r - 1).toNat = s.scrn_r.toNat - 1 := byte_pred fun h => hne (congrArg UInt8.toNat h)
  have hzero : s.scrn_c.toNat = 0 := congrArg UInt8.toNat hcol
  refine ⟨⟨?_, Nat.le_refl 80⟩, ?_, hs.glyph, hs.below⟩
  · simp only [hprev]
    omega
  · simp only [Screen.pos, hprev, NUM_COLS]
    simp
    omega

/-- A backspace blanks the place before the position, in every column but the first. -/
theorem OnTape.backspace (hcol : s.scrn_c ≠ 0) :
    OnTape color (Function.update tape (v - 1) (0x20, color)) n (v - 1) (s.putc color 8) := by
  obtain ⟨hrow, hcol80⟩ := hs.in_bounds
  have hpos := hs.pos_eq
  have hne : s.scrn_c.toNat ≠ 0 := fun h => hcol (UInt8.toNat_inj.mp h)
  have hprev := byte_pred hcol
  have hputc : s.putc color 8 = (Screen.put { s with scrn_c := s.scrn_c - 1 } 0x20 color).sync := by
    rw [Screen.putc, if_neg (by decide), if_pos rfl, if_neg hcol]
  have hcol' : (s.scrn_c - 1).toNat < 80 := by omega
  have hplaced : OnTape color tape n (v - 1) { s with scrn_c := s.scrn_c - 1 } := by
    refine ⟨⟨hrow, by simp only [hprev]; omega⟩, ?_, hs.glyph, hs.below⟩
    simp only [Screen.pos, hprev, NUM_COLS]
    omega
  rw [hputc]
  refine OnTape.sync ⟨?_, ?_, fun q hq => ?_, fun q hq => ?_⟩
  · simp only [Screen.InBounds, Screen.put_pos]
    exact hplaced.in_bounds
  · simp only [Screen.pos, Screen.put_pos]
    exact hplaced.pos
  · rw [Screen.glyph_put color { s with scrn_c := s.scrn_c - 1 } hrow hcol', Function.update_apply]
    refine if_congr ?_ rfl (hs.glyph q hq)
    simp only [hprev]
    omega
  · rw [Function.update_apply, hs.below q hq, ite_self]

/-- Backspace blanks the place before the position and goes back to it. -/
theorem OnTape.erase (hv : 80 * n < v) :
    OnTape color (Function.update tape (v - 1) (0x20, color)) n (v - 1) (s.erase color) := by
  rw [Screen.erase]
  split
  · rename_i hcol
    exact (hs.row_before hv hcol).backspace (show (80 : UInt8) ≠ 0 by decide)
  · rename_i hcol
    exact hs.backspace hcol

end OnTape

end lacos.lib
