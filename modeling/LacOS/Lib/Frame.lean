import LacOS.Lib.Printf

open memory

namespace lacos

/-- A terminal with other keyboard and cursor positions. -/
def term_t.atPos (term : term_t) (scrn_r scrn_c curs_r curs_c : UInt8) : term_t :=
  { term with scrn_r := scrn_r, scrn_c := scrn_c, curs_r := curs_r, curs_c := curs_c }

namespace lib

/-- Printing: besides video memory and the VGA registers, only the positions of
    terminals change. -/
structure Prints (con con' : Console) : Prop where
  terminals : ∀ t, ∃ scrn_r scrn_c curs_r curs_c,
    con'.terminals t = (con.terminals t).atPos scrn_r scrn_c curs_r curs_c
  around : con'.around = con.around
  vis_term_id : con'.vis_term_id = con.vis_term_id
  sched_term_id : con'.sched_term_id = con.sched_term_id
  color : con'.color = con.color

theorem Prints.refl (con : Console) : Prints con con where
  terminals _ := ⟨_, _, _, _, rfl⟩
  around := rfl
  vis_term_id := rfl
  sched_term_id := rfl
  color := rfl

/-- Printing twice is printing, so that every function that only prints is one step of it. -/
theorem Prints.trans {con con' con'' : Console} (h : Prints con con') (h' : Prints con' con'') : Prints con con'' where
  terminals t := by
    obtain ⟨_, _, _, _, ht⟩ := h.terminals t
    obtain ⟨scrn_r, scrn_c, curs_r, curs_c, ht'⟩ := h'.terminals t
    exact ⟨scrn_r, scrn_c, curs_r, curs_c, by rw [ht', ht]; rfl⟩
  around := h'.around.trans h.around
  vis_term_id := h'.vis_term_id.trans h.vis_term_id
  sched_term_id := h'.sched_term_id.trans h.sched_term_id
  color := h'.color.trans h.color

theorem prints_set_pos (con : Console) (t : Fin MAX_TERM_NUM) (scrn_r scrn_c curs_r curs_c : UInt8) :
    Prints con (con.setTerm t ((con.terminals t).atPos scrn_r scrn_c curs_r curs_c)) where
  terminals u := by
    by_cases hu : u = t
    · subst hu
      exact ⟨scrn_r, scrn_c, curs_r, curs_c, Console.setTerm_same _ _ _⟩
    · exact ⟨_, _, _, _, Console.setTerm_other _ _ _ hu⟩
  around := rfl
  vis_term_id := rfl
  sched_term_id := rfl
  color := rfl

/-- Editing a terminal in a way that has nothing to do with its positions. -/
theorem Prints.setTerm {con con' : Console} (hprints : Prints con con') (t : Fin MAX_TERM_NUM) (f : term_t → term_t)
    (hf : ∀ term scrn_r scrn_c curs_r curs_c,
      f (term.atPos scrn_r scrn_c curs_r curs_c) = (f term).atPos scrn_r scrn_c curs_r curs_c) :
    Prints (con.setTerm t (f (con.terminals t))) (con'.setTerm t (f (con'.terminals t))) where
  terminals u := by
    obtain ⟨scrn_r, scrn_c, curs_r, curs_c, hu⟩ := hprints.terminals u
    refine ⟨scrn_r, scrn_c, curs_r, curs_c, ?_⟩
    by_cases hut : u = t
    · rw [← hut, Console.setTerm_same, Console.setTerm_same, hu, hf]
    · rw [Console.setTerm_other _ _ _ hut, Console.setTerm_other _ _ _ hut, hu]
  around := hprints.around
  vis_term_id := hprints.vis_term_id
  sched_term_id := hprints.sched_term_id
  color := hprints.color

/-- A write to a port reaches the registers of the screen at most. -/
theorem prints_outb (con : Console) (data : UInt8) (port : UInt16) : Prints con (outb con data port) := by
  unfold outb
  split
  · exact ⟨fun _ => ⟨_, _, _, _, rfl⟩, rfl, rfl, rfl, rfl⟩
  · split
    · exact ⟨fun _ => ⟨_, _, _, _, rfl⟩, rfl, rfl, rfl, rfl⟩
    · exact Prints.refl con

theorem prints_video (con : Console) (video : Mem) : Prints con { con with video } :=
  ⟨fun _ => ⟨_, _, _, _, rfl⟩, rfl, rfl, rfl, rfl⟩

theorem prints_set_keyboard_pos (con : Console) (t : Fin MAX_TERM_NUM) (row col : Nat) :
    Prints con (set_keyboard_pos con t row col) :=
  prints_set_pos con t _ _ _ _

theorem prints_set_cursor_pos (con : Console) (t : Fin MAX_TERM_NUM) (row col : Nat) :
    Prints con (set_cursor_pos con t row col) := by
  have hpos := prints_set_pos con t (con.terminals t).scrn_r (con.terminals t).scrn_c (UInt8.ofNat row)
    (UInt8.ofNat col)
  simp only [set_cursor_pos]
  split
  · exact hpos.trans ((prints_outb _ _ _).trans ((prints_outb _ _ _).trans
      ((prints_outb _ _ _).trans (prints_outb _ _ _))))
  · exact hpos

/-- Scrolling only prints, also if it moves the position up. -/
theorem prints_scroll (con : Console) (t : Fin MAX_TERM_NUM) : Prints con (scroll con t) := by
  simp only [scroll]
  split
  · exact (prints_video con _).trans (prints_set_pos _ t _ _ _ _)
  · exact Prints.refl con

theorem prints_syncPos (con : Console) (t : Fin MAX_TERM_NUM) : Prints con (syncPos con t) :=
  (prints_set_cursor_pos con t _ _).trans (prints_set_keyboard_pos _ t _ _)

/-- `putc` moves positions and nothing else, wherever the position is. -/
theorem prints_putc (con : Console) (t : Fin MAX_TERM_NUM) (c : UInt8) : Prints con (putc con t c) := by
  simp only [putc]
  split
  · exact (prints_set_pos con t _ _ _ _).trans ((prints_scroll _ t).trans (prints_syncPos _ t))
  · split
    · split
      · exact Prints.refl con
      · exact (prints_set_pos con t _ _ _ _).trans ((prints_video _ _).trans (prints_syncPos _ t))
    · exact (prints_set_pos con t _ _ _ _).trans ((prints_scroll _ t).trans ((prints_video _ _).trans
        ((prints_set_pos _ t _ _ _ _).trans (prints_syncPos _ t))))

/-- A string is printed character by character. By induction on it. -/
theorem prints_puts (con : Console) (t : Fin MAX_TERM_NUM) (s : List UInt8) : Prints con (puts con t s) := by
  induction s generalizing con with
  | nil => exact Prints.refl con
  | cons c s ih => exact (prints_putc con t c).trans (ih _)

theorem prints_printText (con : Console) (text : List UInt8) : Prints con (printText con text) :=
  prints_puts con con.sched_term_id text

theorem prints_putc_color (con : Console) (t : Fin MAX_TERM_NUM) (c fg bg : UInt8) :
    Prints con (putc_color con t c fg bg) := by
  simp only [putc_color]
  split
  · exact (prints_set_pos con t _ _ _ _).trans ((prints_scroll _ t).trans (prints_syncPos _ t))
  · exact (prints_set_pos con t _ _ _ _).trans ((prints_scroll _ t).trans ((prints_video _ _).trans
      ((prints_set_pos _ t _ _ _ _).trans (prints_syncPos _ t))))

theorem prints_puts_color (con : Console) (t : Fin MAX_TERM_NUM) (s : List UInt8) (fg bg : UInt8) :
    Prints con (puts_color con t s fg bg) := by
  induction s generalizing con with
  | nil => exact Prints.refl con
  | cons c s ih => exact (prints_putc_color con con.sched_term_id c fg bg).trans (ih _)

/-- Clearing prints blanks and moves the position of the visible terminal. -/
theorem prints_clear_screen (con : Console) : Prints con (clear_screen con) :=
  (prints_video con _).trans ((prints_set_keyboard_pos _ _ 0 0).trans (prints_set_cursor_pos _ _ 0 0))

end lib

end lacos
