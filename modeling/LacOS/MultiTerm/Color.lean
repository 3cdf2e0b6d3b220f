import LacOS.Lib.Render
import LacOS.MultiTerm.Virtual

open memory layout lacos.lib

namespace lacos.multi_term

/-- Two screens with the same positions and the same characters. On the first one the marked
    places of a page, of which `gone` rows are no longer shown, have an attribute of their own. -/
structure Colored (attrib : UInt8) (gone : Nat) (marks : List (Nat × Nat)) (s s' : Screen) : Prop where
  scrn_r : s.scrn_r = s'.scrn_r
  scrn_c : s.scrn_c = s'.scrn_c
  curs_r : s.curs_r = s'.curs_r
  curs_c : s.curs_c = s'.curs_c
  glyph : ∀ i < NUM_ROWS, ∀ j < NUM_COLS, s.glyph (NUM_COLS * i + j) =
    ((s'.glyph (NUM_COLS * i + j)).1, if (i + gone, j) ∈ marks then attrib else (s'.glyph (NUM_COLS * i + j)).2)

/-- Before anything is printed the two screens are one. -/
theorem colored_refl (attrib : UInt8) (gone : Nat) (s : Screen) : Colored attrib gone [] s s :=
  ⟨rfl, rfl, rfl, rfl, fun _ _ _ _ => rfl⟩

section Step

variable {color attrib : UInt8} {gone : Nat} {marks : List (Nat × Nat)} {s s' : Screen}
  (hs : Colored attrib gone marks s s')
include hs

theorem Colored.sync : Colored attrib gone marks s.sync s'.sync :=
  ⟨hs.scrn_r, hs.scrn_c, hs.scrn_r, hs.scrn_c, hs.glyph⟩

variable (hrow : s'.scrn_r.toNat ≤ 24)
include hrow

/-- When both screens begin a new row, marks stay where they are on the page. A full screen loses
    one more row of it. -/
theorem Colored.nextRow (hmarks : ∀ q ∈ marks, q.1 ≤ s'.scrn_r.toNat + gone) :
    Colored attrib (if s'.scrn_r.toNat = 24 then gone + 1 else gone) marks (s.nextRow color)
      (s'.nextRow color) := by
  have hsame : s.scrn_r.toNat = s'.scrn_r.toNat := by rw [hs.scrn_r]
  refine ⟨?_, ?_, ?_, ?_, fun i hi j hj => ?_⟩
  · simp only [Screen.nextRow, Screen.scroll, hs.scrn_r]
    split <;> rfl
  · simp only [Screen.nextRow, Screen.scroll_col]
  · simp only [Screen.nextRow, Screen.scroll, hs.scrn_r, hs.curs_r]
    split <;> rfl
  · simp only [Screen.nextRow, Screen.scroll, hs.scrn_r, hs.curs_c]
    split <;> rfl
  · simp only [NUM_ROWS, NUM_COLS] at hi hj
    rw [Screen.glyph_nextRow color s (by omega) (by simp only [NUM_COLS]; omega),
      Screen.glyph_nextRow color s' hrow (by simp only [NUM_COLS]; omega), hsame]
    split
    · rename_i hlast
      split
      · rename_i hlt
        simp only [NUM_COLS] at hlt
        have hmark : i + (gone + 1) = i + 1 + gone := by omega
        rw [row_below, hs.glyph (i + 1) (by simp only [NUM_ROWS]; omega) j hj, hmark]
      · rename_i hge
        simp only [NUM_COLS] at hge
        -- The row that comes in at the bottom is below all marked places.
        have hblank : (i + (gone + 1), j) ∉ marks := by
          intro hmem
          have hle : i + (gone + 1) ≤ s'.scrn_r.toNat + gone := hmarks _ hmem
          omega
        rw [if_neg hblank]
    · exact hs.glyph i hi j hj

/-- A character printed on both screens gets the attribute on the first one, so its place is
    marked. -/
theorem Colored.print (hcol : s'.scrn_c.toNat < 80) (c : UInt8) :
    Colored attrib gone (marks ++ [(s'.scrn_r.toNat + gone, s'.scrn_c.toNat)]) (s.print attrib c)
      (s'.print color c) := by
  have hr : s.scrn_r.toNat = s'.scrn_r.toNat := by rw [hs.scrn_r]
  have hc : s.scrn_c.toNat = s'.scrn_c.toNat := by rw [hs.scrn_c]
  refine ⟨?_, ?_, ?_, ?_, fun i hi j hj => ?_⟩
  · simp only [Screen.print, Screen.put_pos, hs.scrn_r]
  · simp only [Screen.print, hs.scrn_c]
  · simp only [Screen.print, Screen.put, Screen.set_pos, hs.curs_r]
  · simp only [Screen.print, Screen.put, Screen.set_pos, hs.curs_c]
  · simp only [NUM_COLS] at hj
    rw [Screen.glyph_print attrib s (by omega) (by omega), Screen.glyph_print color s' hrow hcol, hr, hc]
    by_cases hhere : NUM_COLS * i + j = 80 * s'.scrn_r.toNat + s'.scrn_c.toNat
    · have hmark : (i + gone, j) ∈ marks ++ [(s'.scrn_r.toNat + gone, s'.scrn_c.toNat)] := by
        simp only [NUM_COLS] at hhere
        rw [List.mem_append, List.mem_singleton, Prod.mk.injEq]
        omega
      rw [if_pos hhere, if_pos hhere, if_pos hmark]
    · have hother : ¬ (i + gone = s'.scrn_r.toNat + gone ∧ j = s'.scrn_c.toNat) := by
        simp only [NUM_COLS] at hhere
        omega
      have hmark : (i + gone, j) ∈ marks ++ [(s'.scrn_r.toNat + gone, s'.scrn_c.toNat)] ↔ (i + gone, j) ∈ marks := by
        rw [List.mem_append, List.mem_singleton, Prod.mk.injEq]
        exact or_iff_left hother
      rw [if_neg hhere, if_neg hhere, hs.glyph i hi j hj, if_congr hmark rfl rfl]

end Step

/-- A screen whose last row is row `p.1` of the page, or that shows all rows up to it. -/
def ShowsTo (p : Nat × Nat) (s : Screen) : Prop :=
  s.scrn_r.toNat = min p.1 24 ∧ s.scrn_c.toNat = p.2

/-- The next row of the page is shown in the next row of the screen, or in the last one. -/
theorem ShowsTo.nextRow {p : Nat × Nat} {s : Screen} (hp : ShowsTo p s) (color : UInt8) :
    ShowsTo (p.1 + 1, 0) (s.nextRow color) := by
  obtain ⟨hrow, -⟩ := hp
  obtain ⟨hrow', hcol'⟩ := s.nextRow_pos color (by omega)
  refine ⟨?_, by rw [hcol']; rfl⟩
  simp only [hrow', hrow]
  omega

theorem ShowsTo.print {p : Nat × Nat} {s : Screen} (hp : ShowsTo p s) (hroom : p.2 < 80) (color c : UInt8) :
    ShowsTo (p.1, p.2 + 1) (s.print color c) := by
  obtain ⟨hrow, hcol⟩ := hp
  obtain ⟨hrow', hcol'⟩ := s.print_pos color (by omega) c
  exact ⟨by rw [hrow', hrow], by rw [hcol', hcol]⟩

theorem ShowsTo.sync {p : Nat × Nat} {s : Screen} (hp : ShowsTo p s) : ShowsTo p s.sync := hp

section Putc

variable {attrib : UInt8} {p : Nat × Nat} {marks : List (Nat × Nat)} {s s' : Screen}
  (hs : Colored attrib (p.1 - 24) marks s s') (hp : ShowsTo p s') (hmarks : ∀ q ∈ marks, q.1 ≤ p.1) (color : UInt8)
include hs hp

omit hs in
/-- The row on the screen and the rows that are gone make the row of the page. -/
theorem ShowsTo.row_add : s'.scrn_r.toNat + (p.1 - 24) = p.1 := by
  rw [hp.1]
  omega

/-- `Colored.print` in terms of the page: the place that is marked is the position on it. -/
theorem Colored.print_at (hroom : p.2 < 80) (c : UInt8) :
    Colored attrib (p.1 - 24) (marks ++ [p]) (s.print attrib c) (s'.print color c) := by
  have hprint := @Colored.print color attrib _ _ _ _ hs (by rw [hp.1]; omega) (by rw [hp.2]; exact hroom) c
  rwa [hp.row_add, hp.2] at hprint

include hmarks

/-- `Colored.nextRow` in terms of the page: no mark lies below the position. -/
theorem Colored.nextRow_at : Colored attrib (p.1 + 1 - 24) marks (s.nextRow color) (s'.nextRow color) := by
  have hgone : (if s'.scrn_r.toNat = 24 then p.1 - 24 + 1 else p.1 - 24) = p.1 + 1 - 24 := by
    rw [hp.1]
    split <;> omega
  rw [← hgone]
  exact hs.nextRow (by rw [hp.1]; omega) fun q hq => by
    rw [hp.row_add]
    exact hmarks q hq

/-- A character keeps two screens together, and marks the place it is written to. -/
theorem Colored.putc_color (hcol : p.2 ≤ 80) (c : UInt8) :
    Colored attrib ((advance isNewline NUM_COLS p c).1 - 24) (marks ++ place isNewline NUM_COLS p c)
        (s.putc_color color attrib c) (s'.putc_color color color c) ∧
      ShowsTo (advance isNewline NUM_COLS p c) (s'.putc_color color color c) := by
  have hrow : s'.scrn_r.toNat ≤ 24 := by
    rw [hp.1]
    omega
  rw [advance, place]
  by_cases hnewline : c = 10 ∨ c = 13
  · have hbreak : isNewline c = true := decide_eq_true hnewline
    rw [if_pos hbreak, if_pos hbreak, List.append_nil, Screen.putc_color_newline _ _ _ hnewline,
      Screen.putc_color_newline _ _ _ hnewline]
    exact ⟨(hs.nextRow_at hp hmarks color).sync, (hp.nextRow color).sync⟩
  · have hbreak : ¬ isNewline c = true := by rwa [isNewline, decide_eq_true_eq]
    rw [if_neg hbreak, if_neg hbreak]
    by_cases hroom : p.2 < NUM_COLS
    · rw [if_pos hroom, if_pos hroom, Screen.putc_color_same_row _ _ (by rwa [hs.scrn_r]) _
          (by rwa [hs.scrn_c, hp.2]) hnewline,
        Screen.putc_color_same_row _ _ hrow _ (by rwa [hp.2]) hnewline]
      exact ⟨(hs.print_at hp color hroom c).sync, (hp.print hroom color c).sync⟩
    · have hfull : s'.scrn_c.toNat = 80 := by
        rw [hp.2]
        simp only [NUM_COLS] at hroom
        omega
      rw [if_neg hroom, if_neg hroom, Screen.putc_color_wrap _ _ _ (by rwa [hs.scrn_c]) hnewline,
        Screen.putc_color_wrap _ _ _ hfull hnewline]
      have hnext := hp.nextRow color
      have hprint := @Colored.print_at attrib (p.1 + 1, 0) marks _ _ (hs.nextRow_at hp hmarks color) hnext color
        (Nat.succ_pos 79) c
      exact ⟨hprint.sync, (hnext.print (Nat.succ_pos 79) color c).sync⟩

end Putc

section Text

variable (color attrib : UInt8) {s : Screen} (hpos : s.InBounds) (text : List UInt8)
include hpos

/-- A text printed on a screen with an attribute of its own and with the current color. -/
theorem colored_shows_text :
    Colored attrib ((text.foldl (advance isNewline NUM_COLS) (s.scrn_r.toNat, s.scrn_c.toNat)).1 - 24)
        (places isNewline NUM_COLS (s.scrn_r.toNat, s.scrn_c.toNat) text)
        (text.foldl (Screen.putc_color color attrib) s) (text.foldl (Screen.putc_color color color) s) ∧
      ShowsTo (text.foldl (advance isNewline NUM_COLS) (s.scrn_r.toNat, s.scrn_c.toNat))
        (text.foldl (Screen.putc_color color color) s) ∧
      (text.foldl (advance isNewline NUM_COLS) (s.scrn_r.toNat, s.scrn_c.toNat)).2 ≤ 80 := by
  induction text using List.reverseRecOn with
  | nil =>
    have hgone : s.scrn_r.toNat - 24 = 0 := Nat.sub_eq_zero_of_le hpos.1
    refine ⟨?_, ⟨(Nat.min_eq_left hpos.1).symm, rfl⟩, hpos.2⟩
    rw [List.foldl_nil, hgone]
    exact colored_refl attrib 0 s
  | append_singleton text c ih =>
    obtain ⟨hs, hp, hcol⟩ := ih
    obtain ⟨hs', hp'⟩ := hs.putc_color hp (fun q hq => places_row_le _ _ hq) color hcol c
    simp only [List.foldl_append, List.foldl_cons, List.foldl_nil, places_snoc]
    exact ⟨hs', hp', advance_col_le isNewline (by decide) _ c⟩

end Text

/-- A text on one terminal, with its own attribute. -/
def tinted (con : Console) (t : Fin MAX_TERM_NUM) (text : List UInt8) (fg bg : UInt8) : Console :=
  text.foldl (fun con c => putc_color con t c fg bg) con

/-- `puts_color` prints on the scheduled terminal. -/
theorem puts_color_eq_tinted (con : Console) (t : Fin MAX_TERM_NUM) (text : List UInt8) (fg bg : UInt8) :
    puts_color con t text fg bg = tinted con con.sched_term_id text fg bg := by
  induction text generalizing con with
  | nil => rfl
  | cons c text ih =>
    have hsched := (prints_putc_color con con.sched_term_id c fg bg).sched_term_id
    have hrest := ih (putc_color con con.sched_term_id c fg bg)
    rw [hsched] at hrest
    exact hrest

/-- `puts` prints with the current color on the terminal it is given. -/
theorem puts_eq_tinted (con : Console) (t : Fin MAX_TERM_NUM) {text : List UInt8} (htext : 8 ∉ text) :
    puts con t text = tinted con t text con.color (con.color >>> 4) := by
  induction text generalizing con with
  | nil => rfl
  | cons c text ih =>
    have hback : c ≠ 8 := fun heq => htext (heq ▸ List.mem_cons_self)
    have hcolor := (prints_putc_color con t c con.color (con.color >>> 4)).color
    have hrest := ih (putc_color con t c con.color (con.color >>> 4)) fun hmem => htext (List.mem_cons_of_mem c hmem)
    rw [hcolor] at hrest
    rw [puts, List.foldl_cons, putc_eq_putc_color con t c hback]
    exact hrest

/-- A text changes the screen of its terminal only. -/
theorem screen_tinted {con : Console} (hpaged : Paged con) {t : Fin MAX_TERM_NUM} (hpos : (screen con t).InBounds)
    (text : List UInt8) (fg bg : UInt8) (u : Fin MAX_TERM_NUM) : screen (tinted con t text fg bg) u =
      if u = t then text.foldl (Screen.putc_color con.color ((bg <<< 4) ||| (fg &&& 0xF))) (screen con t)
      else screen con u := by
  induction text generalizing con with
  | nil =>
    split
    · rename_i hu
      rw [hu]
      rfl
    · rfl
  | cons c text ih =>
    have hstep := putc_color_eq con t c fg bg hpos
    have hown : screen (putc_color con t c fg bg) t =
        (screen con t).putc_color con.color ((bg <<< 4) ||| (fg &&& 0xF)) c := by
      rw [hstep, screen_showCursor, screen_install]
    have hcolor := (prints_putc_color con t c fg bg).color
    have hpaged' : Paged (putc_color con t c fg bg) := hstep ▸ hpaged.install t _
    have hpos' : (screen (putc_color con t c fg bg) t).InBounds := by
      rw [hown]
      exact Screen.putc_color_inBounds _ _ _ _ hpos
    have hrest := ih hpaged' hpos'
    rw [hown, hcolor] at hrest
    rw [tinted, List.foldl_cons, ← tinted, hrest, List.foldl_cons]
    split
    · rfl
    · rename_i hu
      rw [hstep, screen_showCursor, hpaged.screen_install_other t _ hu]

/-- The place at which a terminal prints next. -/
def position (con : Console) (t : Fin MAX_TERM_NUM) : Nat × Nat :=
  ((con.terminals t).scrn_r.toNat, (con.terminals t).scrn_c.toNat)

/-- The rows that a text scrolls away. -/
def scrolled (con : Console) (t : Fin MAX_TERM_NUM) (text : List UInt8) : Nat :=
  (text.foldl (advance isNewline NUM_COLS) (position con t)).1 - 24

/-- A place of the screen to which a character of a text has come and is still there. -/
def Received (con : Console) (t : Fin MAX_TERM_NUM) (text : List UInt8) (i j : Nat) : Prop :=
  (i + scrolled con t text, j) ∈ places isNewline NUM_COLS (position con t) text

instance (con : Console) (t : Fin MAX_TERM_NUM) (text : List UInt8) (i j : Nat) : Decidable (Received con t text i j) :=
  inferInstanceAs (Decidable (_ ∈ places isNewline NUM_COLS (position con t) text))

/-- `puts_color` does what `puts` does, and gives its attribute to the places that receive a
    character and to no other. -/
structure Agrees (con : Console) (t : Fin MAX_TERM_NUM) (text : List UInt8) (fg bg : UInt8) : Prop where
  scrn_r : ∀ u, (screen (puts_color con t text fg bg) u).scrn_r = (screen (puts con t text) u).scrn_r
  scrn_c : ∀ u, (screen (puts_color con t text fg bg) u).scrn_c = (screen (puts con t text) u).scrn_c
  curs_r : ∀ u, (screen (puts_color con t text fg bg) u).curs_r = (screen (puts con t text) u).curs_r
  curs_c : ∀ u, (screen (puts_color con t text fg bg) u).curs_c = (screen (puts con t text) u).curs_c
  glyph : ∀ u, ∀ i < NUM_ROWS, ∀ j < NUM_COLS,
    (screen (puts_color con t text fg bg) u).glyph (NUM_COLS * i + j) =
      (((screen (puts con t text) u).glyph (NUM_COLS * i + j)).1,
        if u = t ∧ Received con t text i j then (bg <<< 4) ||| (fg &&& 0xF)
        else ((screen (puts con t text) u).glyph (NUM_COLS * i + j)).2)

/-- A text printed on a terminal that leaves its screen as it was: the same positions, and at
    every place the same character with the same attribute. -/
structure Invisible (con : Console) (u : Fin MAX_TERM_NUM) (text : List UInt8) (fg bg : UInt8) : Prop where
  scrn_r : (screen (tinted con u text fg bg) u).scrn_r = (screen con u).scrn_r
  scrn_c : (screen (tinted con u text fg bg) u).scrn_c = (screen con u).scrn_c
  curs_r : (screen (tinted con u text fg bg) u).curs_r = (screen con u).curs_r
  curs_c : (screen (tinted con u text fg bg) u).curs_c = (screen con u).curs_c
  glyph : ∀ i < NUM_ROWS, ∀ j < NUM_COLS,
    (screen (tinted con u text fg bg) u).glyph (NUM_COLS * i + j) = (screen con u).glyph (NUM_COLS * i + j)

/-- How a text with a character in it can be invisible: printed at the last row, it scrolls
    the screen. A newline on a blank screen is one. -/
structure Coincidence (con : Console) (u : Fin MAX_TERM_NUM) (text : List UInt8) (fg bg : UInt8) : Prop
    extends Invisible con u text fg bg where
  last_row : (con.terminals u).scrn_r.toNat = 24
  scrolls : 0 < scrolled con u text

section Agreement

variable {con : Console} (hpaged : Paged con)
include hpaged

section Screens

variable {t : Fin MAX_TERM_NUM} (hpos : (screen con t).InBounds) {text : List UInt8}
include hpos

/-- A text with its own attribute beside the same text in the current color. -/
theorem colored_tinted (htext : 8 ∉ text) (fg bg : UInt8) :
    Colored ((bg <<< 4) ||| (fg &&& 0xF)) (scrolled con t text) (places isNewline NUM_COLS (position con t) text)
      (screen (tinted con t text fg bg) t) (screen (puts con t text) t) := by
  rw [puts_eq_tinted con t htext, screen_tinted hpaged hpos, screen_tinted hpaged hpos, if_pos rfl, if_pos rfl,
    color_halves]
  exact (colored_shows_text con.color _ hpos text).1

/-- A text changes the screen of its own terminal only. -/
theorem screen_tinted_other (fg bg : UInt8) {u : Fin MAX_TERM_NUM} (hu : u ≠ t) :
    screen (tinted con t text fg bg) u = screen con u := by
  rw [screen_tinted hpaged hpos, if_neg hu]

/-- So does a text in the color of the console. -/
theorem screen_puts_other (htext : 8 ∉ text) {u : Fin MAX_TERM_NUM} (hu : u ≠ t) :
    screen (puts con t text) u = screen con u := by
  rw [puts_eq_tinted con t htext, screen_tinted_other hpaged hpos _ _ hu]

/-- A text that is not empty moves the position on. It can only come back to where it was
    when it scrolls the screen at the last row. -/
theorem Invisible.coincidence {fg bg : UInt8} (hsame : Invisible con t text fg bg) (hne : text ≠ [])
    (htext : 8 ∉ text) : Coincidence con t text fg bg := by
  have hcolored := colored_tinted hpaged hpos htext fg bg
  have hshows := (colored_shows_text con.color con.color hpos text).2.1
  have hplain : screen (puts con t text) t = text.foldl (Screen.putc_color con.color con.color) (screen con t) := by
    rw [puts_eq_tinted con t htext, screen_tinted hpaged hpos, if_pos rfl, color_halves]
  rw [← hplain] at hshows
  have hrow : (screen (puts con t text) t).scrn_r = (screen con t).scrn_r := hcolored.scrn_r.symm.trans hsame.scrn_r
  have hcol : (screen (puts con t text) t).scrn_c = (screen con t).scrn_c := hcolored.scrn_c.symm.trans hsame.scrn_c
  obtain ⟨hrow', hcol'⟩ := hshows
  have hbound : (con.terminals t).scrn_r.toNat ≤ 24 := hpos.1
  have hmoved := foldl_advance_lt isNewline NUM_COLS (position con t) hne
  rw [hrow] at hrow'
  rw [hcol] at hcol'
  simp only [position, screen] at hrow' hcol' hmoved
  refine ⟨hsame, ?_, ?_⟩
  · omega
  · rw [scrolled, position]
    omega

end Screens

/-- On the scheduled terminal `puts_color` does what `puts` does, in its own attribute. The
    terminal need not be visible. -/
theorem agrees_scheduled (hpos : (screen con con.sched_term_id).InBounds) {text : List UInt8} (htext : 8 ∉ text)
    (fg bg : UInt8) : Agrees con con.sched_term_id text fg bg := by
  have hcolored (u : Fin MAX_TERM_NUM) : Colored ((bg <<< 4) ||| (fg &&& 0xF)) (scrolled con con.sched_term_id text)
      (if u = con.sched_term_id then places isNewline NUM_COLS (position con con.sched_term_id) text else [])
      (screen (puts_color con con.sched_term_id text fg bg) u) (screen (puts con con.sched_term_id text) u) := by
    rw [puts_color_eq_tinted]
    by_cases hu : u = con.sched_term_id
    · rw [if_pos hu, hu]
      exact colored_tinted hpaged hpos htext fg bg
    · rw [if_neg hu, screen_tinted_other hpaged hpos _ _ hu, screen_puts_other hpaged hpos htext hu]
      exact colored_refl _ _ _
  refine ⟨fun u => (hcolored u).scrn_r, fun u => (hcolored u).scrn_c, fun u => (hcolored u).curs_r,
    fun u => (hcolored u).curs_c, fun u i hi j hj => ?_⟩
  rw [(hcolored u).glyph i hi j hj]
  by_cases hu : u = con.sched_term_id
  · simp only [hu, true_and, if_true, Received]
  · simp only [hu, false_and, if_false, List.not_mem_nil]

section Other

variable (hpos : ∀ u, (screen con u).InBounds) {t : Fin MAX_TERM_NUM} (hother : t ≠ con.sched_term_id)
  {text : List UInt8} (htext : 8 ∉ text) {fg bg : UInt8}
include hpos hother htext

/-- On another terminal the colored text is missing, and on the scheduled one it is too much. -/
theorem invisible_of_agrees (hagrees : Agrees con t text fg bg) :
    Invisible con t text fg bg ∧ Invisible con con.sched_term_id text fg bg := by
  have hcolored := colored_tinted hpaged (hpos t) htext fg bg
  have hkept : screen (puts_color con t text fg bg) t = screen con t := by
    rw [puts_color_eq_tinted, screen_tinted_other hpaged (hpos _) _ _ hother]
  have hplain : screen (puts con t text) con.sched_term_id = screen con con.sched_term_id :=
    screen_puts_other hpaged (hpos t) htext hother.symm
  constructor
  · refine ⟨?_, ?_, ?_, ?_, fun i hi j hj => ?_⟩
    · rw [hcolored.scrn_r, ← hagrees.scrn_r, hkept]
    · rw [hcolored.scrn_c, ← hagrees.scrn_c, hkept]
    · rw [hcolored.curs_r, ← hagrees.curs_r, hkept]
    · rw [hcolored.curs_c, ← hagrees.curs_c, hkept]
    · have hglyph := hagrees.glyph t i hi j hj
      simp only [true_and, Received] at hglyph
      rw [hcolored.glyph i hi j hj, ← hglyph, hkept]
  · refine ⟨?_, ?_, ?_, ?_, fun i hi j hj => ?_⟩
    · rw [← puts_color_eq_tinted con t, hagrees.scrn_r, hplain]
    · rw [← puts_color_eq_tinted con t, hagrees.scrn_c, hplain]
    · rw [← puts_color_eq_tinted con t, hagrees.curs_r, hplain]
    · rw [← puts_color_eq_tinted con t, hagrees.curs_c, hplain]
    · rw [← puts_color_eq_tinted con t, hagrees.glyph _ i hi j hj, if_neg (fun h => hother h.1.symm), hplain]

/-- On another terminal the two agree only by not being seen, each on the terminal that it prints
    on. -/
theorem agrees_of_invisible (hown : Invisible con t text fg bg)
    (hsched : Invisible con con.sched_term_id text fg bg) : Agrees con t text fg bg := by
  have hcolored := colored_tinted hpaged (hpos t) htext fg bg
  -- Printed in the current color on its own terminal, in its own color on the scheduled one.
  have hview (u : Fin MAX_TERM_NUM) : Colored ((bg <<< 4) ||| (fg &&& 0xF)) (scrolled con t text)
      (if u = t then places isNewline NUM_COLS (position con t) text else [])
      (screen (puts_color con t text fg bg) u) (screen (puts con t text) u) := by
    rw [puts_color_eq_tinted]
    by_cases hu : u = t
    · rw [if_pos hu, hu, screen_tinted_other hpaged (hpos _) _ _ hother]
      exact ⟨hown.scrn_r.symm.trans hcolored.scrn_r, hown.scrn_c.symm.trans hcolored.scrn_c,
        hown.curs_r.symm.trans hcolored.curs_r, hown.curs_c.symm.trans hcolored.curs_c,
        fun i hi j hj => (hown.glyph i hi j hj).symm.trans (hcolored.glyph i hi j hj)⟩
    · rw [if_neg hu, screen_puts_other hpaged (hpos t) htext hu]
      by_cases hu' : u = con.sched_term_id
      · rw [hu']
        exact ⟨hsched.scrn_r, hsched.scrn_c, hsched.curs_r, hsched.curs_c, hsched.glyph⟩
      · rw [screen_tinted_other hpaged (hpos _) _ _ hu']
        exact colored_refl _ _ _
  refine ⟨fun u => (hview u).scrn_r, fun u => (hview u).scrn_c, fun u => (hview u).curs_r,
    fun u => (hview u).curs_c, fun u i hi j hj => ?_⟩
  rw [(hview u).glyph i hi j hj]
  by_cases hu : u = t
  · simp only [hu, true_and, if_true, Received]
  · simp only [hu, false_and, if_false, List.not_mem_nil]

end Other

end Agreement

end lacos.multi_term
