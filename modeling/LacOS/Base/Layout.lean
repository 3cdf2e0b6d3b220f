import Mathlib.Data.List.Induction
import LacOS.Base.Memory

open memory

namespace layout

variable {α : Type*}

/-- A line in rows of `w` elements. A new row starts only where a further element follows a
    full one; an empty line is one empty row. -/
def breakLine (w : Nat) (line : List α) : List (List α) :=
  (List.range ((line.length - 1) / w + 1)).map fun r => (line.drop (w * r)).take w

/-- The rows of a text, whose lines end at the elements that are `newline`. -/
def rows (newline : α → Bool) (w : Nat) (s : List α) : List (List α) :=
  (s.splitOnP newline).flatMap (breakLine w)

/-- What a window of `h` rows shows at row `i` and column `j`: the last `h` rows of the text,
    filled up with blanks. -/
def shown (blank : α) (h : Nat) (text : List (List α)) (i j : Nat) : α :=
  ((text.drop (text.length - h)).getD i []).getD j blank

/-- A line written from `p` on. Of the places behind it, those before `p + m` have been used
    and blanked again, and the others are as they were. -/
def edited (blank : α) (p m : Nat) (under : Nat → α) (line : List α) (v : Nat) : α :=
  if p ≤ v ∧ v < p + m then line.getD (v - p) blank else under v

/-- The row and the column behind an element written at `p`, on a page of any length. A full
    row is left only for a further element. -/
def advance (newline : α → Bool) (w : Nat) (p : Nat × Nat) (c : α) : Nat × Nat :=
  if newline c then (p.1 + 1, 0) else if p.2 < w then (p.1, p.2 + 1) else (p.1 + 1, 1)

/-- The place where an element is written at `p`. -/
def place (newline : α → Bool) (w : Nat) (p : Nat × Nat) (c : α) : List (Nat × Nat) :=
  if newline c then [] else if p.2 < w then [p] else [(p.1 + 1, 0)]

/-- The places that the elements of a text are written to from `p` on. -/
def places (newline : α → Bool) (w : Nat) : Nat × Nat → List α → List (Nat × Nat)
  | _, [] => []
  | p, c :: s => place newline w p c ++ places newline w (advance newline w p c) s

section Rows

variable {w : Nat} (hw : 0 < w)

theorem breakLine_nil : breakLine w ([] : List α) = [[]] := by
  simp [breakLine]

include hw

/-- All rows but the last one of a line are full. -/
theorem breakLine_eq {line : List α} {q : Nat} (hq : (line.length - 1) / w = q) :
    breakLine w line = (List.range q).map (fun r => (line.drop (w * r)).take w) ++ [line.drop (w * q)] := by
  have hrest : line.length - w * q ≤ w := by
    have hdiv := Nat.div_add_mod (line.length - 1) w
    have hmod := Nat.mod_lt (line.length - 1) hw
    rw [hq] at hdiv
    omega
  rw [breakLine, hq, List.range_succ, List.map_append, List.map_singleton,
    List.take_of_length_le (by rwa [List.length_drop])]

/-- A further element goes to the last row of a line, if that is not full. -/
theorem breakLine_snoc (line : List α) (c : α) :
    ∃ init last, breakLine w line = init ++ [last] ∧ last.length ≤ w ∧
      breakLine w (line ++ [c]) = if last.length < w then init ++ [last ++ [c]] else init ++ [last, [c]] := by
  obtain ⟨q, hq⟩ : ∃ q, (line.length - 1) / w = q := ⟨_, rfl⟩
  have hdiv := Nat.div_add_mod (line.length - 1) w
  have hmod := Nat.mod_lt (line.length - 1) hw
  rw [hq] at hdiv
  refine ⟨_, _, breakLine_eq hw hq, ?_, ?_⟩
  · rw [List.length_drop]
    omega
  -- The rows before the last one are the same, since the line reaches beyond them.
  have hinit : (List.range q).map (fun r => ((line ++ [c]).drop (w * r)).take w) =
      (List.range q).map (fun r => (line.drop (w * r)).take w) := by
    apply List.map_congr_left
    intro r hr
    have hle : w * r + w ≤ w * q := by
      rw [← Nat.mul_succ]
      exact Nat.mul_le_mul_left w (List.mem_range.mp hr)
    rw [List.drop_append_of_le_length (by omega), List.take_append_of_le_length (by rw [List.length_drop]; omega)]
  rw [List.length_drop]
  split
  · rename_i hroom
    have hq' : ((line ++ [c]).length - 1) / w = q := by
      rw [List.length_append, List.length_singleton, Nat.add_sub_cancel]
      exact Nat.div_eq_of_lt_le (by rw [Nat.mul_comm]; omega) (by rw [Nat.mul_comm, Nat.mul_succ]; omega)
    rw [breakLine_eq hw hq', hinit, List.drop_append_of_le_length (by omega)]
  · rename_i hfull
    have hlength : line.length = w * (q + 1) := by
      rw [Nat.mul_succ]
      omega
    have hq' : ((line ++ [c]).length - 1) / w = q + 1 := by
      rw [List.length_append, List.length_singleton, Nat.add_sub_cancel, hlength, Nat.mul_div_cancel_left _ hw]
    rw [breakLine_eq hw hq', List.range_succ, List.map_append, hinit, List.map_singleton, ← hlength,
      List.drop_left, List.drop_append_of_le_length (by omega),
      List.take_append_of_le_length (by rw [List.length_drop]; omega),
      List.take_of_length_le (by rw [List.length_drop]; omega), List.append_assoc]
    rfl

omit hw in
/-- An element that is no newline goes to the end of the last line. -/
theorem splitOnP_snoc {newline : α → Bool} (s : List α) {c : α} (hc : newline c = false) :
    ∃ init last, s.splitOnP newline = init ++ [last] ∧
      (s ++ [c]).splitOnP newline = init ++ [last ++ [c]] := by
  induction s with
  | nil =>
    refine ⟨[], [], List.splitOnP_nil, ?_⟩
    rw [List.nil_append, List.splitOnP_cons_eq_if_modifyHead, hc, List.splitOnP_nil]
    rfl
  | cons x s ih =>
    obtain ⟨init, last, hsplit, hsnoc⟩ := ih
    rw [List.cons_append, List.splitOnP_cons_eq_if_modifyHead, List.splitOnP_cons_eq_if_modifyHead, hsplit, hsnoc]
    cases hx : newline x with
    | true => exact ⟨[] :: init, last, rfl, rfl⟩
    | false =>
      cases init with
      | nil => exact ⟨[], x :: last, rfl, rfl⟩
      | cons first init => exact ⟨(x :: first) :: init, last, rfl, rfl⟩

/-- The rows of a text that grows by one element: a newline starts a new row, any other goes
    to the last row or, if that is full, to a new one. -/
theorem rows_snoc (newline : α → Bool) (s : List α) (c : α) :
    ∃ init last, rows newline w s = init ++ [last] ∧ last.length ≤ w ∧ rows newline w (s ++ [c]) =
      if newline c then init ++ [last, []]
      else if last.length < w then init ++ [last ++ [c]]
      else init ++ [last, [c]] := by
  cases hc : newline c with
  | false =>
    obtain ⟨lines, line, hsplit, hsnoc⟩ := splitOnP_snoc s hc
    obtain ⟨init, last, hline, hlength, hbreak⟩ := breakLine_snoc hw line c
    refine ⟨lines.flatMap (breakLine w) ++ init, last, ?_, hlength, ?_⟩
    · rw [rows, hsplit, List.flatMap_append, List.flatMap_singleton, hline, List.append_assoc]
    · rw [rows, hsnoc, List.flatMap_append, List.flatMap_singleton, hbreak, if_neg Bool.false_ne_true]
      split
      · rw [List.append_assoc]
      · rw [List.append_assoc]
  | true =>
    obtain ⟨lines, line, hsplit⟩ : ∃ init last, s.splitOnP newline = init ++ [last] :=
      ⟨_, _, (List.dropLast_concat_getLast (List.splitOnP_ne_nil _ s)).symm⟩
    obtain ⟨init, last, hline, hlength, -⟩ := breakLine_snoc hw line c
    have hrows : rows newline w s = lines.flatMap (breakLine w) ++ init ++ [last] := by
      rw [rows, hsplit, List.flatMap_append, List.flatMap_singleton, hline, List.append_assoc]
    refine ⟨lines.flatMap (breakLine w) ++ init, last, hrows, hlength, ?_⟩
    rw [if_pos rfl, rows, List.splitOnP_append_cons s [] hc, List.flatMap_append, ← rows, hrows, List.splitOnP_nil,
      List.flatMap_singleton, breakLine_nil, List.append_assoc]
    rfl

omit hw in
theorem rows_nil (newline : α → Bool) : rows newline w [] = [[]] := by
  rw [rows, List.splitOnP_nil, List.flatMap_singleton, breakLine_nil]

end Rows

section Shown

variable (blank : α) {h : Nat} (text : List (List α)) (i j : Nat)

/-- The window shows the last rows, counted from the first one that is still in it. -/
theorem shown_eq : shown blank h text i j = (text.getD (text.length - h + i) []).getD j blank := by
  have hrow : (text.drop (text.length - h)).getD i [] = text.getD (text.length - h + i) [] := by
    rw [List.getD_eq_getElem?_getD, List.getElem?_drop, ← List.getD_eq_getElem?_getD]
  rw [shown, hrow]

/-- There is nothing below the window. -/
theorem shown_below (hi : h ≤ i) : shown blank h text i j = blank := by
  rw [shown_eq, List.getD_eq_default text _ (by omega)]
  rfl

/-- A new row in a window that is not full is one of its blank rows. -/
theorem shown_new_row (hroom : text.length < h) : shown blank h (text ++ [[]]) i j = shown blank h text i j := by
  have hstart : (text ++ [[]]).length - h = text.length - h := by
    rw [List.length_append, List.length_singleton]
    omega
  rw [shown_eq, shown_eq, hstart, getD_append_default]

/-- A new row in a full window moves all rows up by one. -/
theorem shown_scrolled (hfull : h ≤ text.length) :
    shown blank h (text ++ [[]]) i j = shown blank h text (i + 1) j := by
  have hstart : (text ++ [[]]).length - h + i = text.length - h + (i + 1) := by
    rw [List.length_append, List.length_singleton]
    omega
  rw [shown_eq, shown_eq, hstart, getD_append_default]

/-- A further element of the last row shows at the end of that row, and nowhere else. -/
theorem shown_put (hh : 0 < h) (init : List (List α)) (last : List α) (c : α) :
    shown blank h (init ++ [last ++ [c]]) i j =
      if i = min (init.length + 1) h - 1 ∧ j = last.length then c else shown blank h (init ++ [last]) i j := by
  have hlength (row : List α) : (init ++ [row]).length = init.length + 1 := by
    rw [List.length_append, List.length_singleton]
  rw [shown_eq, shown_eq, hlength, hlength, getD_snoc, getD_snoc]
  by_cases hlast : init.length + 1 - h + i = init.length
  · have hi : i = min (init.length + 1) h - 1 := by omega
    rw [if_pos hlast, if_pos hlast, getD_snoc]
    by_cases hj : j = last.length
    · rw [if_pos hj, if_pos ⟨hi, hj⟩]
    · rw [if_neg hj, if_neg (fun hboth => hj hboth.2)]
  · have hi : ¬ (i = min (init.length + 1) h - 1 ∧ j = last.length) := by omega
    rw [if_neg hlast, if_neg hlast, if_neg hi]

end Shown

section Edited

variable (blank : α) (p : Nat) {m : Nat} (under : Nat → α) (line : List α) (c : α)

/-- A line that has used no place shows what was there before. -/
theorem edited_unused : edited blank p 0 under line = under := by
  funext v
  exact if_neg (by omega)

/-- Typing at the end of the line writes one place, the first one behind it. -/
theorem edited_snoc (hm : line.length ≤ m) : edited blank p (max m (line.length + 1)) under (line ++ [c]) =
    Function.update (edited blank p m under line) (p + line.length) c := by
  funext v
  rw [Function.update_apply, edited, edited, getD_snoc]
  by_cases hlast : v = p + line.length
  · rw [if_pos (by omega), if_pos (by omega), if_pos hlast]
  · rw [if_neg hlast]
    by_cases hused : p ≤ v ∧ v < p + max m (line.length + 1)
    · rw [if_pos hused, if_neg (by omega), if_pos (by omega)]
    · rw [if_neg hused, if_neg (by omega)]

/-- Erasing at the end of the line blanks one place, which stays used. -/
theorem edited_erase (hm : line.length < m) : edited blank p m under line =
    Function.update (edited blank p m under (line ++ [c])) (p + line.length) blank := by
  funext v
  rw [Function.update_apply, edited, edited, getD_snoc]
  by_cases hlast : v = p + line.length
  · rw [if_pos (by omega), if_pos hlast, List.getD_eq_default _ _ (by omega)]
  · rw [if_neg hlast]
    by_cases hused : p ≤ v ∧ v < p + m
    · rw [if_pos hused, if_pos hused, if_neg (by omega)]
    · rw [if_neg hused, if_neg hused]

end Edited

section Places

variable (newline : α → Bool) (w : Nat)

/-- The last element of a text is written where the elements before it have led. -/
theorem places_snoc (p : Nat × Nat) (s : List α) (c : α) :
    places newline w p (s ++ [c]) = places newline w p s ++ place newline w (s.foldl (advance newline w) p) c := by
  induction s generalizing p with
  | nil => rw [List.nil_append, places, places, places, List.append_nil, List.foldl_nil, List.nil_append]
  | cons x s ih => rw [List.cons_append, places, ih, places, List.append_assoc, List.foldl_cons]

/-- The position never goes up. -/
theorem advance_row_le (p : Nat × Nat) (c : α) : p.1 ≤ (advance newline w p c).1 := by
  rw [advance]
  split
  · exact Nat.le_succ _
  · split
    · exact Nat.le_refl _
    · exact Nat.le_succ _

/-- An element is written no lower than the row the position is in afterwards. -/
theorem place_row_le {p q : Nat × Nat} {c : α} (hq : q ∈ place newline w p c) :
    q.1 ≤ (advance newline w p c).1 := by
  rw [place] at hq
  rw [advance]
  split at hq
  · exact absurd hq List.not_mem_nil
  · rename_i hnewline
    rw [if_neg hnewline]
    split at hq
    · rename_i hroom
      simp only [if_pos hroom, List.mem_singleton.mp hq, Nat.le_refl]
    · rename_i hfull
      simp only [if_neg hfull, List.mem_singleton.mp hq, Nat.le_refl]

/-- A text never goes back to a row above. -/
theorem places_row_le {p q : Nat × Nat} {s : List α} (hq : q ∈ places newline w p s) :
    q.1 ≤ (s.foldl (advance newline w) p).1 := by
  induction s using List.reverseRecOn with
  | nil => exact absurd hq List.not_mem_nil
  | append_singleton s c ih =>
    rw [places_snoc, List.mem_append] at hq
    rw [List.foldl_append, List.foldl_cons, List.foldl_nil]
    rcases hq with hq | hq
    · exact Nat.le_trans (ih hq) (advance_row_le newline w _ c)
    · exact place_row_le newline w hq

/-- Every element moves the place on, along its row or to the next one. -/
theorem advance_lt (p : Nat × Nat) (c : α) :
    p.1 < (advance newline w p c).1 ∨ p.1 = (advance newline w p c).1 ∧ p.2 < (advance newline w p c).2 := by
  rw [advance]
  split
  · exact .inl (Nat.lt_succ_self _)
  · split
    · exact .inr ⟨rfl, Nat.lt_succ_self _⟩
    · exact .inl (Nat.lt_succ_self _)

/-- Any text but the empty one moves the position on, in reading order. -/
theorem foldl_advance_lt (p : Nat × Nat) {s : List α} (hs : s ≠ []) :
    p.1 < (s.foldl (advance newline w) p).1 ∨
      p.1 = (s.foldl (advance newline w) p).1 ∧ p.2 < (s.foldl (advance newline w) p).2 := by
  induction s using List.reverseRecOn with
  | nil => exact absurd rfl hs
  | append_singleton s c ih =>
    rw [List.foldl_append, List.foldl_cons, List.foldl_nil]
    have hlast := advance_lt newline w (s.foldl (advance newline w) p) c
    by_cases hempty : s = []
    · rwa [hempty] at hlast ⊢
    · have hbefore := ih hempty
      omega

variable {w}

/-- The position may stand behind the last column, but no further. -/
theorem advance_col_le (hw : 0 < w) (p : Nat × Nat) (c : α) : (advance newline w p c).2 ≤ w := by
  rw [advance]
  split
  · exact Nat.zero_le w
  · split
    · assumption
    · exact hw

end Places

end layout
