import LacOS.Keyboard.Navigation

open memory lacos.lib

namespace lacos.keyboard

section Press

theorem zero_lt_size : (0 : UInt32).toNat < KEY_BUF_SIZE := by decide

variable {term : term_t} (hterm : Ordered term)
include hterm

/-- Clearing the current command does not touch the history. -/
theorem Ordered.clearCommand : Ordered (clearCommand term) := hterm.edit rfl rfl hterm.cur_le zero_lt_size

theorem Ordered.clearLine : Ordered (clearLine term) := by
  refine hterm.edit (clearLine_hist_buf term) (clearLine_hist_buf_index term) ?_ ?_
  · rw [clearLine_cur_hist_index]
    exact hterm.cur_le
  · rw [clearLine_key_buf_index]
    exact zero_lt_size

/-- Recalling moves to an entry, or to the next one, and changes none. -/
theorem Ordered.recalled {e : Nat} (he : e ≤ term.hist_buf_index.toNat) : Ordered (recalled term e) := by
  have hhist := hterm.hist_le
  have hlength := hterm.command_length_lt e
  refine hterm.edit (recalled_hist_buf term e) (recalled_hist_buf_index term e) ?_ ?_
  · rw [recalled_cur_hist_index, UInt32.toNat_ofNat_of_lt' (by simp only [UInt32.size]; omega)]
    exact he
  · rw [recalled_key_buf_index, UInt32.toNat_ofNat_of_lt' (Nat.lt_trans hlength (by decide))]
    exact hlength

/-- Up keeps the history in order, also at the first entry. -/
theorem Ordered.up : Ordered (up term) := by
  have hcur := hterm.cur_le
  rw [keyboard.up]
  split
  · exact hterm
  · exact hterm.clearCommand.recalled (by change _ ≤ term.hist_buf_index.toNat; omega)

/-- Down keeps the history in order, also behind the last entry. -/
theorem Ordered.down : Ordered (down term) := by
  rw [keyboard.down]
  split
  · rename_i hmore
    exact hterm.clearCommand.recalled (Nat.le_of_lt hmore)
  · exact hterm.clearCommand.edit rfl rfl (Nat.le_refl _) zero_lt_size

/-- No key puts the history out of order. -/
theorem Ordered.press (kbd : Keyboard) (c : UInt8) : Ordered (press kbd term c) := by
  have hindex := hterm.index_lt
  simp only [KEY_BUF_SIZE] at hindex
  rw [keyboard.press]
  by_cases hback : c = BACKSPACE_P
  · rw [if_pos hback]
    split
    · exact hterm
    · rename_i hempty
      refine hterm.edit rfl rfl hterm.cur_le ?_
      have hpos : term.key_buf_index.toNat ≠ 0 := fun h => hempty (UInt32.toNat_inj.mp h)
      change (term.key_buf_index - 1).toNat < KEY_BUF_SIZE
      rw [UInt32.toNat_sub_of_le _ _ (by rw [UInt32.le_iff_toNat_le, UInt32.toNat_one]; omega), UInt32.toNat_one]
      simp only [KEY_BUF_SIZE]
      omega
  rw [if_neg hback]
  by_cases henter : c = ENTER_KEY_P
  · rw [if_pos henter]
    exact hterm.edit rfl rfl hterm.cur_le zero_lt_size
  rw [if_neg henter]
  by_cases hclear : c = L_KEY_P ∧ kbd.ctrl = true
  · rw [if_pos hclear]
    exact hterm.clearLine
  rw [if_neg hclear]
  by_cases hup : c = UP_KEY_P
  · rw [if_pos hup]
    exact hterm.up
  rw [if_neg hup]
  by_cases hdown : c = DOWN_KEY_P
  · rw [if_pos hdown]
    exact hterm.down
  rw [if_neg hdown]
  split
  · exact hterm
  · rename_i hroom
    cases typed kbd c with
    | none => exact hterm
    | some ch =>
      refine hterm.edit rfl rfl hterm.cur_le ?_
      have hlt := hterm.index_lt
      rw [Option.elim_some, addChar_index _ _ hlt]
      omega

end Press

section Record

variable {term : term_t} {command : List UInt8}

/-- A recorded command is in the entry that was next. -/
theorem row_record (hroom : term.hist_buf_index.toNat < 10) (hnew : command ≠ [] ∧ ¬ Repeats term command)
    (hlength : command.length ≤ KEY_BUF_SIZE) (e : Nat) (j : Fin KEY_BUF_SIZE) :
    row (record term command) e j =
      if e = term.hist_buf_index.toNat ∧ j.val < command.length then command.getD j 0 else row term e j := by
  have hfull : ¬ term.hist_buf_index ≥ HIST_COM_NUM := by
    rw [ge_iff_le, UInt32.le_iff_toNat_le]
    exact Nat.not_le.mpr hroom
  have hj := j.isLt
  simp only [record, if_neg hfull, if_pos hnew, row]
  simp only [KEY_BUF_SIZE] at *
  by_cases hinside : 129 * e + j.val < 10 * 129
  · rw [dif_pos hinside, dif_pos hinside]
    by_cases hentry : e = term.hist_buf_index.toNat ∧ j.val < command.length
    · rw [if_pos hentry, if_pos (by omega), hentry.1, Nat.add_sub_cancel_left]
    · rw [if_neg hentry, if_neg (by omega)]
  · rw [dif_neg hinside, dif_neg hinside, if_neg (by omega)]

/-- Recording a command keeps the history in order. -/
theorem Ordered.record (hterm : Ordered term) (hnonzero : ∀ c ∈ command, c ≠ 0)
    (hlength : command.length < KEY_BUF_SIZE) : Ordered (record term command) := by
  by_cases hfull : term.hist_buf_index ≥ HIST_COM_NUM
  · rw [keyboard.record, if_pos hfull]
    exact hterm
  have hroom : term.hist_buf_index.toNat < 10 := by
    rw [ge_iff_le, UInt32.le_iff_toNat_le] at hfull
    exact Nat.not_le.mp hfull
  by_cases hnew : command ≠ [] ∧ ¬ Repeats term command
  · have hrow := row_record hroom hnew (Nat.le_of_lt hlength)
    have hpos := List.length_pos_iff.mpr hnew.1
    have hnext : (term.hist_buf_index + 1).toNat = term.hist_buf_index.toNat + 1 := by
      rw [UInt32.toNat_add, UInt32.toNat_one]
      omega
    have hhist : (keyboard.record term command).hist_buf_index = term.hist_buf_index + 1 := by
      rw [keyboard.record, if_neg hfull, if_pos hnew]
    have hcur : (keyboard.record term command).cur_hist_index = term.hist_buf_index + 1 := by
      rw [keyboard.record, if_neg hfull, if_pos hnew]
    refine ⟨?_, ?_, ?_, ?_, ?_, ?_⟩
    · rw [hcur, hhist]
    · rw [hhist, hnext]
      exact hroom
    · rw [record_key_buf_index]
      exact hterm.index_lt
    · intro e he
      rw [hhist, hnext] at he
      rw [hrow]
      split
      · rw [List.getD_eq_getElem?_getD, List.getElem?_eq_getElem hpos, Option.getD_some]
        exact hnonzero _ (List.getElem_mem hpos)
      · rename_i hother
        exact hterm.recorded e (by by_contra hnot; exact hother ⟨by omega, hpos⟩)
    · intro e he
      rw [hrow, if_neg fun h => absurd h.2 (Nat.not_lt.mpr (Nat.le_of_lt_succ hlength))]
      exact hterm.row_ended e
    · intro e j he
      rw [hhist, hnext] at he
      rw [hrow, if_neg (by omega)]
      exact hterm.unused e j (by omega)
  · rw [keyboard.record, if_neg hfull, if_neg hnew]
    exact hterm.edit rfl rfl (Nat.le_refl _) hterm.index_lt

end Record

end lacos.keyboard
