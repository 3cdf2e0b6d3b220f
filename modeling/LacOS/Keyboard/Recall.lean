import LacOS.Keyboard.History

open memory lacos.lib

namespace lacos.keyboard

/-- Entry `e` of the history. -/
def row (term : term_t) (e : Nat) (j : Fin KEY_BUF_SIZE) : UInt8 :=
  if h : KEY_BUF_SIZE * e + j.val < 10 * KEY_BUF_SIZE then term.hist_buf ⟨KEY_BUF_SIZE * e + j.val, h⟩ else 0

/-- The command in entry `e` of the history, as it reads in the key buffer. -/
def command (term : term_t) (e : Nat) : List UInt8 := line { term with key_buf := row term e }

/-- How much of the key buffer is cleared with the current command: the characters
    typed, or the line if none has been typed since it was completed. -/
def extent (term : term_t) : Nat :=
  if term.key_buf_index = 0 then (line term).length else term.key_buf_index.toNat

/-- The terminal with its current command cleared. -/
def clearCommand (term : term_t) : term_t :=
  { term with
    key_buf := fun i => if i.val < extent term then 0 else term.key_buf i
    key_buf_index := 0 }

/-- The terminal with a command of its history in place of the current one. -/
def recalled (term : term_t) (e : Nat) : term_t :=
  { term with
    key_buf := fun i => if i.val < (command term e).length then row term e i else term.key_buf i
    key_buf_index := UInt32.ofNat (command term e).length
    cur_hist_index := UInt32.ofNat e }

@[simp] theorem clearCommand_key_buf_index (term : term_t) : (clearCommand term).key_buf_index = 0 := rfl

@[simp] theorem clearCommand_hist_buf (term : term_t) : (clearCommand term).hist_buf = term.hist_buf := rfl

@[simp] theorem clearCommand_hist_buf_index (term : term_t) :
    (clearCommand term).hist_buf_index = term.hist_buf_index := rfl

@[simp] theorem recalled_key_buf (term : term_t) (e : Nat) (i : Fin KEY_BUF_SIZE) : (recalled term e).key_buf i =
    if i.val < (command term e).length then row term e i else term.key_buf i := by
  rw [recalled]

@[simp] theorem recalled_key_buf_index (term : term_t) (e : Nat) :
    (recalled term e).key_buf_index = UInt32.ofNat (command term e).length := by
  rw [recalled]

@[simp] theorem recalled_hist_buf (term : term_t) (e : Nat) : (recalled term e).hist_buf = term.hist_buf := by
  rw [recalled]

@[simp] theorem recalled_hist_buf_index (term : term_t) (e : Nat) :
    (recalled term e).hist_buf_index = term.hist_buf_index := by
  rw [recalled]

@[simp] theorem recalled_cur_hist_index (term : term_t) (e : Nat) :
    (recalled term e).cur_hist_index = UInt32.ofNat e := by
  rw [recalled]

/-- Only the history counts for its commands. -/
theorem command_congr {term term' : term_t} (hhist : term'.hist_buf = term.hist_buf) (e : Nat) :
    command term' e = command term e := by
  have hrow : row term' e = row term e := by
    funext j
    simp only [row, hhist]
  simp only [command, line, hrow]

/-- Recalling does not depend on the position. -/
theorem recalled_atPos (term : term_t) (e : Nat) (scrn_r scrn_c curs_r curs_c : UInt8) :
    recalled (term.atPos scrn_r scrn_c curs_r curs_c) e =
      (recalled term e).atPos scrn_r scrn_c curs_r curs_c := by
  have hcommand : command (term.atPos scrn_r scrn_c curs_r curs_c) e = command term e := command_congr rfl e
  rw [recalled, hcommand, recalled]
  rfl

section Entry

variable (con : Console) (t : Fin MAX_TERM_NUM) {e : Nat}

/-- The bytes of an entry, at their addresses. -/
theorem termMem_row (he : e < 10) (j : Fin KEY_BUF_SIZE) :
    con.termMem (hist_buf t (UInt32.ofNat e) + UInt32.ofNat j) = row (con.terminals t) e j := by
  have hj := j.isLt
  have hlt : KEY_BUF_SIZE * e + j.val < 10 * KEY_BUF_SIZE := by
    simp only [KEY_BUF_SIZE] at hj ⊢
    omega
  rw [hist_buf_add, UInt32.toNat_ofNat_of_lt' (Nat.lt_trans he (by decide)), row, dif_pos hlt]
  exact con.termMem_hist_buf t ⟨_, hlt⟩

/-- An entry that ends in its last byte at the latest is a string. -/
theorem command_isString (he : e < 10) (hended : row (con.terminals t) e ⟨128, by decide⟩ = 0) :
    IsString con.termMem (hist_buf t (UInt32.ofNat e)) (command (con.terminals t) e).length := by
  obtain ⟨term, hterm⟩ : ∃ term, term = { con.terminals t with key_buf := row (con.terminals t) e } := ⟨_, rfl⟩
  have hbyte (j : Fin KEY_BUF_SIZE) : con.termMem (hist_buf t (UInt32.ofNat e) + UInt32.ofNat j) = term.key_buf j := by
    rw [hterm]
    exact termMem_row con t he j
  have hlt : (line term).length < KEY_BUF_SIZE := by
    refine Nat.lt_of_le_of_ne (line_length_le term) fun hfull => ?_
    have hbody := line_body term ⟨128, by decide⟩ (by rw [hfull]; decide)
    rw [hterm] at hbody
    exact hbody hended
  rw [command, ← hterm]
  refine ⟨Nat.lt_trans hlt (by decide), ?_, fun i hi => ?_⟩
  · rw [hbyte ⟨_, hlt⟩]
    exact line_end term hlt
  · rw [hbyte ⟨i, Nat.lt_trans hi hlt⟩]
    exact line_body term _ hi

/-- `strlen` on an entry gives the length of its command, if the entry is ended. -/
theorem strlen_command (he : e < 10) (hended : row (con.terminals t) e ⟨128, by decide⟩ = 0) :
    strlen con.termMem (hist_buf t (UInt32.ofNat e)) = UInt32.ofNat (command (con.terminals t) e).length :=
  strlen_eq (command_isString con t he hended)

theorem strlen_of_zero {m : Mem} {s : UInt32} (hzero : m s = 0) : strlen m s = 0 := by
  refine strlen_eq (n := 0) ⟨by decide, ?_, fun i hi => absurd hi (Nat.not_lt_zero i)⟩
  rw [show UInt32.ofNat 0 = 0 from rfl, UInt32.add_zero]
  exact hzero

/-- Behind the history there are two bytes of padding. -/
theorem strlen_padding : strlen con.termMem (hist_buf t 10) = 0 := by
  apply strlen_of_zero
  have haddr := hist_buf_add t 10 0
  rw [show UInt32.ofNat 0 = 0 from rfl, UInt32.add_zero] at haddr
  have hoff : HIST_BUF + (KEY_BUF_SIZE * (10 : UInt32).toNat + 0) = 1442 := by decide
  rw [haddr, hoff, con.termMem_at t (by decide)]
  grind [term_t.byte]

end Entry

section Clear

/-- The terminal after `n` times Backspace. -/
def erase (term : term_t) (n : Nat) : term_t :=
  { term with
    key_buf := fun i =>
      if term.key_buf_index.toNat - n ≤ i.val ∧ i.val < term.key_buf_index.toNat then 0 else term.key_buf i
    key_buf_index := UInt32.ofNat (term.key_buf_index.toNat - n) }

theorem erase_zero (term : term_t) : erase term 0 = term := by
  have hkeys : (erase term 0).key_buf = term.key_buf := by
    funext i
    simp only [erase, Nat.sub_zero]
    rw [if_neg (by omega)]
  have hindex : (erase term 0).key_buf_index = term.key_buf_index := by
    simp only [erase, Nat.sub_zero, UInt32.ofNat_toNat]
  rw [term_t.ext_iff]
  exact ⟨rfl, rfl, rfl, rfl, rfl, rfl, hkeys, hindex, rfl, rfl, rfl, rfl, rfl, rfl⟩

/-- One Backspace more erases one character more. -/
theorem eraseLast_erase (term : term_t) {n : Nat} (hn : n < term.key_buf_index.toNat) :
    eraseLast (erase term n) = erase term (n + 1) := by
  have hlt := term.key_buf_index.toNat_lt
  have hindex : (UInt32.ofNat (term.key_buf_index.toNat - n)).toNat = term.key_buf_index.toNat - n := by
    rw [UInt32.toNat_ofNat']
    omega
  simp only [eraseLast, erase, setKey, hindex]
  congr 1
  · funext i
    by_cases hi : i.val = term.key_buf_index.toNat - n - 1
    · rw [if_pos hi, if_pos (by omega)]
    · rw [if_neg hi]
      by_cases hmore : term.key_buf_index.toNat - n ≤ i.val ∧ i.val < term.key_buf_index.toNat
      · rw [if_pos hmore, if_pos (by omega)]
      · rw [if_neg hmore, if_neg (by omega)]
  · apply UInt32.toNat_inj.mp
    rw [UInt32.toNat_sub_of_le _ _ (by rw [UInt32.le_iff_toNat_le, hindex, UInt32.toNat_one]; omega), hindex,
      UInt32.toNat_ofNat', UInt32.toNat_one]
    omega

/-- The Backspaces of `clear_cur_cmd` act on the console as the key does. -/
theorem repeat_inputBackspace_toConsole (k : Kernel) (n : Nat) :
    (Nat.repeat inputBackspace n k).toConsole = Nat.repeat keyBackspace n k.toConsole := by
  induction n with
  | zero => rfl
  | succ n ih =>
    rw [Nat.repeat, Nat.repeat, ← ih]
    rfl

/-- Some Backspaces erase as many characters, and print. There must be so many. -/
theorem prints_repeat_backspace (con : Console) {n : Nat}
    (hindex : (con.terminals con.vis_term_id).key_buf_index.toNat < KEY_BUF_SIZE)
    (hn : n ≤ (con.terminals con.vis_term_id).key_buf_index.toNat) :
    Prints (con.setTerm con.vis_term_id (erase (con.terminals con.vis_term_id) n))
      (Nat.repeat keyBackspace n con) := by
  induction n with
  | zero =>
    rw [erase_zero, Console.setTerm_self]
    exact Prints.refl con
  | succ n ih =>
    have hprints := ih (by omega)
    rw [Nat.repeat]
    generalize Nat.repeat keyBackspace n con = con' at hprints ⊢
    generalize con.terminals con.vis_term_id = term at hprints hn hindex ⊢
    have hvis : con'.vis_term_id = con.vis_term_id := hprints.vis_term_id
    obtain ⟨_, _, _, _, hterm⟩ := hprints.terminals con.vis_term_id
    have hleft : (con'.terminals con.vis_term_id).key_buf_index.toNat = term.key_buf_index.toNat - n := by
      rw [hterm, Console.setTerm_same, term_t.atPos, erase, UInt32.toNat_ofNat']
      have hlt := term.key_buf_index.toNat_lt
      omega
    have hone := prints_keyBackspace con'
    rw [hvis] at hone
    have hlast := hone (fun hzero => by rw [hzero, UInt32.toNat_zero] at hleft; omega) (by omega)
    have hedit := hprints.setTerm con.vis_term_id eraseLast (fun _ _ _ _ _ => rfl)
    rw [Console.setTerm_same, Console.setTerm_setTerm, eraseLast_erase term (by omega)] at hedit
    exact hedit.trans hlast

/-- A line is empty if its first byte is zero. -/
theorem line_eq_nil_iff (term : term_t) : line term = [] ↔ term.key_buf ⟨0, by decide⟩ = 0 := by
  constructor
  · intro hline
    have hend := line_end term (by rw [hline]; decide)
    simpa only [hline, List.length_nil] using hend
  · intro hzero
    by_contra hline
    exact line_body term ⟨0, by decide⟩ (List.length_pos_iff.mpr hline) hzero

@[simp] theorem line_clearLine (term : term_t) : line (clearLine term) = [] := by
  rw [line_eq_nil_iff]
  simp only [clearLine]
  split
  · rfl
  · rename_i hnone
    exact (line_eq_nil_iff term).mp (List.length_eq_zero_iff.mp (Nat.eq_zero_of_not_pos hnone))

theorem clearLine_clearLine (term : term_t) : clearLine (clearLine term) = clearLine term := by
  rw [clearLine_of_nil _ (line_clearLine term), clearLine]

/-- Clearing the line of a terminal whose characters have all been erased. -/
theorem clearLine_erase (term : term_t) :
    clearLine (erase term term.key_buf_index.toNat) = clearCommand term := by
  by_cases hzero : term.key_buf_index = 0
  · rw [hzero, UInt32.toNat_zero, erase_zero, clearCommand, clearLine, extent, if_pos hzero]
  · have hpos : 0 < term.key_buf_index.toNat :=
      Nat.pos_of_ne_zero fun h => hzero (UInt32.toNat_inj.mp h)
    have hline : line (erase term term.key_buf_index.toNat) = [] := by
      rw [line_eq_nil_iff]
      simp only [erase, Nat.sub_self, Nat.zero_le, true_and, hpos, if_true]
    rw [clearLine_of_nil _ hline]
    simp only [clearCommand, erase, Nat.sub_self, Nat.zero_le, true_and, extent, hzero, if_false]

/-- What `clear_cur_cmd` and `clear_buffer` do before a command is recalled. -/
theorem prints_clear_cur_cmd (k : Kernel)
    (hindex : (k.terminals k.vis_term_id).key_buf_index.toNat < KEY_BUF_SIZE) :
    Prints (k.toConsole.setTerm k.vis_term_id (clearCommand (k.terminals k.vis_term_id)))
      ((clear_cur_cmd k).onConsole clear_buffer).toConsole := by
  have hcount : (toInt32 (k.terminals k.vis_term_id).key_buf_index).toNat =
      (k.terminals k.vis_term_id).key_buf_index.toNat := by
    rw [toInt32_of_lt (Nat.lt_trans hindex (by decide)), Int.toNat_natCast]
  have hprints := prints_repeat_backspace k.toConsole hindex (Nat.le_refl _)
  have hvis := hprints.vis_term_id
  simp only [clear_cur_cmd, hcount, Kernel.onConsole_toConsole, repeat_inputBackspace_toConsole]
  generalize Nat.repeat keyBackspace _ k.toConsole = con at hprints hvis ⊢
  have hcleared := hprints.setTerm k.vis_term_id clearLine clearLine_atPos
  rw [Console.setTerm_same, Console.setTerm_setTerm, clearLine_erase] at hcleared
  rw [Console.setTerm_vis_term_id] at hvis
  rw [clear_buffer_eq con, clear_buffer_eq, Console.setTerm_vis_term_id, hvis, Console.setTerm_same,
    Console.setTerm_setTerm, clearLine_clearLine]
  exact hcleared

end Clear

section Recall

theorem prints_printBuf (con : Console) (t : Fin MAX_TERM_NUM) (n : Nat) : Prints con (printBuf con t n) := by
  rw [printBuf]
  generalize List.range n = indices
  induction indices generalizing con with
  | nil => exact Prints.refl con
  | cons i indices ih => exact (prints_putc con t _).trans (ih _)

variable (con : Console) (t : Fin MAX_TERM_NUM) {e : Nat}

/-- The copy of an entry into the key buffer. -/
theorem memcpy_command (he : e < 10) {n : Nat} (hn : n ≤ KEY_BUF_SIZE) :
    con.setTermMem (memcpy con.termMem (key_buf t) (hist_buf t (UInt32.ofNat e)) (UInt32.ofNat n)) =
      con.setTerm t { con.terminals t with
        key_buf := fun i => if i.val < n then row (con.terminals t) e i else (con.terminals t).key_buf i } := by
  have hsmall : (UInt32.ofNat e).toNat = e := UInt32.toNat_ofNat_of_lt' (Nat.lt_trans he (by decide))
  have hcount : (UInt32.ofNat n).toNat = n := UInt32.toNat_ofNat_of_lt' (Nat.lt_of_le_of_lt hn (by decide))
  have hsafe : n ≤ (key_buf t - hist_buf t (UInt32.ofNat e)).toNat := by
    have hdest := key_buf_toNat t
    have hsrc := hist_buf_toNat t (hsmall.symm ▸ he)
    have ht := t.isLt
    rw [hsmall] at hsrc
    simp only [TERM_SIZE, KEY_BUF, HIST_BUF, KEY_BUF_SIZE, MAX_TERM_NUM] at *
    rw [← Nat.not_lt, sub_toNat_lt_iff _ _ (by omega), hdest, hsrc]
    omega
  have hset := con.setTermMem_key_buf t
    (blit con.termMem (key_buf t) con.termMem (hist_buf t (UInt32.ofNat e)) n)
    fun a ha => blit_outside _ _ (Nat.le_trans hn ha)
  have hbuf (i : Fin KEY_BUF_SIZE) :
      blit con.termMem (key_buf t) con.termMem (hist_buf t (UInt32.ofNat e)) n
        (termAddr t + UInt32.ofNat (KEY_BUF + i)) =
      if i.val < n then row (con.terminals t) e i else (con.terminals t).key_buf i := by
    rw [← key_buf_add]
    split
    · rename_i hinside
      rw [blit_inside _ _ _ _ hinside (Nat.le_trans hn (by decide)), termMem_row con t he]
    · rename_i hinside
      have hoffset := offset_toNat (key_buf t) (Nat.lt_trans i.isLt (by decide))
      rw [blit_outside _ _ (hoffset.symm ▸ Nat.not_lt.mp hinside), key_buf_add, con.termMem_key_buf]
  rw [memcpy_eq_blit _ _ _ _ (.inr (hcount.symm ▸ hsafe)), hcount]
  simp only [hset, hbuf]

/-- Besides printing, `recallEntry` puts the command into the key buffer and makes it the current
    one. -/
theorem prints_recallEntry (he : e < 10) :
    Prints (con.setTerm t (recalled (con.terminals t) e))
      (recallEntry con t (UInt32.ofNat e) (UInt32.ofNat (command (con.terminals t) e).length)) := by
  have hcopy := memcpy_command con t he (line_length_le { con.terminals t with key_buf := row (con.terminals t) e })
  simp only [recallEntry, command, hcopy, Console.setTerm_same, Console.setTerm_setTerm, recalled]
  exact prints_printBuf _ _ _

end Recall

end lacos.keyboard
