import LacOS.Keyboard
import LacOS.Lib.Frame

open memory lacos.lib

namespace lacos.keyboard

/-- The characters of the key buffer up to the first zero byte. -/
def line (term : term_t) : List UInt8 :=
  (List.ofFn term.key_buf).takeWhile (· ≠ 0)

/-- The terminal once its line has been delivered. -/
def clearLine (term : term_t) : term_t :=
  { term with
    key_buf := fun i => if i.val < (line term).length then 0 else term.key_buf i
    key_buf_index := 0 }

section Line

variable (term : term_t)

@[simp] theorem clearLine_key_buf_index : (clearLine term).key_buf_index = 0 := by rw [clearLine]

@[simp] theorem clearLine_new_line : (clearLine term).new_line = term.new_line := by rw [clearLine]

@[simp] theorem clearLine_hist_buf : (clearLine term).hist_buf = term.hist_buf := by rw [clearLine]

@[simp] theorem clearLine_hist_buf_index : (clearLine term).hist_buf_index = term.hist_buf_index := by
  rw [clearLine]

@[simp] theorem clearLine_cur_hist_index : (clearLine term).cur_hist_index = term.cur_hist_index := by
  rw [clearLine]

/-- Clearing a line does not depend on where the screen's positions are. -/
theorem clearLine_atPos (scrn_r scrn_c curs_r curs_c : UInt8) :
    clearLine (term.atPos scrn_r scrn_c curs_r curs_c) =
      (clearLine term).atPos scrn_r scrn_c curs_r curs_c := by
  have hline : line (term.atPos scrn_r scrn_c curs_r curs_c) = line term := rfl
  rw [clearLine, hline, clearLine]
  rfl

theorem line_eq_take : line term =
    (List.ofFn term.key_buf).take ((List.ofFn term.key_buf).findIdx (fun c => !decide (c ≠ 0))) :=
  List.takeWhile_eq_take_findIdx_not

theorem line_length : (line term).length = (List.ofFn term.key_buf).findIdx (fun c => !decide (c ≠ 0)) := by
  rw [line_eq_take, List.length_take, Nat.min_eq_left List.findIdx_le_length]

/-- A line is no longer than the key buffer. It may be as long, if the last byte is no zero. -/
theorem line_length_le : (line term).length ≤ KEY_BUF_SIZE := by
  rw [line_length]
  refine Nat.le_trans List.findIdx_le_length ?_
  rw [List.length_ofFn]

/-- The characters of the line are the first bytes of the key buffer. -/
theorem line_getElem {i : Nat} (hi : i < (line term).length) :
    (line term)[i] = term.key_buf ⟨i, Nat.lt_of_lt_of_le hi (line_length_le term)⟩ := by
  simp only [line_eq_take, List.getElem_take, List.getElem_ofFn]

/-- No byte of the line is zero. -/
theorem line_body (i : Fin KEY_BUF_SIZE) (hi : i.val < (line term).length) : term.key_buf i ≠ 0 := by
  rw [line_length] at hi
  have hbody := List.not_of_lt_findIdx hi
  simpa only [List.getElem_ofFn, Bool.not_eq_false', decide_eq_true_eq] using hbody

/-- The line is ended by a zero, unless it fills the key buffer. -/
theorem line_end (hlt : (line term).length < KEY_BUF_SIZE) : term.key_buf ⟨(line term).length, hlt⟩ = 0 := by
  have hidx : (List.ofFn term.key_buf).findIdx (fun c => !decide (c ≠ 0)) < (List.ofFn term.key_buf).length := by
    rwa [List.length_ofFn, ← line_length]
  have hend := List.findIdx_getElem (w := hidx)
  simp only [List.getElem_ofFn, Bool.not_eq_true', decide_eq_false_iff_not, ne_eq, not_not] at hend
  simpa only [line_length] using hend

theorem line_nonzero {c : UInt8} (hc : c ∈ line term) : c ≠ 0 := by
  obtain ⟨i, hi, rfl⟩ := List.getElem_of_mem hc
  rw [line_getElem term hi]
  exact line_body term _ hi

/-- What the line is can be told from its characters and the zero after them. -/
theorem line_eq {l : List UInt8} (hlen : l.length < KEY_BUF_SIZE) (hnonzero : ∀ c ∈ l, c ≠ 0)
    (hbody : ∀ i (hi : i < l.length), term.key_buf ⟨i, Nat.lt_trans hi hlen⟩ = l[i])
    (hend : term.key_buf ⟨l.length, hlen⟩ = 0) : line term = l := by
  have hsize : (line term).length = l.length := by
    rcases Nat.lt_trichotomy (line term).length l.length with hshort | hsame | hlong
    · have hzero := line_end term (Nat.lt_trans hshort hlen)
      rw [hbody _ hshort] at hzero
      exact absurd hzero (hnonzero _ (List.getElem_mem hshort))
    · exact hsame
    · exact absurd hend (line_body term ⟨l.length, hlen⟩ hlong)
  apply List.ext_getElem hsize
  intro i hi hi'
  rw [line_getElem term hi, hbody i hi']

/-- Clearing changes the key buffer unless there is no line. -/
theorem line_eq_nil_of_clear (hsame : (clearLine term).key_buf = term.key_buf) : line term = [] := by
  by_contra hne
  have hpos := List.length_pos_iff.mpr hne
  have hfirst := congrFun hsame ⟨0, by decide⟩
  simp only [clearLine, hpos, if_true] at hfirst
  exact line_body term ⟨0, by decide⟩ hpos hfirst.symm

/-- Clearing an empty line resets the index. Bytes behind the first zero stay. -/
theorem clearLine_of_nil (hline : line term = []) : clearLine term = { term with key_buf_index := 0 } := by
  simp [clearLine, hline]

end Line

/-- The bytes of a key buffer by their place in the structure of the terminal. -/
theorem key_buf_add (t : Fin MAX_TERM_NUM) (i : Nat) :
    key_buf t + UInt32.ofNat i = termAddr t + UInt32.ofNat (KEY_BUF + i) := by
  rw [key_buf, UInt32.add_assoc, ← UInt32.ofNat_add]

/-- A terminal with another byte at `key_buf[i]`. -/
def setKey (term : term_t) (i : Nat) (value : UInt8) : term_t :=
  { term with key_buf := fun j => if j.val = i then value else term.key_buf j }

@[simp] theorem setKey_scrn_c (term : term_t) (i : Nat) (value : UInt8) :
    (setKey term i value).scrn_c = term.scrn_c := rfl

/-- A store to `read_buf[i]`. -/
theorem store_key_buf (con : Console) (t : Fin MAX_TERM_NUM) (value : UInt8) {i : Nat} (hi : i < KEY_BUF_SIZE) :
    con.setTermMem (store con.termMem (key_buf t + UInt32.ofNat i) value) =
      con.setTerm t (setKey (con.terminals t) i value) := by
  have hi' : i < 2 ^ 32 := by
    simp only [KEY_BUF_SIZE] at hi
    omega
  have hset := con.setTermMem_key_buf t (store con.termMem (key_buf t + UInt32.ofNat i) value)
    fun a ha => store_outside value hi (by decide) ha
  have hbuf (j : Fin KEY_BUF_SIZE) :
      store con.termMem (key_buf t + UInt32.ofNat i) value (termAddr t + UInt32.ofNat (KEY_BUF + j)) =
        if j.val = i then value else (con.terminals t).key_buf j := by
    have hj : j.val < 2 ^ 32 := by
      have hlt := j.isLt
      simp only [KEY_BUF_SIZE] at hlt
      omega
    rw [← key_buf_add, store_offset _ _ _ hj hi', key_buf_add, con.termMem_key_buf]
  simp only [hset, hbuf, setKey]

/-- The padding after the key buffer ends a line that fills it. -/
theorem line_isString (con : Console) (t : Fin MAX_TERM_NUM) :
    IsString con.termMem (key_buf t) (line (con.terminals t)).length := by
  have hle := line_length_le (con.terminals t)
  have hbyte (i : Fin KEY_BUF_SIZE) : con.termMem (key_buf t + UInt32.ofNat i) = (con.terminals t).key_buf i := by
    rw [key_buf_add, con.termMem_key_buf]
  refine ⟨by simp only [KEY_BUF_SIZE] at hle; omega, ?_, ?_⟩
  · by_cases hfull : (line (con.terminals t)).length = KEY_BUF_SIZE
    · rw [hfull, key_buf_add, con.termMem_at t (by decide)]
      rfl
    · have hlt : (line (con.terminals t)).length < KEY_BUF_SIZE := by omega
      rw [hbyte ⟨_, hlt⟩]
      exact line_end _ hlt
  · intro i hi
    rw [hbyte ⟨i, by omega⟩]
    exact line_body _ _ hi

/-- `clear_buffer` clears the line of the visible terminal, which it measures with `strlen`. -/
theorem clear_buffer_eq (con : Console) :
    clear_buffer con = con.setTerm con.vis_term_id (clearLine (con.terminals con.vis_term_id)) := by
  have hlength : (strlen con.termMem (key_buf con.vis_term_id)).toNat =
      (line (con.terminals con.vis_term_id)).length := by
    have hstring := line_isString con con.vis_term_id
    rw [strlen_eq hstring, UInt32.toNat_ofNat_of_lt' hstring.1]
  have hle := line_length_le (con.terminals con.vis_term_id)
  have hset := con.setTermMem_key_buf con.vis_term_id
    (fillWith con.termMem (key_buf con.vis_term_id) (fun _ => 0) (line (con.terminals con.vis_term_id)).length)
    fun a ha => fillWith_outside _ (Nat.le_trans hle ha)
  simp only [clear_buffer, memset_eq_fillWith, hlength, hset, Console.setTerm_same, Console.setTerm_setTerm,
    clearLine]
  congr 2
  funext i
  rw [← key_buf_add]
  have hi := i.isLt
  by_cases hinside : i.val < (line (con.terminals con.vis_term_id)).length
  · rw [fillWith_inside _ _ _ hinside (by simp only [KEY_BUF_SIZE] at hle; omega), if_pos hinside]
  · rw [fillWith_outside, if_neg hinside, key_buf_add, con.termMem_key_buf]
    rw [offset_toNat _ (by simp only [KEY_BUF_SIZE] at hi; omega)]
    omega

/-- The terminal with the last character of its line removed. -/
def eraseLast (term : term_t) : term_t :=
  setKey { term with key_buf_index := term.key_buf_index - 1 } (term.key_buf_index.toNat - 1) 0

/-- The terminal with a character added to its line. -/
def addChar (term : term_t) (c : UInt8) : term_t :=
  setKey { term with key_buf_index := term.key_buf_index + 1 } term.key_buf_index.toNat c

/-- A character moves the index up by one, without wrapping around. -/
theorem addChar_index (term : term_t) (c : UInt8) (hindex : term.key_buf_index.toNat < KEY_BUF_SIZE) :
    (addChar term c).key_buf_index.toNat = term.key_buf_index.toNat + 1 := by
  change (term.key_buf_index + 1).toNat = _
  rw [UInt32.toNat_add, UInt32.toNat_one]
  simp only [KEY_BUF_SIZE] at hindex
  omega

theorem eraseLast_index {term : term_t} (hempty : term.key_buf_index ≠ 0) :
    (eraseLast term).key_buf_index.toNat = term.key_buf_index.toNat - 1 := by
  have hpos : term.key_buf_index.toNat ≠ 0 := fun h => hempty (UInt32.toNat_inj.mp h)
  have hone : (1 : UInt32) ≤ term.key_buf_index := UInt32.le_iff_toNat_le.mpr (Nat.one_le_iff_ne_zero.mpr hpos)
  exact UInt32.toNat_sub_of_le _ _ hone

/-- The terminal with a newline at the end of its line; a full line loses its last
    character to it. -/
def endLine (term : term_t) : term_t :=
  let last := if term.key_buf_index.toNat < KEY_BUF_SIZE - 1 then term.key_buf_index.toNat else KEY_BUF_SIZE - 2
  setKey (setKey term last 10) (last + 1) 0

section Keys

variable (con : Console)

/-- Backspace on a non-empty line. -/
theorem keyBackspace_eq (hempty : (con.terminals con.vis_term_id).key_buf_index ≠ 0)
    (hindex : (con.terminals con.vis_term_id).key_buf_index.toNat < KEY_BUF_SIZE) :
    keyBackspace con =
      let term := eraseLast (con.terminals con.vis_term_id)
      putc (con.setTerm con.vis_term_id
        (if term.scrn_c = 0 then { term with scrn_r := term.scrn_r - 1, scrn_c := UInt8.ofNat NUM_COLS } else term))
        con.vis_term_id 8 := by
  generalize hterm : con.terminals con.vis_term_id = term at *
  have hprev : term.key_buf_index - 1 = UInt32.ofNat (term.key_buf_index.toNat - 1) := by
    apply UInt32.toNat_inj.mp
    have hlt := term.key_buf_index.toNat_lt
    rw [UInt32.toNat_ofNat_of_lt' (show _ < 2 ^ 32 by omega)]
    exact eraseLast_index hempty
  have hstore := store_key_buf (con.setTerm con.vis_term_id { term with key_buf_index := term.key_buf_index - 1 })
    con.vis_term_id 0 (i := term.key_buf_index.toNat - 1) (by omega)
  rw [← hprev, Console.setTerm_same, Console.setTerm_setTerm] at hstore
  simp only [keyBackspace, hterm, ne_eq, hempty, not_false_eq_true, if_true, hstore, Console.setTerm_same,
    Console.setTerm_setTerm, eraseLast]
  by_cases hcol : term.scrn_c = 0
  · simp only [setKey_scrn_c, hcol, if_true]
  · simp only [setKey_scrn_c, hcol, if_false]

/-- A character key while the buffer has room. -/
theorem putKey_eq (c_print : UInt8)
    (hindex : (con.terminals con.vis_term_id).key_buf_index.toNat < KEY_BUF_SIZE) :
    putKey con c_print =
      putc (con.setTerm con.vis_term_id (addChar (con.terminals con.vis_term_id) c_print))
        con.vis_term_id c_print := by
  have hstore := store_key_buf (con.setTerm con.vis_term_id { con.terminals con.vis_term_id with
    key_buf_index := (con.terminals con.vis_term_id).key_buf_index + 1 }) con.vis_term_id c_print hindex
  rw [UInt32.ofNat_toNat] at hstore
  simp only [putKey, hstore, Console.setTerm_same, Console.setTerm_setTerm, addChar]

/-- A Backspace that finds a character. -/
theorem prints_keyBackspace (hempty : (con.terminals con.vis_term_id).key_buf_index ≠ 0)
    (hindex : (con.terminals con.vis_term_id).key_buf_index.toNat < KEY_BUF_SIZE) :
    Prints (con.setTerm con.vis_term_id (eraseLast (con.terminals con.vis_term_id))) (keyBackspace con) := by
  rw [keyBackspace_eq con hempty hindex]
  refine Prints.trans ?_ (prints_putc _ _ _)
  have hpos := prints_set_pos (con.setTerm con.vis_term_id (eraseLast (con.terminals con.vis_term_id)))
    con.vis_term_id
  simp only [Console.setTerm_same, Console.setTerm_setTerm] at hpos
  split
  · exact hpos _ _ _ _
  · exact Prints.refl _

/-- Besides printing, `putKey` adds the character to the line. -/
theorem prints_putKey (c_print : UInt8)
    (hindex : (con.terminals con.vis_term_id).key_buf_index.toNat < KEY_BUF_SIZE) :
    Prints (con.setTerm con.vis_term_id (addChar (con.terminals con.vis_term_id) c_print))
      (putKey con c_print) := by
  rw [putKey_eq con c_print hindex]
  exact prints_putc _ _ _

/-- Enter. -/
theorem keyEnter_eq :
    keyEnter con =
      let con' := putc (con.setTerm con.vis_term_id (endLine (con.terminals con.vis_term_id))) con.vis_term_id 10
      con'.setTerm con.vis_term_id { con'.terminals con.vis_term_id with key_buf_index := 0, new_line := true } := by
  generalize hterm : con.terminals con.vis_term_id = term
  obtain ⟨last, hlast⟩ : ∃ last, last = if term.key_buf_index.toNat < KEY_BUF_SIZE - 1 then
    term.key_buf_index.toNat else KEY_BUF_SIZE - 2 := ⟨_, rfl⟩
  have hlt : last + 1 < KEY_BUF_SIZE := by
    simp only [KEY_BUF_SIZE] at hlast ⊢
    split at hlast <;> omega
  have hword : (if term.key_buf_index.toNat < KEY_BUF_SIZE - 1 then term.key_buf_index
      else UInt32.ofNat (KEY_BUF_SIZE - 2)) = UInt32.ofNat last := by
    rw [hlast]
    split
    · rw [UInt32.ofNat_toNat]
    · rfl
  have hnext : UInt32.ofNat last + 1 = UInt32.ofNat (last + 1) := by
    rw [UInt32.ofNat_add]
    rfl
  have hfirst := store_key_buf con con.vis_term_id 10 (i := last) (by omega)
  have hsecond := store_key_buf (con.setTerm con.vis_term_id (setKey term last 10)) con.vis_term_id 0 hlt
  rw [hterm] at hfirst
  rw [Console.setTerm_same, Console.setTerm_setTerm] at hsecond
  simp only [keyEnter, hterm, hword, hfirst, hnext, hsecond, endLine, ← hlast]

end Keys

end lacos.keyboard
