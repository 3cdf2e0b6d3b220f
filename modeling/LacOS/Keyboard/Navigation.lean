import LacOS.Keyboard.Input
import LacOS.Keyboard.Recall
import LacOS.MultiTerm.Placement

open memory lacos.lib

namespace lacos.keyboard

/-- Printing leaves the input of every terminal alone. -/
theorem inputState_of_prints {con con' : Console} (hprints : Prints con con') (t : Fin MAX_TERM_NUM) :
    inputState (con'.terminals t) = inputState (con.terminals t) := by
  obtain ⟨_, _, _, _, hterm⟩ := hprints.terminals t
  rw [hterm]
  rfl

theorem inputState_set_vid_mem (con : Console) (t : Fin MAX_TERM_NUM) (vid_mem : UInt32) (u : Fin MAX_TERM_NUM) :
    inputState ((con.setTerm t { con.terminals t with vid_mem := vid_mem }).terminals u) =
      inputState (con.terminals u) := by
  by_cases hu : u = t
  · rw [hu, Console.setTerm_same]
    rfl
  · rw [Console.setTerm_other _ _ _ hu]

/-- Switching terminals leaves the input of every terminal alone. -/
theorem inputState_switch_terminal (k : Kernel) (new_term_id : Int) (t : Fin MAX_TERM_NUM) :
    inputState ((multi_term.switch_terminal k new_term_id).terminals t) = inputState (k.terminals t) := by
  obtain hstay | ⟨new, -, hswitch⟩ := multi_term.switch_terminal_cases k new_term_id
  · rw [hstay]
  · rw [hswitch, multi_term.switchTo_toConsole, showCursor_terminals]
    exact (inputState_set_vid_mem _ new VIDEO_ADDR t).trans (inputState_set_vid_mem k.toConsole _ _ t)

/-- The history of a terminal in order: the entries before `hist_buf_index` hold
    commands, the others are unused, and the current one is among them or next. -/
structure Ordered (term : term_t) : Prop where
  cur_le : term.cur_hist_index.toNat ≤ term.hist_buf_index.toNat
  hist_le : term.hist_buf_index.toNat ≤ 10
  index_lt : term.key_buf_index.toNat < KEY_BUF_SIZE
  recorded : ∀ e < term.hist_buf_index.toNat, row term e ⟨0, by decide⟩ ≠ 0
  ended : ∀ e < term.hist_buf_index.toNat, row term e ⟨128, by decide⟩ = 0
  unused : ∀ e j, term.hist_buf_index.toNat ≤ e → row term e j = 0

/-- Up before the first entry, or Down behind the last, finds an empty string there. -/
def InRange (con : Console) (c : UInt8) : Prop :=
  let t := con.vis_term_id
  let cur := (con.terminals t).cur_hist_index
  (c = UP_KEY_P → cur = 0 → con.termMem (hist_buf t (cur - 1)) = 0) ∧
    (c = DOWN_KEY_P → cur = HIST_COM_NUM → con.termMem (hist_buf t (cur + 1)) = 0)

instance (con : Console) (c : UInt8) : Decidable (InRange con c) := by
  unfold InRange
  infer_instance

/-- What Up does to a terminal. -/
def up (term : term_t) : term_t :=
  if term.cur_hist_index = 0 then term else recalled (clearCommand term) (term.cur_hist_index.toNat - 1)

/-- What Down does to a terminal. -/
def down (term : term_t) : term_t :=
  if term.cur_hist_index.toNat + 1 < term.hist_buf_index.toNat then
    recalled (clearCommand term) (term.cur_hist_index.toNat + 1)
  else { clearCommand term with cur_hist_index := term.hist_buf_index }

section Ordered

/-- A change of the key buffer, or to another entry of the same history. -/
theorem Ordered.edit {term term' : term_t} (hterm : Ordered term) (hhist : term'.hist_buf = term.hist_buf)
    (hnext : term'.hist_buf_index = term.hist_buf_index)
    (hcur : term'.cur_hist_index.toNat ≤ term.hist_buf_index.toNat)
    (hindex : term'.key_buf_index.toNat < KEY_BUF_SIZE) : Ordered term' := by
  have hrow (e : Nat) (j : Fin KEY_BUF_SIZE) : row term' e j = row term e j := by
    simp only [row, hhist]
  refine ⟨?_, ?_, hindex, ?_, ?_, ?_⟩
  all_goals simp only [hnext, hrow]
  · exact hcur
  · exact hterm.hist_le
  · exact hterm.recorded
  · exact hterm.ended
  · exact hterm.unused

/-- Only the input of a terminal counts. -/
theorem Ordered.congr {term term' : term_t} (hterm : Ordered term)
    (hinput : inputState term' = inputState term) : Ordered term' := by
  have hcur : term'.cur_hist_index = term.cur_hist_index := congrArg InputState.cur_hist_index hinput
  have hindex : term'.key_buf_index = term.key_buf_index := congrArg InputState.key_buf_index hinput
  refine hterm.edit (congrArg InputState.hist_buf hinput) (congrArg InputState.hist_buf_index hinput) ?_ ?_
  · rw [hcur]
    exact hterm.cur_le
  · rw [hindex]
    exact hterm.index_lt

section Commands

variable {term : term_t} (hterm : Ordered term)
include hterm

/-- Every entry of a history in order ends in its row. -/
theorem Ordered.row_ended (e : Nat) : row term e ⟨128, by decide⟩ = 0 := by
  by_cases he : e < term.hist_buf_index.toNat
  · exact hterm.ended e he
  · exact hterm.unused e _ (Nat.not_lt.mp he)

/-- The entries that are empty are those from the next one on. -/
theorem Ordered.command_eq_nil_iff (e : Nat) : command term e = [] ↔ term.hist_buf_index.toNat ≤ e := by
  rw [command, line_eq_nil_iff]
  constructor
  · intro hzero
    by_contra hlt
    exact hterm.recorded e (Nat.not_le.mp hlt) hzero
  · exact hterm.unused e _

/-- No command is longer than its entry. -/
theorem Ordered.command_length_lt (e : Nat) : (command term e).length < KEY_BUF_SIZE := by
  refine Nat.lt_of_le_of_ne (line_length_le _) fun hfull => ?_
  refine line_body { term with key_buf := row term e } ⟨128, by decide⟩ ?_ (hterm.row_ended e)
  rw [command] at hfull
  rw [hfull]
  decide

/-- The length that `strlen` finds, as the `uint32_t` it is. -/
theorem Ordered.size_eq_zero_iff (e : Nat) :
    UInt32.ofNat (command term e).length = 0 ↔ term.hist_buf_index.toNat ≤ e := by
  have hlt := hterm.command_length_lt e
  rw [← hterm.command_eq_nil_iff, ← List.length_eq_zero_iff, ← UInt32.toNat_inj,
    UInt32.toNat_ofNat_of_lt' (Nat.lt_trans hlt (by decide))]
  rfl

end Commands

variable {con : Console} {t : Fin MAX_TERM_NUM} (hterm : Ordered (con.terminals t))
include hterm

/-- `strlen` on an entry gives the length of its command, also on the place behind the last entry.
    -/
theorem Ordered.strlen_entry {e : Nat} (he : e ≤ 10) :
    strlen con.termMem (hist_buf t (UInt32.ofNat e)) = UInt32.ofNat (command (con.terminals t) e).length := by
  rcases Nat.lt_or_eq_of_le he with hlt | rfl
  · exact strlen_command con t hlt (hterm.row_ended e)
  · rw [(hterm.command_eq_nil_iff 10).mpr hterm.hist_le]
    exact strlen_padding con t

end Ordered

section Keys

variable {k : Kernel} (hterm : Ordered (k.terminals k.vis_term_id))
include hterm

/-- Clearing the current command does not move in the history. -/
theorem clear_cur_cmd_cur_hist_index :
    (((clear_cur_cmd k).onConsole clear_buffer).terminals k.vis_term_id).cur_hist_index =
      (k.terminals k.vis_term_id).cur_hist_index := by
  obtain ⟨_, _, _, _, hcleared⟩ := (prints_clear_cur_cmd k hterm.index_lt).terminals k.vis_term_id
  rw [hcleared, Console.setTerm_same]
  rfl

/-- Recalling an entry in place of the current command. -/
theorem prints_recall {e : Nat} (he : e < 10) :
    Prints (k.toConsole.setTerm k.vis_term_id (recalled (clearCommand (k.terminals k.vis_term_id)) e))
      (recallEntry ((clear_cur_cmd k).onConsole clear_buffer).toConsole k.vis_term_id (UInt32.ofNat e)
        (UInt32.ofNat (command (k.terminals k.vis_term_id) e).length)) := by
  have hprints := prints_clear_cur_cmd k hterm.index_lt
  generalize ((clear_cur_cmd k).onConsole clear_buffer).toConsole = con at hprints ⊢
  obtain ⟨_, _, _, _, hcleared⟩ := hprints.terminals k.vis_term_id
  rw [Console.setTerm_same] at hcleared
  have hcommand : command (con.terminals k.vis_term_id) e = command (k.terminals k.vis_term_id) e := by
    apply command_congr
    rw [hcleared]
    rfl
  have hrecall := prints_recallEntry con k.vis_term_id he
  have hedit := hprints.setTerm k.vis_term_id (recalled · e) fun term => recalled_atPos term e
  rw [Console.setTerm_same, Console.setTerm_setTerm] at hedit
  rw [hcommand] at hrecall
  exact hedit.trans hrecall

/-- Up does to the terminal what `up` says, and prints. It must find an empty string where there
    is no entry. -/
theorem prints_keyUp (hrange : InRange k.toConsole UP_KEY_P) :
    Prints (k.toConsole.setTerm k.vis_term_id (up (k.terminals k.vis_term_id))) (keyUp k).toConsole := by
  obtain ⟨hup, -⟩ := hrange
  have hcur := hterm.cur_le
  have hhist := hterm.hist_le
  by_cases hfirst : (k.terminals k.vis_term_id).cur_hist_index = 0
  · have hempty := strlen_of_zero (hup rfl hfirst)
    rw [keyUp, if_pos hempty, up, if_pos hfirst, Console.setTerm_self]
    exact Prints.refl _
  · obtain ⟨e, he⟩ : ∃ e, (k.terminals k.vis_term_id).cur_hist_index.toNat = e + 1 :=
      Nat.exists_eq_succ_of_ne_zero fun h => hfirst (UInt32.toNat_inj.mp h)
    have hprev : (k.terminals k.vis_term_id).cur_hist_index - 1 = UInt32.ofNat e := by
      rw [← UInt32.ofNat_toNat (x := (k.terminals k.vis_term_id).cur_hist_index), he, UInt32.ofNat_add]
      exact UInt32.add_sub_cancel _ _
    have hsize := hterm.strlen_entry (e := e) (by omega)
    have hmoves : UInt32.ofNat (command (k.terminals k.vis_term_id) e).length ≠ 0 := by
      rw [ne_eq, hterm.size_eq_zero_iff]
      omega
    have hprints := prints_recall hterm (e := e) (by omega)
    rw [up, if_neg hfirst, he, Nat.add_sub_cancel]
    simp only [keyUp, hprev, hsize, if_neg hmoves]
    rw [Kernel.onConsole_toConsole, clear_cur_cmd_cur_hist_index hterm, hprev]
    exact hprints

/-- Down does to the terminal what `down` says, and prints. -/
theorem prints_keyDown (hrange : InRange k.toConsole DOWN_KEY_P) :
    Prints (k.toConsole.setTerm k.vis_term_id (down (k.terminals k.vis_term_id))) (keyDown k).toConsole := by
  obtain ⟨-, hdown⟩ := hrange
  have hcur := hterm.cur_le
  have hhist := hterm.hist_le
  obtain ⟨e, he⟩ : ∃ e, (k.terminals k.vis_term_id).cur_hist_index.toNat = e := ⟨_, rfl⟩
  have hentry : (k.terminals k.vis_term_id).cur_hist_index = UInt32.ofNat e := by rw [← he, UInt32.ofNat_toNat]
  have hnext : (k.terminals k.vis_term_id).cur_hist_index + 1 = UInt32.ofNat (e + 1) := by
    rw [hentry, UInt32.ofNat_add]
    rfl
  have hprev_size := hterm.strlen_entry (e := e) (by omega)
  have hsize : strlen k.termMem (hist_buf k.vis_term_id (UInt32.ofNat (e + 1))) =
      UInt32.ofNat (command (k.terminals k.vis_term_id) (e + 1)).length := by
    by_cases hlast : e = 10
    · -- Behind the padding it is up to the memory that follows.
      have hzero := hdown rfl (hentry.trans (by rw [hlast]; rfl))
      rw [hnext] at hzero
      rw [strlen_of_zero hzero, (hterm.command_eq_nil_iff (e + 1)).mpr (by omega)]
      rfl
    · exact hterm.strlen_entry (by omega)
  rw [down, he]
  simp only [keyDown, hnext]
  rw [hentry, hprev_size, hsize]
  by_cases hmore : e + 1 < (k.terminals k.vis_term_id).hist_buf_index.toNat
  · have hmoves : UInt32.ofNat (command (k.terminals k.vis_term_id) (e + 1)).length ≠ 0 := by
      rw [ne_eq, hterm.size_eq_zero_iff]
      omega
    rw [if_pos hmore, if_neg hmoves, Kernel.onConsole_toConsole, clear_cur_cmd_cur_hist_index hterm, hnext]
    exact prints_recall hterm (by omega)
  · have hends := (hterm.size_eq_zero_iff (e + 1)).mpr (Nat.not_lt.mp hmore)
    have hprints := prints_clear_cur_cmd k hterm.index_lt
    rw [if_neg hmore, if_pos hends]
    split
    · rename_i hprev
      rw [ne_eq, hterm.size_eq_zero_iff] at hprev
      have hnew : UInt32.ofNat (e + 1) = (k.terminals k.vis_term_id).hist_buf_index := by
        rw [← UInt32.ofNat_toNat (x := (k.terminals k.vis_term_id).hist_buf_index)]
        congr 1
        omega
      have hedit := hprints.setTerm k.vis_term_id
        (fun term => { term with cur_hist_index := (k.terminals k.vis_term_id).hist_buf_index })
        (fun _ _ _ _ _ => rfl)
      rw [Console.setTerm_same, Console.setTerm_setTerm] at hedit
      rw [Kernel.onConsole_toConsole, clear_cur_cmd_cur_hist_index hterm, hnext, hnew]
      exact hedit
    · rename_i hprev
      rw [ne_eq, not_not, hterm.size_eq_zero_iff] at hprev
      have hsame : (k.terminals k.vis_term_id).hist_buf_index = (k.terminals k.vis_term_id).cur_hist_index :=
        UInt32.toNat_inj.mp (by omega)
      rw [hsame]
      exact hprints

end Keys

/-- What a key does to the input of the visible terminal. -/
def press (kbd : Keyboard) (term : term_t) (c : UInt8) : term_t :=
  if c = BACKSPACE_P then if term.key_buf_index = 0 then term else eraseLast term
  else if c = ENTER_KEY_P then { endLine term with key_buf_index := 0, new_line := true }
  else if c = L_KEY_P ∧ kbd.ctrl then clearLine term
  else if c = UP_KEY_P then up term
  else if c = DOWN_KEY_P then down term
  else if term.key_buf_index.toNat = KEY_BUF_SIZE - 1 then term
  else (typed kbd c).elim term (addChar term)

theorem press_up (kbd : Keyboard) (term : term_t) : press kbd term UP_KEY_P = up term := by
  rw [press, if_neg (by decide), if_neg (by decide), if_neg (fun h => absurd h.1 (by decide)), if_pos rfl]

theorem press_down (kbd : Keyboard) (term : term_t) : press kbd term DOWN_KEY_P = down term := by
  rw [press, if_neg (by decide), if_neg (by decide), if_neg (fun h => absurd h.1 (by decide)),
    if_neg (by decide), if_pos rfl]

/-- Besides printing, Enter ends the line and marks it as completed. -/
theorem prints_keyEnter (con : Console) :
    Prints (con.setTerm con.vis_term_id { endLine (con.terminals con.vis_term_id) with
      key_buf_index := 0, new_line := true }) (keyEnter con) := by
  have hprints := prints_putc (con.setTerm con.vis_term_id (endLine (con.terminals con.vis_term_id)))
    con.vis_term_id 10
  have hedit := hprints.setTerm con.vis_term_id (fun term => { term with key_buf_index := 0, new_line := true })
    (fun _ _ _ _ _ => rfl)
  rw [Console.setTerm_same, Console.setTerm_setTerm] at hedit
  rw [keyEnter_eq]
  exact hedit

/-- A key that has no meaning and types nothing leaves the input. -/
theorem press_idle {kbd : Keyboard} {term : term_t} {c : UInt8}
    (hkeys : c ∉ [BACKSPACE_P, ENTER_KEY_P, L_KEY_P, UP_KEY_P, DOWN_KEY_P]) (hidle : typed kbd c = none) :
    press kbd term c = term := by
  simp only [List.mem_cons, List.not_mem_nil, or_false, not_or] at hkeys
  simp only [press, hkeys, if_false, false_and, hidle, Option.elim_none, ite_self]

section Press

variable {k : Kernel} {c : UInt8}

theorem process_input_function_key (hkey : c ∈ [F1_KEY_P, F2_KEY_P, F3_KEY_P]) :
    process_input k c = sti (keyFunction (cli k) c) := by
  simp only [List.mem_cons, List.not_mem_nil, or_false] at hkey
  rcases hkey with rfl | rfl | rfl <;> rfl

theorem typed_navigation (kbd : Keyboard) (hkey : c ∈ navigationKeys) : typed kbd c = none := by
  rw [typed, if_neg]
  rintro ⟨-, hspecial, -⟩
  exact hspecial (List.mem_append_right _ hkey)

/-- A switch of terminals leaves the input of all of them. -/
theorem inputState_function_key (hkey : c ∈ [F1_KEY_P, F2_KEY_P, F3_KEY_P]) (t : Fin MAX_TERM_NUM) :
    inputState ((process_input k c).terminals t) = inputState (k.terminals t) := by
  rw [process_input_function_key hkey, sti_toConsole]
  simp only [keyFunction]
  split
  · split
    · exact inputState_switch_terminal (cli k) _ t
    · rfl
  · rfl

/-- The terminals' input after any key but Up and Down. -/
theorem process_input_press (hindex : (k.terminals k.vis_term_id).key_buf_index.toNat < KEY_BUF_SIZE)
    (hup : c ≠ UP_KEY_P) (hdown : c ≠ DOWN_KEY_P) (t : Fin MAX_TERM_NUM) :
    inputState ((process_input k c).terminals t) = inputState ((k.toConsole.setTerm k.vis_term_id
      (press k.toKeyboard (k.terminals k.vis_term_id) c)).terminals t) := by
  by_cases hfunction : c ∈ [F1_KEY_P, F2_KEY_P, F3_KEY_P]
  · have hidle : press k.toKeyboard (k.terminals k.vis_term_id) c = k.terminals k.vis_term_id := by
      refine press_idle ?_ (typed_navigation k.toKeyboard (List.mem_append_left [UP_KEY_P, DOWN_KEY_P] hfunction))
      simp only [List.mem_cons, List.not_mem_nil, or_false] at hfunction
      rcases hfunction with rfl | rfl | rfl <;> decide
    rw [hidle, Console.setTerm_self]
    exact inputState_function_key hfunction t
  have hnav : c ∉ navigationKeys := by
    simp only [List.mem_cons, List.not_mem_nil, or_false, not_or] at hfunction
    simp [navigationKeys, hfunction, hup, hdown]
  refine inputState_of_prints ?_ t
  rw [process_input_toConsole k c hnav]
  simp only [press, hup, hdown, if_false]
  by_cases hback : c = BACKSPACE_P
  · rw [if_pos hback, if_pos hback]
    split
    · rename_i hempty
      rw [Console.setTerm_self, keyBackspace, if_neg (not_not.mpr hempty)]
      exact Prints.refl _
    · rename_i hempty
      exact prints_keyBackspace k.toConsole hempty hindex
  rw [if_neg hback, if_neg hback]
  by_cases henter : c = ENTER_KEY_P
  · rw [if_pos henter, if_pos henter]
    exact prints_keyEnter k.toConsole
  rw [if_neg henter, if_neg henter]
  by_cases hclear : c = L_KEY_P ∧ k.ctrl = true
  · rw [if_pos hclear, if_pos hclear, clear_buffer_eq, (prints_clear_screen k.toConsole).vis_term_id]
    exact (prints_clear_screen k.toConsole).setTerm k.vis_term_id clearLine clearLine_atPos
  rw [if_neg hclear, if_neg hclear]
  split
  · rw [Console.setTerm_self]
    exact Prints.refl _
  · cases typed k.toKeyboard c with
    | none =>
      rw [Option.elim_none, Option.elim_none, Console.setTerm_self]
      exact Prints.refl _
    | some ch =>
      rw [Option.elim_some, Option.elim_some]
      exact prints_putKey k.toConsole ch hindex

/-- The terminals' input after a key. -/
theorem process_input_inputState (hterm : Ordered (k.terminals k.vis_term_id)) (hrange : InRange k.toConsole c)
    (t : Fin MAX_TERM_NUM) : inputState ((process_input k c).terminals t) =
      inputState ((k.toConsole.setTerm k.vis_term_id
        (press k.toKeyboard (k.terminals k.vis_term_id) c)).terminals t) := by
  by_cases hup : c = UP_KEY_P
  · subst hup
    rw [press_up]
    exact inputState_of_prints (prints_keyUp (k := cli k) hterm hrange) t
  by_cases hdown : c = DOWN_KEY_P
  · subst hdown
    rw [press_down]
    exact inputState_of_prints (prints_keyDown (k := cli k) hterm hrange) t
  · exact process_input_press hterm.index_lt hup hdown t

end Press

end lacos.keyboard
