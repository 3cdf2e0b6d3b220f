import LacOS.Keyboard.Erase
import LacOS.Terminal.Navigation

open memory lacos.lib lacos.keyboard trace

namespace lacos.terminal

/-- The commands in the history. -/
def stored (term : term_t) : List (List UInt8) := (List.range term.hist_buf_index.toNat).map (command term)

/-- What the history is for: a command is added to it, unless it is empty or the one before. -/
def remember (history : List (List UInt8)) (cmd : List UInt8) : List (List UInt8) :=
  if cmd = [] ∨ history.getLast? = some cmd then history else history ++ [cmd]

/-- The key buffer holds the command from its twelfth character on, which is where an entry
    before the first one would be. -/
def KeysRepeat (term : term_t) (cmd : List UInt8) : Prop := ∀ j < cmd.length, keyAt term (11 + j) = cmd.getD j 0

instance (term : term_t) (cmd : List UInt8) : Decidable (KeysRepeat term cmd) := by
  unfold KeysRepeat
  infer_instance

/-- The command passes for the one before it without being the same. -/
def Misjudged (term : term_t) (cmd : List UInt8) : Prop :=
  cmd ≠ [] ∧ ((stored term = [] ∧ KeysRepeat term cmd) ∨ ∃ last ∈ (stored term).getLast?, cmd <+: last ∧ cmd ≠ last)

instance (term : term_t) (cmd : List UInt8) : Decidable (Misjudged term cmd) := by
  unfold Misjudged
  infer_instance

section Compare

variable {term : term_t} {cmd : List UInt8} (hnonzero : ∀ c ∈ cmd, c ≠ 0)
include hnonzero

theorem getD_ne_zero {j : Nat} (hj : j < cmd.length) : cmd.getD j 0 ≠ 0 := by
  rw [List.getD_eq_getElem _ _ hj]
  exact hnonzero _ (List.getElem_mem hj)

/-- `strncmp` does not come to the end of the command before. -/
theorem repeats_iff : Repeats term cmd ↔ ∀ j < cmd.length, previous term j = cmd.getD j 0 := by
  constructor
  · intro hrepeats j
    induction j using Nat.strongRecOn with
    | ind j ih =>
      intro hj
      refine hrepeats j hj fun i hi => ?_
      rw [ih i hi (by omega)]
      exact getD_ne_zero hnonzero (by omega)
  · exact fun hsame j hj _ => hsame j hj

/-- A beginning of the line is in the key buffer. -/
theorem prefix_line_iff : cmd <+: line term ↔ ∀ j < cmd.length, keyAt term j = cmd.getD j 0 := by
  have hle := line_length_le term
  have hkey {j : Nat} (hj : j < (line term).length) : keyAt term j = (line term)[j] := by
    rw [keyAt, dif_pos (Nat.lt_of_lt_of_le hj hle), line_getElem term hj]
  constructor
  · intro hbegins j hj
    rw [hkey (Nat.lt_of_lt_of_le hj hbegins.length_le), List.getD_eq_getElem _ _ hj, hbegins.getElem hj]
  · intro hsame
    have hlength : cmd.length ≤ (line term).length := by
      by_contra hlong
      have hend := hsame _ (Nat.not_le.mp hlong)
      refine getD_ne_zero hnonzero (Nat.not_le.mp hlong) (hend.symm.trans ?_)
      by_cases hfull : (line term).length < KEY_BUF_SIZE
      · rw [keyAt, dif_pos hfull]
        exact line_end term hfull
      · rw [keyAt, dif_neg hfull]
    rw [List.prefix_iff_getElem]
    refine ⟨hlength, fun j hj => ?_⟩
    rw [← hkey (Nat.lt_of_lt_of_le hj hlength), hsame j hj, List.getD_eq_getElem _ _ hj]

omit hnonzero in
/-- In a history that is not empty, the command before the next entry is the last entry. For an
    empty one it is not. -/
theorem previous_eq_row (hindex : term.hist_buf_index.toNat < 10) (hused : term.hist_buf_index.toNat ≠ 0) {j : Nat}
    (hj : j < KEY_BUF_SIZE) :
    previous term j = keyAt { term with key_buf := row term (term.hist_buf_index.toNat - 1) } j := by
  have hoff : KEY_BUF + 11 + KEY_BUF_SIZE * term.hist_buf_index.toNat + j =
      HIST_BUF + (KEY_BUF_SIZE * (term.hist_buf_index.toNat - 1) + j) := by
    simp only [KEY_BUF, HIST_BUF, KEY_BUF_SIZE]
    omega
  have hlt : KEY_BUF_SIZE * (term.hist_buf_index.toNat - 1) + j < 10 * KEY_BUF_SIZE := by
    simp only [KEY_BUF_SIZE] at hj ⊢
    omega
  rw [previous, hoff, term.byte_hist_buf 0 hlt, keyAt, dif_pos hj]
  simp only [row, dif_pos hlt]

/-- After the first entry, the comparison asks for a beginning of the last entry. -/
theorem repeats_iff_begins (hindex : term.hist_buf_index.toNat < 10) (hused : term.hist_buf_index.toNat ≠ 0)
    (hlength : cmd.length ≤ KEY_BUF_SIZE) :
    Repeats term cmd ↔ cmd <+: command term (term.hist_buf_index.toNat - 1) := by
  rw [repeats_iff hnonzero, command, prefix_line_iff hnonzero]
  refine forall₂_congr fun j hj => ?_
  rw [previous_eq_row hindex hused (Nat.lt_of_lt_of_le hj hlength)]

/-- Before the first entry, it compares with the key buffer. The padding after it ends the
    comparison. -/
theorem repeats_iff_keysRepeat (hempty : term.hist_buf_index.toNat = 0) :
    Repeats term cmd ↔ KeysRepeat term cmd := by
  have hinside {j : Nat} (hj : j < 118) : previous term j = keyAt term (11 + j) := by
    have hlt : 11 + j < KEY_BUF_SIZE := by
      simp only [KEY_BUF_SIZE]
      omega
    rw [previous, hempty, Nat.mul_zero, Nat.add_zero, Nat.add_assoc, term.byte_key_buf 0 hlt, keyAt, dif_pos hlt]
  have hpadding : previous term 118 = 0 := by
    rw [previous, hempty]
    grind [term_t.byte]
  have houtside {j : Nat} (hj : 118 ≤ j) : keyAt term (11 + j) = 0 := by
    rw [keyAt, dif_neg]
    simp only [KEY_BUF_SIZE]
    omega
  rw [repeats_iff hnonzero, KeysRepeat]
  constructor
  · intro hsame j hj
    rcases Nat.lt_or_ge j 118 with hlt | hge
    · rw [← hinside hlt, hsame j hj]
    · have hzero := hsame 118 (by omega)
      rw [hpadding] at hzero
      exact absurd hzero.symm (getD_ne_zero hnonzero (by omega))
  · intro hsame j hj
    rcases Nat.lt_or_ge j 118 with hlt | hge
    · rw [hinside hlt, hsame j hj]
    · have hzero := hsame j hj
      rw [houtside hge] at hzero
      exact absurd hzero.symm (getD_ne_zero hnonzero hj)

end Compare

section Stored

variable {term : term_t} {cmd : List UInt8}

/-- Only the entries and their number count. -/
theorem stored_congr {term' : term_t} (hhist : term'.hist_buf = term.hist_buf)
    (hnext : term'.hist_buf_index = term.hist_buf_index) : stored term' = stored term := by
  rw [stored, stored, hnext]
  exact List.map_congr_left fun e _ => command_congr hhist e

theorem stored_eq_nil_iff : stored term = [] ↔ term.hist_buf_index.toNat = 0 := by
  rw [stored, List.map_eq_nil_iff, List.range_eq_nil]

/-- The last command stored is the entry before the next one. -/
theorem stored_getLast? (hused : term.hist_buf_index.toNat ≠ 0) :
    (stored term).getLast? = some (command term (term.hist_buf_index.toNat - 1)) := by
  obtain ⟨n, hn⟩ := Nat.exists_eq_succ_of_ne_zero hused
  rw [stored, hn, List.range_succ, List.map_append, List.map_singleton, List.getLast?_concat]
  rfl

variable (hterm : Ordered term) (hroom : term.hist_buf_index.toNat < 10) (hnonzero : ∀ c ∈ cmd, c ≠ 0)
  (hlength : cmd.length < KEY_BUF_SIZE)
include hterm hroom hnonzero hlength

/-- A command that differs from the one before it goes to the end of the history. -/
theorem stored_record_new (hnew : cmd ≠ [] ∧ ¬Repeats term cmd) :
    stored (record term cmd) = stored term ++ [cmd] := by
  have hrow := row_record hroom hnew (Nat.le_of_lt hlength)
  have hnext : (record term cmd).hist_buf_index.toNat = term.hist_buf_index.toNat + 1 := by
    have hfull : ¬ term.hist_buf_index ≥ HIST_COM_NUM := by
      rw [ge_iff_le, UInt32.le_iff_toNat_le]
      exact Nat.not_le.mpr hroom
    rw [record, if_neg hfull, if_pos hnew, UInt32.toNat_add, UInt32.toNat_one]
    omega
  have hbefore : ∀ e ∈ List.range term.hist_buf_index.toNat, command (record term cmd) e = command term e := by
    intro e he
    rw [List.mem_range] at he
    have hsame : row (record term cmd) e = row term e := by
      funext j
      rw [hrow, if_neg fun h => absurd h.1 (Nat.ne_of_lt he)]
    simp only [command, line, hsame]
  have hentry : row (record term cmd) term.hist_buf_index.toNat = fun j => cmd.getD j.val 0 := by
    funext j
    rw [hrow]
    split
    · rfl
    · rename_i hoff
      rw [hterm.unused _ j (Nat.le_refl _), List.getD_eq_default]
      exact Nat.not_lt.mp fun h => hoff ⟨rfl, h⟩
  have hlast : command (record term cmd) term.hist_buf_index.toNat = cmd := by
    rw [command, hentry]
    refine line_eq _ hlength hnonzero (fun i hi => ?_) ?_
    · exact List.getD_eq_getElem _ _ hi
    · exact List.getD_eq_default _ _ (Nat.le_refl _)
  rw [stored, hnext, List.range_succ, List.map_append, List.map_singleton, List.map_congr_left hbefore, hlast, stored]

omit hterm hroom hnonzero hlength in
/-- A command that is empty or passes for a repetition is not recorded. -/
theorem stored_record_old (hold : ¬(cmd ≠ [] ∧ ¬Repeats term cmd)) : stored (record term cmd) = stored term := by
  rw [record]
  split
  · rfl
  · exact stored_congr rfl rfl

omit hterm in
/-- The comparison with the one before, in terms of the commands. -/
theorem misjudged_iff : Misjudged term cmd ↔ cmd ≠ [] ∧ Repeats term cmd ∧ (stored term).getLast? ≠ some cmd := by
  refine and_congr_right fun _ => ?_
  by_cases hempty : term.hist_buf_index.toNat = 0
  · have hnil := stored_eq_nil_iff.mpr hempty
    rw [repeats_iff_keysRepeat hnonzero hempty, hnil]
    simp
  · have hlast := stored_getLast? hempty
    rw [repeats_iff_begins hnonzero hroom hempty (Nat.le_of_lt hlength), hlast]
    constructor
    · rintro (⟨hnil, -⟩ | ⟨last, hmem, hbegins, hother⟩)
      · exact absurd (stored_eq_nil_iff.mp hnil) hempty
      · cases hmem
        exact ⟨hbegins, fun hsame => hother (Option.some.inj hsame).symm⟩
    · rintro ⟨hbegins, hother⟩
      exact .inr ⟨_, rfl, hbegins, fun hsame => hother (congrArg some hsame.symm)⟩

/-- The history becomes what it is meant to be, unless the command is misjudged. -/
theorem stored_record_iff : stored (record term cmd) = remember (stored term) cmd ↔ ¬Misjudged term cmd := by
  rw [misjudged_iff hroom hnonzero hlength, remember]
  by_cases hnew : cmd ≠ [] ∧ ¬Repeats term cmd
  · have hlast : (stored term).getLast? ≠ some cmd := by
      intro hlast
      by_cases hempty : term.hist_buf_index.toNat = 0
      · rw [stored_eq_nil_iff.mpr hempty] at hlast
        cases hlast
      · rw [stored_getLast? hempty, Option.some.injEq] at hlast
        apply hnew.2
        rw [repeats_iff_begins hnonzero hroom hempty (Nat.le_of_lt hlength)]
        exact hlast ▸ List.prefix_rfl
    rw [stored_record_new hterm hroom hnonzero hlength hnew, if_neg (not_or.mpr ⟨hnew.1, hlast⟩)]
    exact iff_of_true rfl fun h => hnew.2 h.2.1
  · rw [stored_record_old hnew]
    by_cases hcmd : cmd = []
    · rw [if_pos (.inl hcmd)]
      exact iff_of_true rfl fun h => h.1 hcmd
    · have hrepeats : Repeats term cmd := by
        by_contra hnot
        exact hnew ⟨hcmd, hnot⟩
      by_cases hlast : (stored term).getLast? = some cmd
      · rw [if_pos (.inr hlast)]
        exact iff_of_true rfl fun h => h.2.2 hlast
      · rw [if_neg (not_or.mpr ⟨hcmd, hlast⟩)]
        exact iff_of_false (by simp) (not_not_intro ⟨hcmd, hrepeats, hlast⟩)

end Stored

/-- The command of a line, which is the line without the newline that ends it. A line that has
    been typed over while it waited may have lost its newline, and is then all command. -/
def commandOf (l : List UInt8) : List UInt8 := if l.getLast? = some 10 then l.dropLast else l

/-- `add_to_history` takes the last character of a line for its newline. It does not record the
    command of the line if it misjudges that command, or if the last character belongs to a
    command that is not the one before. -/
def Misrecorded (term : term_t) (l : List UInt8) : Prop :=
  if l.getLast? = some 10 then Misjudged term l.dropLast else (stored term).getLast? ≠ some l

instance (term : term_t) (l : List UInt8) : Decidable (Misrecorded term l) := by
  unfold Misrecorded
  infer_instance

section Line

variable {term : term_t} {l : List UInt8} (hterm : Ordered term) (hroom : term.hist_buf_index.toNat < 10)
  (hne : l ≠ []) (hnonzero : ∀ c ∈ l, c ≠ 0) (hlength : l.length ≤ KEY_BUF_SIZE)
include hterm hroom hne hnonzero hlength

/-- A line without a newline is recorded only if nothing is to be recorded. -/
theorem stored_record_cut :
    stored (record term l.dropLast) = remember (stored term) l ↔ (stored term).getLast? = some l := by
  have hcut : ∀ c ∈ l.dropLast, c ≠ 0 := fun c hc => hnonzero c (List.dropLast_subset l hc)
  have hshort : l.dropLast.length < KEY_BUF_SIZE := by
    have hpos := List.length_pos_iff.mpr hne
    rw [List.length_dropLast]
    omega
  by_cases hlast : (stored term).getLast? = some l
  · refine iff_of_true ?_ hlast
    have hused : term.hist_buf_index.toNat ≠ 0 := by
      intro hempty
      rw [stored_eq_nil_iff.mpr hempty] at hlast
      cases hlast
    have hrepeats : Repeats term l.dropLast := by
      rw [repeats_iff_begins hcut hroom hused (Nat.le_of_lt hshort)]
      rw [stored_getLast? hused, Option.some.injEq] at hlast
      rw [hlast]
      exact List.dropLast_prefix l
    rw [remember, if_pos (.inr hlast), stored_record_old fun hnew => hnew.2 hrepeats]
  · refine iff_of_false (fun hsame => ?_) hlast
    rw [remember, if_neg (not_or.mpr ⟨hne, hlast⟩)] at hsame
    by_cases hnew : l.dropLast ≠ [] ∧ ¬Repeats term l.dropLast
    · rw [stored_record_new hterm hroom hcut hshort hnew] at hsame
      have hcommand := List.singleton_inj.mp (List.append_cancel_left hsame)
      have hlonger := congrArg List.length hcommand
      have hpos := List.length_pos_iff.mpr hne
      rw [List.length_dropLast] at hlonger
      omega
    · rw [stored_record_old hnew] at hsame
      have hlonger := congrArg List.length hsame
      rw [List.length_append, List.length_singleton] at hlonger
      omega

/-- What a line does to the history, with or without its newline. -/
theorem stored_record_line_iff :
    stored (record term l.dropLast) = remember (stored term) (commandOf l) ↔ ¬Misrecorded term l := by
  rw [commandOf, Misrecorded]
  split
  · have hpos := List.length_pos_iff.mpr hne
    refine stored_record_iff hterm hroom (fun c hc => hnonzero c (List.dropLast_subset l hc)) ?_
    rw [List.length_dropLast]
    omega
  · rw [not_not]
    exact stored_record_cut hterm hroom hne hnonzero hlength

end Line

/-- A kernel, and what the histories of its terminals are meant to hold. -/
structure Recorder where
  kernel : Kernel
  history : Fin MAX_TERM_NUM → List (List UInt8)

/-- The terminal is visible, there is room in its history, and a line is there to be read. -/
def Completed (k : Kernel) : Prop :=
  k.vis_term_id = k.sched_term_id ∧ (k.terminals k.vis_term_id).hist_buf_index < HIST_COM_NUM ∧
    line (k.terminals k.vis_term_id) ≠ []

instance (k : Kernel) : Decidable (Completed k) := inferInstanceAs (Decidable (_ ∧ _))

def Recorder.step (s : Recorder) : InputEvent → Option Recorder
  | .read m buf nbytes =>
    if Completed s.kernel then
      (inputStep s.kernel (.read m buf nbytes)).map fun k =>
        { kernel := k
          history := Function.update s.history s.kernel.vis_term_id
            (remember (s.history s.kernel.vis_term_id) (commandOf (line (s.kernel.terminals s.kernel.vis_term_id)))) }
    else none
  | .key c => (inputStep s.kernel (.key c)).map fun k => { s with kernel := k }
  | .schedule t => (inputStep s.kernel (.schedule t)).map fun k => { s with kernel := k }

/-- Every history holds what it is meant to. -/
def Recorded (s : Recorder) : Prop := ∀ t, stored (s.kernel.terminals t) = s.history t

/-- A key finds the entries it looks for, and the command of a line that is read is recorded. -/
def Judged (s : Recorder) : InputEvent → Prop
  | .key c => InRange s.kernel.toConsole c
  | .read _ _ _ => ¬Misrecorded (s.kernel.terminals s.kernel.vis_term_id)
      (line (s.kernel.terminals s.kernel.vis_term_id))
  | .schedule _ => True

instance (s : Recorder) : (ev : InputEvent) → Decidable (Judged s ev)
  | .key c => inferInstanceAs (Decidable (InRange s.kernel.toConsole c))
  | .read _ _ _ => inferInstanceAs (Decidable (¬Misrecorded _ _))
  | .schedule _ => isTrue trivial

/-- No key touches the commands in the history. -/
theorem press_hist_buf (kbd : Keyboard) (term : term_t) (c : UInt8) :
    (press kbd term c).hist_buf = term.hist_buf ∧ (press kbd term c).hist_buf_index = term.hist_buf_index := by
  rw [press]
  split
  · split <;> exact ⟨rfl, rfl⟩
  · split
    · exact ⟨rfl, rfl⟩
    · split
      · exact ⟨clearLine_hist_buf term, clearLine_hist_buf_index term⟩
      · split
        · exact up_hist_buf
        · split
          · exact down_hist_buf
          · split
            · exact ⟨rfl, rfl⟩
            · cases typed kbd c with
              | none => exact ⟨rfl, rfl⟩
              | some ch => exact ⟨rfl, rfl⟩

/-- No key changes what is stored, if it finds the entries that it looks for. -/
theorem stored_process_input {k : Kernel} {c : UInt8} (hterm : Ordered (k.terminals k.vis_term_id))
    (hrange : InRange k.toConsole c) (t : Fin MAX_TERM_NUM) :
    stored ((process_input k c).terminals t) = stored (k.terminals t) := by
  have hinput := process_input_inputState hterm hrange t
  refine (stored_congr (congrArg InputState.hist_buf hinput) (congrArg InputState.hist_buf_index hinput)).trans ?_
  by_cases ht : t = k.vis_term_id
  · obtain ⟨hhist, hnext⟩ := press_hist_buf k.toKeyboard (k.terminals k.vis_term_id) c
    rw [ht, Console.setTerm_same]
    exact stored_congr hhist hnext
  · rw [Console.setTerm_other _ _ _ ht]

section Read

variable {con : Console} (hvis : con.vis_term_id = con.sched_term_id)
  (hline : line (con.terminals con.vis_term_id) ≠ [])
include hvis hline

/-- A line that is not empty does not make `add_to_history` fill memory with zeros. -/
theorem not_wipes_of_line (term : term_t) : ¬Wipes term (line (con.terminals con.sched_term_id)) := by
  intro hwipes
  rw [← hvis] at hwipes
  exact hline hwipes.1

/-- The history of the terminal that is read. -/
theorem stored_afterRead : stored ((afterRead con).terminals con.vis_term_id) =
    stored (record { con.terminals con.vis_term_id with new_line := false }
      (line (con.terminals con.vis_term_id)).dropLast) := by
  rw [afterRead_eq con (not_wipes_of_line hvis hline _), Console.setTerm_same, ← hvis, takeLine,
    Console.setTerm_same]
  exact stored_congr (clearLine_hist_buf _) (clearLine_hist_buf_index _)

/-- A read records to the visible terminal only. -/
theorem stored_afterRead_other {t : Fin MAX_TERM_NUM} (ht : t ≠ con.vis_term_id) :
    stored ((afterRead con).terminals t) = stored (con.terminals t) := by
  rw [afterRead_eq con (not_wipes_of_line hvis hline _), Console.setTerm_other _ _ _ ht, takeLine,
    Console.setTerm_other _ _ _ (by rwa [← hvis])]

end Read

/-- A read happens on the visible terminal with room in its history, and what is meant to be
    stored changes by its rule. -/
theorem Recorder.step_read {s s' : Recorder} {m : Mem} {buf nbytes : UInt32}
    (hstep : s.step (.read m buf nbytes) = some s') :
    Completed s.kernel ∧ s'.kernel.toConsole = afterRead s.kernel.toConsole ∧
      s'.history = Function.update s.history s.kernel.vis_term_id
        (remember (s.history s.kernel.vis_term_id) (commandOf (line (s.kernel.terminals s.kernel.vis_term_id)))) := by
  rw [Recorder.step] at hstep
  split at hstep
  · obtain ⟨k, hk, rfl⟩ := Option.map_eq_some_iff.mp hstep
    exact ⟨‹_›, (inputStep_read hk).2, rfl⟩
  · cases hstep

/-- The histories are in order and hold what they are meant to. -/
structure Remembers (s : Recorder) : Prop where
  ordered : ∀ t, Ordered (s.kernel.terminals t)
  recorded : Recorded s

section Step

variable {s s' : Recorder} (hs : Remembers s)
include hs

/-- The history of the terminal whose line is read, if the line is there and the history has room. -/
theorem Remembers.afterRead_iff (hcompleted : Completed s.kernel) :
    stored ((afterRead s.kernel.toConsole).terminals s.kernel.vis_term_id) =
      remember (s.history s.kernel.vis_term_id) (commandOf (line (s.kernel.terminals s.kernel.vis_term_id))) ↔
        ¬Misrecorded (s.kernel.terminals s.kernel.vis_term_id)
          (line (s.kernel.terminals s.kernel.vis_term_id)) := by
  obtain ⟨hvis, hroom, hline⟩ := hcompleted
  have hterm := hs.ordered s.kernel.vis_term_id
  have hordered : Ordered { s.kernel.terminals s.kernel.vis_term_id with new_line := false } :=
    hterm.edit rfl rfl hterm.cur_le hterm.index_lt
  rw [stored_afterRead hvis hline, ← hs.recorded s.kernel.vis_term_id]
  exact stored_record_line_iff hordered (index_toNat_lt hroom) hline (fun c => line_nonzero _) (line_length_le _)

/-- A read leaves every history as it is meant to be exactly if the command is recorded. -/
theorem Remembers.read_iff {m : Mem} {buf nbytes : UInt32} (hstep : s.step (.read m buf nbytes) = some s') :
    Recorded s' ↔ ¬Misrecorded (s.kernel.terminals s.kernel.vis_term_id)
      (line (s.kernel.terminals s.kernel.vis_term_id)) := by
  obtain ⟨hcompleted, hcon, hhistory⟩ := Recorder.step_read hstep
  rw [← hs.afterRead_iff hcompleted, ← hcon]
  obtain ⟨hvis, -, hline⟩ := hcompleted
  constructor
  · intro hall
    rw [hall s.kernel.vis_term_id, hhistory, Function.update_self]
  · intro hsame t
    by_cases ht : t = s.kernel.vis_term_id
    · rw [ht, hsame, hhistory, Function.update_self]
    · rw [hhistory, Function.update_of_ne ht, hcon, stored_afterRead_other hvis hline ht, hs.recorded t]

/-- What every judged event preserves. -/
theorem Remembers.step {ev : InputEvent} (hjudged : Judged s ev) (hstep : s.step ev = some s') : Remembers s' := by
  cases ev with
  | key c =>
    cases hstep
    refine ⟨process_input_ordered hs.ordered hjudged, fun t => ?_⟩
    exact (stored_process_input (hs.ordered _) hjudged t).trans (hs.recorded t)
  | read m buf nbytes =>
    obtain ⟨⟨hvis, -, hline⟩, hcon, -⟩ := Recorder.step_read hstep
    refine ⟨fun t => ?_, (hs.read_iff hstep).mpr hjudged⟩
    rw [hcon]
    exact afterRead_ordered hs.ordered (not_wipes_of_line hvis hline _) t
  | schedule t =>
    cases hstep
    exact ⟨hs.ordered, hs.recorded⟩

end Step

/-- History contents: in every run of keys and of lines read on the visible terminal while its
    history has room, the histories hold the commands of the lines, but for empty ones and ones
    that repeat the entry before, as long as no command is misrecorded. A read whose command is
    misrecorded makes them differ. The lines need not have kept their newline. -/
theorem history_contents {s s' : Recorder} {evs : List InputEvent}
    (hordered : ∀ t, Ordered (s.kernel.terminals t)) (hrecorded : Recorded s)
    (hguard : Guarded Recorder.step Judged s evs) (hrun : run Recorder.step s evs = some s') :
    Recorded s' ∧ ∀ m buf nbytes s'', s'.step (.read m buf nbytes) = some s'' →
      (Recorded s'' ↔ ¬Misrecorded (s'.kernel.terminals s'.kernel.vis_term_id)
        (line (s'.kernel.terminals s'.kernel.vis_term_id))) := by
  have hkept : Remembers s' :=
    run_invariant (fun _ _ _ hs hjudged hstep => hs.step hjudged hstep) ⟨hordered, hrecorded⟩ hguard hrun
  exact ⟨hkept.recorded, fun m buf nbytes s'' hstep => hkept.read_iff hstep⟩

/-- Nothing has been entered yet. -/
def Recorder.start : Recorder := { kernel := multi_term.fresh, history := fun _ => [] }

/-- At first nothing is stored and nothing is meant to be. -/
theorem start_recorded : Recorded Recorder.start := by
  have hempty : ∀ t, (multi_term.fresh.terminals t).hist_buf_index.toNat = 0 := by decide +kernel
  exact fun t => stored_eq_nil_iff.mpr (hempty t)

/-- Type the letters with these codes, press Enter, and read the line. -/
def enterLine (codes : List UInt8) : List InputEvent :=
  codes.map .key ++ [.key ENTER_KEY_P, .read (fun _ => 0) 0 128]

/-- The lines a, an empty one, a again and ab. -/
theorem history_contents_four_lines :
    let evs := enterLine [0x1E] ++ enterLine [] ++ enterLine [0x1E] ++ enterLine [0x1E, 0x30]
    ∃ s, run Recorder.step Recorder.start evs = some s ∧ s.history 0 = [[0x61], [0x61, 0x62]] ∧
      stored (s.kernel.terminals 0) = [[0x61], [0x61, 0x62]] := by
  intro evs
  have hguard : Guarded Recorder.step Judged Recorder.start evs := by decide +kernel
  obtain ⟨s, hrun, hhistory⟩ : ∃ s, run Recorder.step Recorder.start evs = some s ∧
      s.history 0 = [[0x61], [0x61, 0x62]] := by
    apply exists_run
    decide +kernel
  obtain ⟨hrecorded, -⟩ := history_contents fresh_ordered start_recorded hguard hrun
  exact ⟨s, hrun, hhistory, (hrecorded 0).trans hhistory⟩

/-- The line a after the line ab is not stored, since it is the beginning of the entry before. -/
theorem beginning_not_recorded :
    ∃ s, run Recorder.step Recorder.start (enterLine [0x1E, 0x30] ++ enterLine [0x1E]) = some s ∧
      s.history 0 = [[0x61, 0x62], [0x61]] ∧ stored (s.kernel.terminals 0) = [[0x61, 0x62]] := by
  apply exists_run
  decide +kernel

end lacos.terminal
