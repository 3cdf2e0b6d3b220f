import LacOS.Terminal.Navigation

open memory lacos.lib lacos.keyboard trace

namespace lacos.terminal

/-- A line that waits to be read, or that is being typed, has a first character. -/
def HasLine (term : term_t) : Prop :=
  term.new_line = true ∨ term.key_buf_index ≠ 0 → term.key_buf ⟨0, by decide⟩ ≠ 0

/-- Keys find the entries they look for in the history. While a line waits on the visible
    terminal, neither Ctrl+L, nor Backspace or Down empties the key buffer, nor does a read
    for another terminal. -/
def KeepsLine (k : Kernel) : InputEvent → Prop
  | .key c =>
    let term := k.terminals k.vis_term_id
    InRange k.toConsole c ∧
      (term.new_line = true → ¬ (c = L_KEY_P ∧ k.ctrl = true) ∧
        (c = BACKSPACE_P → term.key_buf_index ≠ 1) ∧
        (c = DOWN_KEY_P → term.cur_hist_index.toNat + 1 < term.hist_buf_index.toNat))
  | .read _ _ _ => k.vis_term_id = k.sched_term_id ∨ (k.terminals k.vis_term_id).new_line = false
  | .schedule _ => True

instance (k : Kernel) : (ev : InputEvent) → Decidable (KeepsLine k ev)
  | .key c => by
    dsimp only [KeepsLine]
    infer_instance
  | .read _ _ _ => by
    dsimp only [KeepsLine]
    infer_instance
  | .schedule _ => isTrue trivial

section HasLine

variable {term : term_t}

/-- Only the input of a terminal counts. -/
theorem HasLine.congr {term' : term_t} (hline : HasLine term) (hinput : inputState term' = inputState term) :
    HasLine term' := by
  have hready : term'.new_line = term.new_line := congrArg InputState.new_line hinput
  have hindex : term'.key_buf_index = term.key_buf_index := congrArg InputState.key_buf_index hinput
  have hkeys : term'.key_buf = term.key_buf := congrArg InputState.key_buf hinput
  rw [HasLine, hready, hindex, hkeys]
  exact hline

/-- Nothing is asked of a terminal without a line. -/
theorem hasLine_of_empty (hready : term.new_line = false) (hindex : term.key_buf_index = 0) : HasLine term := by
  rintro (h | h)
  · rw [hready] at h
    cases h
  · exact absurd hindex h

variable (hline : HasLine term)
include hline

/-- Erasing leaves the first character of a line that waits, unless it is the only one. -/
theorem HasLine.eraseLast (hempty : term.key_buf_index ≠ 0)
    (hkeeps : term.new_line = true → term.key_buf_index ≠ 1) : HasLine (eraseLast term) := by
  by_cases hone : term.key_buf_index = 1
  · apply hasLine_of_empty
    · change term.new_line = false
      by_contra hready
      exact hkeeps (by simpa using hready) hone
    · change term.key_buf_index - 1 = 0
      rw [hone]
      rfl
  · intro _
    have hone' : term.key_buf_index.toNat ≠ 1 := fun h => hone (UInt32.toNat_inj.mp h)
    have hpos : term.key_buf_index.toNat ≠ 0 := fun h => hempty (UInt32.toNat_inj.mp h)
    change (if 0 = term.key_buf_index.toNat - 1 then 0 else term.key_buf ⟨0, by decide⟩) ≠ 0
    rw [if_neg (by omega)]
    exact hline (.inr hempty)

/-- Enter makes a line with a newline at least. -/
theorem HasLine.endLine : HasLine { endLine term with key_buf_index := 0, new_line := true } := by
  intro _
  change (keyboard.endLine term).key_buf ⟨0, by decide⟩ ≠ 0
  by_cases hzero : term.key_buf_index = 0
  · simp [keyboard.endLine, setKey, hzero, KEY_BUF_SIZE]
  · have hpos : term.key_buf_index.toNat ≠ 0 := fun h => hzero (UInt32.toNat_inj.mp h)
    have hfirst := hline (.inr hzero)
    simp only [keyboard.endLine, setKey, KEY_BUF_SIZE]
    rw [if_neg (by split <;> omega), if_neg (by split <;> omega)]
    exact hfirst

/-- A character typed is no zero. -/
theorem HasLine.addChar {c : UInt8} (hc : c ≠ 0) : HasLine (addChar term c) := by
  intro _
  change (if 0 = term.key_buf_index.toNat then c else term.key_buf ⟨0, by decide⟩) ≠ 0
  split
  · exact hc
  · rename_i hindex
    exact hline (.inr fun h => hindex (by rw [h]; rfl))

omit hline in
/-- Every entry of the history has a first character. -/
theorem hasLine_recalled (hterm : Ordered term) {e : Nat} (he : e < term.hist_buf_index.toNat) :
    HasLine (recalled (clearCommand term) e) := by
  have hpos : 0 < (command (clearCommand term) e).length := by
    rw [List.length_pos_iff, ne_eq, hterm.clearCommand.command_eq_nil_iff, clearCommand_hist_buf_index]
    exact Nat.not_le.mpr he
  intro _
  rw [recalled_key_buf, if_pos hpos]
  exact hterm.clearCommand.recorded e he

/-- A key leaves a line that waits its first character, but for the ones that are excluded while
    it does. -/
theorem HasLine.press (hterm : Ordered term) {kbd : Keyboard} {c : UInt8}
    (hkeeps : term.new_line = true → ¬ (c = L_KEY_P ∧ kbd.ctrl = true) ∧
      (c = BACKSPACE_P → term.key_buf_index ≠ 1) ∧
      (c = DOWN_KEY_P → term.cur_hist_index.toNat + 1 < term.hist_buf_index.toNat)) :
    HasLine (press kbd term c) := by
  have hfree {p : Prop} (hp : p) (hnot : term.new_line = true → ¬ p) : term.new_line = false := by
    by_contra hready
    exact hnot (by simpa using hready) hp
  rw [keyboard.press]
  by_cases hback : c = BACKSPACE_P
  · rw [if_pos hback]
    split
    · exact hline
    · rename_i hempty
      exact hline.eraseLast hempty fun hready => (hkeeps hready).2.1 hback
  rw [if_neg hback]
  by_cases henter : c = ENTER_KEY_P
  · rw [if_pos henter]
    exact hline.endLine
  rw [if_neg henter]
  by_cases hclear : c = L_KEY_P ∧ kbd.ctrl = true
  · rw [if_pos hclear]
    refine hasLine_of_empty ?_ (clearLine_key_buf_index term)
    rw [clearLine_new_line]
    exact hfree hclear fun hready => (hkeeps hready).1
  rw [if_neg hclear]
  by_cases hup : c = UP_KEY_P
  · rw [if_pos hup, up]
    split
    · exact hline
    · rename_i hmoves
      have hcur := hterm.cur_le
      have hpos : term.cur_hist_index.toNat ≠ 0 := fun h => hmoves (UInt32.toNat_inj.mp h)
      exact hasLine_recalled hterm (by omega)
  rw [if_neg hup]
  by_cases hdown : c = DOWN_KEY_P
  · rw [if_pos hdown, down]
    split
    · rename_i hmore
      exact hasLine_recalled hterm hmore
    · rename_i hmore
      exact hasLine_of_empty (hfree hmore fun hready => not_not.mpr ((hkeeps hready).2.2 hdown)) rfl
  rw [if_neg hdown]
  split
  · exact hline
  · cases htyped : typed kbd c with
    | none => exact hline
    | some ch => exact hline.addChar (typed_ne_zero htyped)

end HasLine

section Step

variable {k k' : Kernel}

/-- Every terminal's history is in order and its lines have a first character. -/
structure Kept (k : Kernel) : Prop where
  ordered : ∀ t, Ordered (k.terminals t)
  hasLine : ∀ t, HasLine (k.terminals t)

variable (hk : Kept k)
include hk

/-- A line that waits is not empty. -/
theorem Kept.line_ne_nil {t : Fin MAX_TERM_NUM} (hready : (k.terminals t).new_line = true) :
    line (k.terminals t) ≠ [] := by
  rw [ne_eq, line_eq_nil_iff]
  exact hk.hasLine t (.inl hready)

/-- A key keeps the lines that wait and the histories. -/
theorem Kept.process_input {c : UInt8} (hkeeps : KeepsLine k (.key c)) : Kept (process_input k c) := by
  obtain ⟨hrange, hwaits⟩ := hkeeps
  refine ⟨process_input_ordered hk.ordered hrange, fun t => ?_⟩
  refine HasLine.congr ?_ (process_input_inputState (hk.ordered k.vis_term_id) hrange t)
  by_cases ht : t = k.vis_term_id
  · rw [ht, Console.setTerm_same]
    exact (hk.hasLine k.vis_term_id).press (hk.ordered k.vis_term_id) hwaits
  · rw [Console.setTerm_other _ _ _ ht]
    exact hk.hasLine t

/-- A line that is there does not make `add_to_history` fill memory. -/
theorem Kept.not_wipes (hready : (k.terminals k.sched_term_id).new_line = true) (term : term_t) :
    ¬ Wipes term (line (k.terminals k.sched_term_id)) := fun hwipes => hk.line_ne_nil hready hwipes.1

/-- A read clears the visible terminal, which must not have a line that waits unless it is the one
    that is read. -/
theorem Kept.afterRead (hready : (k.terminals k.sched_term_id).new_line = true)
    (hkeeps : k.vis_term_id = k.sched_term_id ∨ (k.terminals k.vis_term_id).new_line = false)
    (t : Fin MAX_TERM_NUM) : HasLine ((afterRead k.toConsole).terminals t) := by
  rw [afterRead_eq k.toConsole (hk.not_wipes hready _)]
  by_cases ht : t = k.vis_term_id
  · rw [ht, Console.setTerm_same]
    refine hasLine_of_empty ?_ (clearLine_key_buf_index _)
    rw [clearLine_new_line, record_new_line, takeLine]
    by_cases hvis : k.vis_term_id = k.sched_term_id
    · rw [hvis, Console.setTerm_same]
    · rw [Console.setTerm_other _ _ _ hvis]
      exact hkeeps.resolve_left hvis
  · rw [Console.setTerm_other _ _ _ ht]
    by_cases hsched : t = k.sched_term_id
    · rw [takeLine, hsched, Console.setTerm_same]
      rintro (h | h)
      · cases h
      · exact hk.hasLine k.sched_term_id (.inr h)
    · rw [takeLine, Console.setTerm_other _ _ _ hsched]
      exact hk.hasLine t

/-- One event keeps the lines that wait. By cases on it. -/
theorem Kept.step {ev : InputEvent} (hkeeps : KeepsLine k ev) (hstep : inputStep k ev = some k') : Kept k' := by
  cases ev with
  | key c =>
    cases hstep
    exact hk.process_input hkeeps
  | read m buf nbytes =>
    obtain ⟨hready, hcon⟩ := inputStep_read hstep
    refine ⟨fun t => ?_, fun t => ?_⟩
    · rw [hcon]
      exact afterRead_ordered hk.ordered (hk.not_wipes hready _) t
    · rw [hcon]
      exact hk.afterRead hready hkeeps t
  | schedule t =>
    cases hstep
    exact ⟨hk.ordered, hk.hasLine⟩

end Step

/-- `add_to_history` gets a command whose length less one does not wrap around, and the copy of
    so many bytes changes nothing outside the entry that is next, on the console with that
    entry counted in. -/
structure SafeRecord (con : Console) (command : UInt32) : Prop where
  nonempty : con.termMem command ≠ 0
  size : (strlen con.termMem command - 1).toNat + 1 = (strlen con.termMem command).toNat
  size_le : (strlen con.termMem command - 1).toNat ≤ KEY_BUF_SIZE - 1
  inside : ∀ a,
    KEY_BUF_SIZE ≤ (a - hist_buf con.vis_term_id (con.terminals con.vis_term_id).hist_buf_index).toNat →
    let con' := con.setTerm con.vis_term_id { con.terminals con.vis_term_id with
      hist_buf_index := (con.terminals con.vis_term_id).hist_buf_index + 1 }
    strncpy con'.termMem (hist_buf con.vis_term_id (con.terminals con.vis_term_id).hist_buf_index) command
      (strlen con.termMem command - 1) a = con'.termMem a

/-- A line that is not empty is recorded within the next entry, also by an `add_to_history` for
    another terminal. -/
theorem safeRecord_of_line (con : Console) (t : Fin MAX_TERM_NUM) (hline : line (con.terminals t) ≠ []) :
    SafeRecord con (key_buf t) := by
  have hsize := command_size con t hline
  have hle := line_length_le (con.terminals t)
  have hpos := List.length_pos_iff.mpr hline
  rw [List.length_dropLast] at hsize
  refine ⟨?_, ?_, ?_, fun a ha => ?_⟩
  · have hfirst := line_byte con t hpos
    rw [show UInt32.ofNat 0 = 0 from rfl, UInt32.add_zero] at hfirst
    rw [hfirst]
    exact line_nonzero _ (List.getElem_mem hpos)
  · rw [hsize, strlen_line]
    omega
  · rw [hsize]
    omega
  · exact strncpy_outside _ _ _ _ (by omega)

/-- History write safety along every run of keys, reads and scheduling that never takes a waiting
    line away: whenever a read can be made, the line it hands to `add_to_history` is not empty,
    its length less one is no more than 128, and the copy stays in one entry. The histories may be
    full, and the lines may be completed on any terminal. -/
theorem history_write_safe {k s : Kernel} {evs : List InputEvent} (hordered : ∀ t, Ordered (k.terminals t))
    (hline : ∀ t, HasLine (k.terminals t)) (hguard : Guarded inputStep KeepsLine k evs)
    (hrun : run inputStep k evs = some s) (hready : (s.terminals s.sched_term_id).new_line = true) :
    SafeRecord (takeLine s.toConsole s.sched_term_id) (key_buf s.sched_term_id) := by
  have hkept : Kept s := run_invariant (fun _ _ _ hk hkeeps hstep => hk.step hkeeps hstep) ⟨hordered, hline⟩
    hguard hrun
  apply safeRecord_of_line
  rw [takeLine_line]
  exact hkept.line_ne_nil hready

theorem fresh_hasLine (t : Fin MAX_TERM_NUM) : HasLine (multi_term.fresh.terminals t) := by
  have hzero : ∀ t, (multi_term.fresh.terminals t).new_line = false ∧
      (multi_term.fresh.terminals t).key_buf_index = 0 := by decide +kernel
  exact hasLine_of_empty (hzero t).1 (hzero t).2

/-- A line waits after one command, Up on it and Enter. -/
theorem history_write_safe_recalled :
    ∃ s, run inputStep multi_term.fresh (oneCommand ++ [.key UP_KEY_P, .key ENTER_KEY_P]) = some s ∧
      (s.terminals s.sched_term_id).new_line = true ∧
      SafeRecord (takeLine s.toConsole s.sched_term_id) (key_buf s.sched_term_id) := by
  obtain ⟨s, hrun, hready⟩ : ∃ s, run inputStep multi_term.fresh
      (oneCommand ++ [.key UP_KEY_P, .key ENTER_KEY_P]) = some s ∧
      (s.terminals s.sched_term_id).new_line = true := by
    apply exists_run
    decide +kernel
  exact ⟨s, hrun, hready, history_write_safe fresh_ordered fresh_hasLine (by decide +kernel) hrun hready⟩

/-- A command is in the history; then a letter, Enter and Ctrl+L before the line is read. The
    read finds no line, so the length is -1, and `add_to_history` would fill memory. -/
theorem cleared_line_wipes :
    ∃ s, run inputStep multi_term.fresh
        (oneCommand ++ [.key 0x1E, .key ENTER_KEY_P, .key CTRL_KEY_P, .key L_KEY_P]) = some s ∧
      (s.terminals s.sched_term_id).new_line = true ∧
      (takeLine s.toConsole s.sched_term_id).termMem (key_buf s.sched_term_id) = 0 ∧
      strlen (takeLine s.toConsole s.sched_term_id).termMem (key_buf s.sched_term_id) - 1 = 0xFFFFFFFF ∧
      Wipes ((takeLine s.toConsole s.sched_term_id).terminals s.vis_term_id)
        (line (s.terminals s.sched_term_id)) := by
  apply exists_run
  decide +kernel

end lacos.terminal
