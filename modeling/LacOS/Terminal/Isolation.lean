import LacOS.MultiTerm.Virtual
import LacOS.Terminal.Read

open memory lacos.lib lacos.keyboard

namespace lacos.terminal

/-- The input of a terminal after its line has been delivered: the line is in its
    history, by the rule of `record`, and gone from its key buffer. -/
def delivered (con : Console) (t : Fin MAX_TERM_NUM) : InputState :=
  inputState (clearLine (record ((takeLine con t).terminals t) (line (con.terminals t)).dropLast))

/-- A read for terminal `t` concerns the input of `t` only. -/
def Isolated (t : Fin MAX_TERM_NUM) (con con' : Console) : Prop :=
  (∀ u ≠ t, inputState (con'.terminals u) = inputState (con.terminals u)) ∧
  inputState (con'.terminals t) = delivered con t

/-- Nothing to deliver for `t` and nothing to clear, on either terminal. -/
structure Idle (con : Console) (t visible : Fin MAX_TERM_NUM) : Prop where
  line : line (con.terminals t) = []
  key_buf_index : (con.terminals t).key_buf_index = 0
  cur_hist_index : (con.terminals t).hist_buf_index < HIST_COM_NUM →
    (con.terminals t).cur_hist_index = (con.terminals t).hist_buf_index
  visible_line : keyboard.line (con.terminals visible) = []
  visible_key_buf_index : (con.terminals visible).key_buf_index = 0
  visible_cur_hist_index : (con.terminals visible).hist_buf_index < HIST_COM_NUM →
    (con.terminals visible).cur_hist_index = (con.terminals visible).hist_buf_index

section Read

variable (con : Console)

/-- A read for the visible terminal concerns that terminal only. Nothing is asked of the other
    terminals. -/
theorem isolated_of_visible (hvis : con.vis_term_id = con.sched_term_id)
    (hwipes : ¬ Wipes ((takeLine con con.sched_term_id).terminals con.vis_term_id)
      (line (con.terminals con.sched_term_id))) :
    Isolated con.sched_term_id con (afterRead con) := by
  rw [afterRead_eq con hwipes, hvis]
  constructor
  · intro u hu
    rw [Console.setTerm_other _ _ _ hu, takeLine, Console.setTerm_other _ _ _ hu]
  · rw [Console.setTerm_same]
    rfl

/-- A terminal that recording and clearing leave as it is has nothing to record or
    to clear. -/
theorem inputState_record_eq_iff (term : term_t) (command : List UInt8) (hcommand : line term = [] → command = []) :
    inputState (clearLine (record term command)) = inputState term ↔ line term = [] ∧ term.key_buf_index = 0 ∧
      (term.hist_buf_index < HIST_COM_NUM → term.cur_hist_index = term.hist_buf_index) := by
  constructor
  · intro hsame
    obtain ⟨hkeys, hindex, -, -, -, hcur⟩ := InputState.ext_iff.mp hsame
    simp only [inputState, clearLine_key_buf_index, clearLine_cur_hist_index] at hkeys hindex hcur
    have hline : line term = [] := by
      rw [← line_record term command]
      apply line_eq_nil_of_clear
      rw [hkeys, record_key_buf]
    refine ⟨hline, hindex.symm, fun hroom => ?_⟩
    rw [hcommand hline, record_nil, if_neg (by simpa using hroom)] at hcur
    exact hcur.symm
  · rintro ⟨hline, hindex, hcur⟩
    rw [hcommand hline, record_nil]
    split
    · simp only [inputState, clearLine_of_nil term hline, hindex]
    · rename_i hroom
      rw [clearLine_of_nil _ (show line { term with cur_hist_index := term.hist_buf_index } = [] from hline)]
      simp only [inputState, hindex, hcur (by simpa using hroom)]

/-- While another terminal is visible, only a read with nothing to do is isolated. -/
theorem isolated_iff_idle (hvis : con.vis_term_id ≠ con.sched_term_id)
    (hwipes : ¬ Wipes (con.terminals con.vis_term_id) (line (con.terminals con.sched_term_id))) :
    Isolated con.sched_term_id con (afterRead con) ↔ Idle con con.sched_term_id con.vis_term_id := by
  have hterm : (takeLine con con.sched_term_id).terminals con.vis_term_id = con.terminals con.vis_term_id := by
    rw [takeLine, Console.setTerm_other _ _ _ hvis]
  have hsched : (takeLine con con.sched_term_id).terminals con.sched_term_id =
      { con.terminals con.sched_term_id with new_line := false } := by
    rw [takeLine, Console.setTerm_same]
  have hown := inputState_record_eq_iff { con.terminals con.sched_term_id with new_line := false }
    (line (con.terminals con.sched_term_id)).dropLast fun h => by
      have hline : line (con.terminals con.sched_term_id) = [] := h
      rw [hline, List.dropLast_nil]
  rw [afterRead_eq con (by rwa [hterm]), hterm]
  constructor
  · rintro ⟨hothers, ht⟩
    rw [Console.setTerm_other _ _ _ hvis.symm, delivered, hsched] at ht
    obtain ⟨hline, hindex, hcur⟩ := hown.mp ht.symm
    have hv := hothers con.vis_term_id hvis
    have hcommand : (line (con.terminals con.sched_term_id)).dropLast = [] := by
      have hline' : line (con.terminals con.sched_term_id) = [] := hline
      rw [hline', List.dropLast_nil]
    rw [Console.setTerm_same, inputState_record_eq_iff _ _ fun _ => hcommand] at hv
    obtain ⟨hline', hindex', hcur'⟩ := hv
    exact ⟨hline, hindex, hcur, hline', hindex', hcur'⟩
  · rintro ⟨hline, hindex, hcur, hline', hindex', hcur'⟩
    constructor
    · intro u hu
      by_cases huv : u = con.vis_term_id
      · subst huv
        rw [Console.setTerm_same, inputState_record_eq_iff _ _ fun _ => by rw [hline, List.dropLast_nil]]
        exact ⟨hline', hindex', hcur'⟩
      · rw [Console.setTerm_other _ _ _ huv, takeLine, Console.setTerm_other _ _ _ hu]
    · rw [Console.setTerm_other _ _ _ hvis.symm, delivered, hsched]
      exact (hown.mpr ⟨hline, hindex, hcur⟩).symm

/-- An isolated read without a line leaves the visible terminal's buffers alone. -/
theorem Isolated.visible_buffers (hisolated : Isolated con.sched_term_id con (afterRead con))
    (hline : line (con.terminals con.sched_term_id) = []) :
    ((afterRead con).terminals con.vis_term_id).key_buf = (con.terminals con.vis_term_id).key_buf ∧
      ((afterRead con).terminals con.vis_term_id).hist_buf = (con.terminals con.vis_term_id).hist_buf := by
  obtain ⟨hothers, hown⟩ := hisolated
  by_cases hvis : con.vis_term_id = con.sched_term_id
  · have hterm : (takeLine con con.sched_term_id).terminals con.sched_term_id =
        { con.terminals con.sched_term_id with new_line := false } := by
      rw [takeLine, Console.setTerm_same]
    have hdelivered : delivered con con.sched_term_id =
        inputState { record { con.terminals con.sched_term_id with new_line := false } [] with key_buf_index := 0 } := by
      rw [delivered, hline, List.dropLast_nil, hterm, clearLine_of_nil]
      rw [line_record]
      exact hline
    rw [hvis]
    rw [hdelivered] at hown
    constructor
    · exact (congrArg InputState.key_buf hown).trans (record_key_buf _ _)
    · refine (congrArg InputState.hist_buf hown).trans ?_
      simp only [inputState, record_nil]
      split <;> rfl
  · have hv := hothers _ hvis
    exact ⟨congrArg InputState.key_buf hv, congrArg InputState.hist_buf hv⟩

/-- Filling memory with zeros reaches every terminal. -/
theorem not_isolated_of_wipes
    (hwipes : Wipes ((takeLine con con.sched_term_id).terminals con.vis_term_id)
      (line (con.terminals con.sched_term_id))) : ¬ Isolated con.sched_term_id con (afterRead con) := by
  intro hisolated
  obtain ⟨hkeys, hhist⟩ := Isolated.visible_buffers con hisolated hwipes.1
  have hbuffers : ((takeLine con con.sched_term_id).terminals con.vis_term_id).key_buf =
      (con.terminals con.vis_term_id).key_buf ∧
      ((takeLine con con.sched_term_id).terminals con.vis_term_id).hist_buf =
        (con.terminals con.vis_term_id).hist_buf := by
    by_cases hvis : con.vis_term_id = con.sched_term_id
    · rw [takeLine, hvis, Console.setTerm_same]
      exact ⟨rfl, rfl⟩
    · rw [takeLine, Console.setTerm_other _ _ _ hvis]
      exact ⟨rfl, rfl⟩
  have hindex := hwipes.2.1
  have hprev := hwipes.2.2
  obtain ⟨m, hadd, hwiped⟩ := add_to_history_wipes (takeLine con con.sched_term_id) con.sched_term_id
    (by rw [takeLine_line]; exact hwipes)
  have hzero := hwiped (hist_buf con.vis_term_id
    (((takeLine con con.sched_term_id).terminals con.vis_term_id).hist_buf_index - 1))
    (hist_buf_previous_succ con.vis_term_id _)
  rw [← UInt32.add_zero (hist_buf _ _), show (0 : UInt32) = UInt32.ofNat 0 from rfl, hist_buf_previous,
    Nat.add_zero] at hzero
  have hafter : (afterRead con).terminals con.vis_term_id =
      clearLine { ((takeLine con con.sched_term_id).setTermMem m).terminals con.vis_term_id with
        cur_hist_index := (((takeLine con con.sched_term_id).setTermMem m).terminals
          con.vis_term_id).hist_buf_index } := by
    rw [afterRead, hadd, clear_buffer_eq]
    exact (Console.setTerm_same _ _ _).trans (congrArg clearLine (Console.setTerm_same _ _ _))
  -- The byte that differed from the empty line is zero now.
  obtain ⟨i, hi, hbyte⟩ | ⟨i, hi, hbyte⟩ := previous_zero _ hindex
  · apply hprev
    rw [hbyte, hbuffers.1, ← hkeys, hafter]
    simp only [clearLine]
    split
    · rfl
    · rw [← hi] at hzero
      exact hzero
  · apply hprev
    rw [hbyte, hbuffers.2, ← hhist, hafter]
    rw [← hi] at hzero
    exact hzero

/-- Terminal input isolation: `terminal_read` for the scheduled terminal leaves the input of the
    other terminals alone, and delivers into the history of its own, exactly if its terminal is
    the visible one and it is not left without a line next to a history entry; or if it has
    nothing to deliver or to clear. The terminals and their histories are in any state, and the
    line may be empty. -/
theorem terminal_read_isolated_iff (k : Kernel) (m : Mem) (buf nbytes : UInt32)
    (hready : (k.terminals k.sched_term_id).new_line = true) :
    ∃ n m' k', terminal_read k m buf nbytes = some (n, m', k') ∧
      (Isolated k.sched_term_id k.toConsole k'.toConsole ↔
        ¬ Wipes ((takeLine k.toConsole k.sched_term_id).terminals k.vis_term_id)
          (line (k.terminals k.sched_term_id)) ∧
        (k.vis_term_id = k.sched_term_id ∨ Idle k.toConsole k.sched_term_id k.vis_term_id)) := by
  refine ⟨_, _, _, terminal_read_eq k m buf nbytes hready, ?_⟩
  rw [sti_toConsole, Kernel.onConsole_toConsole, cli_toConsole]
  constructor
  · intro hisolated
    have hwipes : ¬ Wipes ((takeLine k.toConsole k.sched_term_id).terminals k.vis_term_id)
        (line (k.terminals k.sched_term_id)) := fun h => not_isolated_of_wipes k.toConsole h hisolated
    refine ⟨hwipes, or_iff_not_imp_left.mpr fun hvis => ?_⟩
    rw [takeLine, Console.setTerm_other _ _ _ hvis] at hwipes
    exact (isolated_iff_idle k.toConsole hvis hwipes).mp hisolated
  · rintro ⟨hwipes, hcase⟩
    by_cases hvis : k.vis_term_id = k.sched_term_id
    · exact isolated_of_visible k.toConsole hvis hwipes
    · rw [takeLine, Console.setTerm_other _ _ _ hvis] at hwipes
      exact (isolated_iff_idle k.toConsole hvis hwipes).mpr (hcase.resolve_left hvis)

end Read

/-- A line entered on the first terminal, which stays the visible one. -/
def foregroundLine : Kernel := process_input (process_input multi_term.fresh 0x1E) ENTER_KEY_P

/-- Reading the line of the visible terminal is isolated, and delivers that line. -/
theorem terminal_read_isolated_iff_foreground :
    line (foregroundLine.terminals 0) = [0x61, 0x0A] ∧
    ∃ n m' k', terminal_read foregroundLine (fun _ => 0) 0 128 = some (n, m', k') ∧
      Isolated 0 foregroundLine.toConsole k'.toConsole := by
  have hsched : foregroundLine.sched_term_id = 0 := by decide +kernel
  have hwipes : ¬ Wipes ((takeLine foregroundLine.toConsole foregroundLine.sched_term_id).terminals
      foregroundLine.vis_term_id) (line (foregroundLine.terminals foregroundLine.sched_term_id)) := by decide +kernel
  have hvis : foregroundLine.vis_term_id = foregroundLine.sched_term_id := by decide +kernel
  obtain ⟨n, m', k', hread, hiff⟩ := terminal_read_isolated_iff foregroundLine (fun _ => 0) 0 128 (by decide +kernel)
  have hisolated := hiff.mpr ⟨hwipes, Or.inl hvis⟩
  rw [hsched] at hisolated
  exact ⟨by decide +kernel, n, m', k', hread, hisolated⟩

/-- A line entered on the second terminal, which then was switched away from; a
    letter typed on the first; and the second terminal's process scheduled. -/
def backgroundLine : Kernel :=
  let k := multi_term.switch_terminal multi_term.fresh 1
  let k := process_input (process_input k 0x1E) ENTER_KEY_P
  let k := multi_term.switch_terminal k 0
  { process_input k 0x2D with sched_term_id := 1 }

/-- Reading the line of a terminal in the background: its key buffer keeps the line,
    and the letter typed on the visible terminal is gone. -/
theorem background_read_not_isolated :
    ∃ n m' k', terminal_read backgroundLine (fun _ => 0) 0 128 = some (n, m', k') ∧
      (k'.terminals 1).key_buf 0 = 0x61 ∧ (backgroundLine.terminals 0).key_buf 0 = 0x78 ∧
      (k'.terminals 0).key_buf 0 = 0 ∧ ¬ Isolated 1 backgroundLine.toConsole k'.toConsole := by
  have hread : ((terminal_read backgroundLine (fun _ => 0) 0 128).map fun r =>
      ((r.2.2.terminals 1).key_buf 0, (r.2.2.terminals 0).key_buf 0)) = some (0x61, 0) := by decide +kernel
  have hbefore : (backgroundLine.terminals 0).key_buf 0 = 0x78 := by decide +kernel
  obtain ⟨⟨n, m', k'⟩, hrun, hk'⟩ := Option.map_eq_some_iff.mp hread
  obtain ⟨hown, hother⟩ := Prod.mk.inj hk'
  refine ⟨n, m', k', hrun, hown, hbefore, hother, fun hisolated => ?_⟩
  have hsame := congrFun (congrArg InputState.key_buf (hisolated.1 0 (by decide))) 0
  change (k'.terminals 0).key_buf 0 = (backgroundLine.terminals 0).key_buf 0 at hsame
  rw [hbefore, hother] at hsame
  exact absurd hsame (by decide)

end lacos.terminal
