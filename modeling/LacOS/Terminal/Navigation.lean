import LacOS.Base.Run
import LacOS.Keyboard.Ordered
import LacOS.MultiTerm.Virtual
import LacOS.Terminal.Read

open memory lacos.lib lacos.keyboard trace

namespace lacos.terminal

/-- A key is pressed or released, a line is read, or the scheduler moves on to
    another terminal. -/
inductive InputEvent where
  | key (c : UInt8)
  | read (m : Mem) (buf nbytes : UInt32)
  | schedule (t : Fin MAX_TERM_NUM)

/-- A read is possible once there is a line. -/
def inputStep (k : Kernel) : InputEvent → Option Kernel
  | .key c => some (process_input k c)
  | .read m buf nbytes => (terminal_read k m buf nbytes).map fun (_, _, k) => k
  | .schedule t => some { k with sched_term_id := t }

/-- The event neither takes what lies around the history for an entry of it, nor fills
    memory with zeros. -/
def InBounds (k : Kernel) : InputEvent → Prop
  | .key c => InRange k.toConsole c
  | .read _ _ _ =>
    ¬ Wipes ((takeLine k.toConsole k.sched_term_id).terminals k.vis_term_id) (line (k.terminals k.sched_term_id))
  | .schedule _ => True

instance (k : Kernel) : (ev : InputEvent) → Decidable (InBounds k ev)
  | .key c => inferInstanceAs (Decidable (InRange k.toConsole c))
  | .read _ _ _ => by
    dsimp only [InBounds]
    infer_instance
  | .schedule _ => isTrue trivial

section Step

variable {k k' : Kernel} {m : Mem} {buf nbytes : UInt32}

/-- A read finds a line and leaves the console as `afterRead` says, whatever its buffer is. -/
theorem inputStep_read (hstep : inputStep k (.read m buf nbytes) = some k') :
    (k.terminals k.sched_term_id).new_line = true ∧ k'.toConsole = afterRead k.toConsole := by
  obtain ⟨result, hread, rfl⟩ := Option.map_eq_some_iff.mp hstep
  have hready := terminal_read_ready hread
  rw [terminal_read_eq k m buf nbytes hready] at hread
  cases hread
  exact ⟨hready, rfl⟩

/-- Taking a line does not touch a history. -/
theorem takeLine_ordered {con : Console} (hterms : ∀ t, Ordered (con.terminals t)) (t u : Fin MAX_TERM_NUM) :
    Ordered ((takeLine con t).terminals u) := by
  by_cases hu : u = t
  · rw [takeLine, hu, Console.setTerm_same]
    exact (hterms t).edit rfl rfl (hterms t).cur_le (hterms t).index_lt
  · rw [takeLine, Console.setTerm_other _ _ _ hu]
    exact hterms u

/-- Recording the line, without its newline, keeps the history in order. -/
theorem record_line_ordered {term : term_t} (hterm : Ordered term) (source : term_t) :
    Ordered (record term (line source).dropLast) := by
  have hle := line_length_le source
  apply hterm.record
  · intro c hc
    exact line_nonzero source ((List.dropLast_sublist _).subset hc)
  · rw [List.length_dropLast]
    simp only [KEY_BUF_SIZE] at hle ⊢
    omega

/-- A read keeps the histories in order, unless it fills memory with zeros. -/
theorem afterRead_ordered {con : Console} (hterms : ∀ t, Ordered (con.terminals t))
    (hwipes : ¬ Wipes ((takeLine con con.sched_term_id).terminals con.vis_term_id)
      (line (con.terminals con.sched_term_id))) (t : Fin MAX_TERM_NUM) :
    Ordered ((afterRead con).terminals t) := by
  rw [afterRead_eq con hwipes]
  by_cases ht : t = con.vis_term_id
  · rw [ht, Console.setTerm_same]
    exact (record_line_ordered (takeLine_ordered hterms _ _) _).clearLine
  · rw [Console.setTerm_other _ _ _ ht]
    exact takeLine_ordered hterms _ t

/-- A key that finds the entries it looks for keeps the histories in order. -/
theorem process_input_ordered {c : UInt8} (hterms : ∀ t, Ordered (k.terminals t))
    (hrange : InRange k.toConsole c) (t : Fin MAX_TERM_NUM) : Ordered ((process_input k c).terminals t) := by
  refine Ordered.congr ?_ (process_input_inputState (hterms k.vis_term_id) hrange t)
  by_cases ht : t = k.vis_term_id
  · rw [ht, Console.setTerm_same]
    exact (hterms k.vis_term_id).press k.toKeyboard c
  · rw [Console.setTerm_other _ _ _ ht]
    exact hterms t

/-- No event within bounds puts a history out of order. -/
theorem inputStep_ordered {ev : InputEvent} (hterms : ∀ t, Ordered (k.terminals t)) (hbounds : InBounds k ev)
    (hstep : inputStep k ev = some k') (t : Fin MAX_TERM_NUM) : Ordered (k'.terminals t) := by
  cases ev with
  | key c =>
    cases hstep
    exact process_input_ordered hterms hbounds t
  | read m buf nbytes =>
    rw [(inputStep_read hstep).2]
    exact afterRead_ordered hterms hbounds t
  | schedule u =>
    cases hstep
    exact hterms t

end Step

/-- Behind what is cleared with the current command there is nothing in the key buffer. -/
def Tidy (term : term_t) : Prop := ∀ i : Fin KEY_BUF_SIZE, extent term ≤ i.val → term.key_buf i = 0

instance (term : term_t) : Decidable (Tidy term) := by
  unfold Tidy
  infer_instance

/-- The line is the current entry of the history, or empty if that is the next one. -/
def Shows (term : term_t) : Prop :=
  line term = if term.cur_hist_index = term.hist_buf_index then [] else command term term.cur_hist_index.toNat

theorem Tidy.congr {term term' : term_t} (htidy : Tidy term) (hinput : inputState term' = inputState term) :
    Tidy term' := by
  have hkeys : term'.key_buf = term.key_buf := congrArg InputState.key_buf hinput
  have hindex : term'.key_buf_index = term.key_buf_index := congrArg InputState.key_buf_index hinput
  have hextent : extent term' = extent term := by simp only [extent, line, hkeys, hindex]
  rw [Tidy, hextent, hkeys]
  exact htidy

section Recall

variable {term : term_t} (hterm : Ordered term) (htidy : Tidy term)

include htidy in
/-- With nothing behind the current command, clearing it empties the key buffer. -/
theorem Tidy.cleared (i : Fin KEY_BUF_SIZE) : (clearCommand term).key_buf i = 0 := by
  by_cases hi : i.val < extent term
  · exact if_pos hi
  · exact (if_neg hi).trans (htidy i (Nat.not_lt.mp hi))

include hterm

omit hterm in
theorem Shows.congr {term' : term_t} (hshows : Shows term) (hinput : inputState term' = inputState term) :
    Shows term' := by
  have hkeys : term'.key_buf = term.key_buf := congrArg InputState.key_buf hinput
  have hcur : term'.cur_hist_index = term.cur_hist_index := congrArg InputState.cur_hist_index hinput
  have hnext : term'.hist_buf_index = term.hist_buf_index := congrArg InputState.hist_buf_index hinput
  have hline : line term' = line term := by simp only [line, hkeys]
  rw [Shows, hline, hcur, hnext, command_congr (congrArg InputState.hist_buf hinput)]
  exact hshows

/-- The line shown is the current entry. -/
theorem shows_iff : Shows term ↔ line term = command term term.cur_hist_index.toNat := by
  rw [Shows]
  split
  · rename_i hlast
    rw [hlast, (hterm.command_eq_nil_iff _).mpr (Nat.le_refl _)]
  · rfl

/-- A command recalled into an empty key buffer is the line. -/
theorem line_recall (hclear : ∀ i, term.key_buf i = 0) (e : Nat) : line (recalled term e) = command term e := by
  have hlength := hterm.command_length_lt e
  apply line_eq _ hlength
  · intro c hc
    exact line_nonzero _ hc
  · intro i hi
    have hentry := line_getElem { term with key_buf := row term e } hi
    rw [recalled_key_buf, if_pos hi]
    exact hentry.symm
  · rw [recalled_key_buf, if_neg (Nat.lt_irrefl _)]
    exact hclear _

include htidy

/-- A command recalled in place of the current one. -/
theorem shows_recall {e : Nat} (he : e ≤ 10) : line (recalled (clearCommand term) e) =
    command (recalled (clearCommand term) e) (recalled (clearCommand term) e).cur_hist_index.toNat := by
  rw [recalled_cur_hist_index, UInt32.toNat_ofNat_of_lt' (by simp only [UInt32.size]; omega),
    command_congr (recalled_hist_buf _ _)]
  exact line_recall hterm.clearCommand htidy.cleared e

/-- After Up the line is the current entry, if there is one above. -/
theorem shows_up (hmoves : term.cur_hist_index ≠ 0) : Shows (up term) := by
  have hcur := hterm.cur_le
  have hhist := hterm.hist_le
  rw [shows_iff hterm.up, up, if_neg hmoves]
  exact shows_recall hterm htidy (by omega)

/-- After Down the line is the current entry, or empty behind the last one. -/
theorem shows_down : Shows (down term) := by
  have hhist := hterm.hist_le
  rw [shows_iff hterm.down, down]
  split
  · exact shows_recall hterm htidy (by omega)
  · have hline : line { clearCommand term with cur_hist_index := term.hist_buf_index } = [] :=
      (line_eq_nil_iff _).mpr (htidy.cleared _)
    rw [hline]
    exact ((hterm.command_eq_nil_iff _).mpr (Nat.le_refl _)).symm

/-- After Up the key buffer holds the command and nothing else. -/
theorem tidy_up (hmoves : term.cur_hist_index ≠ 0) : Tidy (up term) := by
  obtain ⟨e, he⟩ : ∃ e, term.cur_hist_index.toNat - 1 = e := ⟨_, rfl⟩
  have hcur := hterm.cur_le
  have hpos : term.cur_hist_index.toNat ≠ 0 := fun h => hmoves (UInt32.toNat_inj.mp h)
  have hlength := hterm.clearCommand.command_length_lt e
  have hentry : (recalled (clearCommand term) e).key_buf_index ≠ 0 := by
    rw [recalled_key_buf_index, ne_eq, hterm.clearCommand.size_eq_zero_iff, clearCommand_hist_buf_index]
    omega
  rw [up, if_neg hmoves, he]
  intro i hi
  rw [extent, if_neg hentry, recalled_key_buf_index,
    UInt32.toNat_ofNat_of_lt' (Nat.lt_trans hlength (by decide))] at hi
  rw [recalled_key_buf, if_neg (Nat.not_lt.mpr hi)]
  exact htidy.cleared i

omit htidy in
/-- Up goes to the entry before, unless it is at the first. -/
theorem up_cur_hist_index (hmoves : term.cur_hist_index ≠ 0) :
    (up term).cur_hist_index.toNat + 1 = term.cur_hist_index.toNat := by
  have hcur := hterm.cur_le
  have hhist := hterm.hist_le
  have hpos : term.cur_hist_index.toNat ≠ 0 := fun h => hmoves (UInt32.toNat_inj.mp h)
  rw [up, if_neg hmoves, recalled_cur_hist_index, UInt32.toNat_ofNat_of_lt' (by simp only [UInt32.size]; omega)]
  omega

omit htidy in
/-- Down moves to the next entry, unless the current one is the next to be used. -/
theorem down_cur_hist_index (hmoves : term.cur_hist_index.toNat < term.hist_buf_index.toNat) :
    (down term).cur_hist_index.toNat = term.cur_hist_index.toNat + 1 := by
  have hhist := hterm.hist_le
  rw [down]
  split
  · rw [recalled_cur_hist_index, UInt32.toNat_ofNat_of_lt' (by simp only [UInt32.size]; omega)]
  · change term.hist_buf_index.toNat = _
    omega

omit hterm htidy in
theorem up_hist_buf : (up term).hist_buf = term.hist_buf ∧ (up term).hist_buf_index = term.hist_buf_index := by
  rw [up]
  split <;> simp only [recalled_hist_buf, recalled_hist_buf_index, clearCommand_hist_buf,
    clearCommand_hist_buf_index, and_self]

omit hterm htidy in
theorem down_hist_buf :
    (down term).hist_buf = term.hist_buf ∧ (down term).hist_buf_index = term.hist_buf_index := by
  rw [down]
  split <;> simp only [recalled_hist_buf, recalled_hist_buf_index, clearCommand_hist_buf,
    clearCommand_hist_buf_index, and_self]

end Recall

section Navigate

/-- The entries that `add_to_history` looks at or writes. -/
def recordedEntries (con : Console) (command : UInt32) : List UInt32 :=
  let t := con.vis_term_id
  let index := (con.terminals t).hist_buf_index
  if index ≥ HIST_COM_NUM then []
  else
    let buf_size := strlen con.termMem command - 1
    if buf_size = 0 then []
    else if strncmp con.termMem (hist_buf t (index - 1)) con.termMem command buf_size = 0 then [index - 1]
    else [index - 1, index]

/-- The entries of the history an event looks at or writes. -/
def historyAccesses (k : Kernel) : InputEvent → List UInt32
  | .key c =>
    let cur := (k.terminals k.vis_term_id).cur_hist_index
    if c = UP_KEY_P then [cur - 1] else if c = DOWN_KEY_P then [cur, cur + 1] else []
  | .read _ _ _ => recordedEntries (takeLine k.toConsole k.sched_term_id) (key_buf k.sched_term_id)
  | .schedule _ => []

/-- Up is not pressed at the first entry and Down not at the last one, and no command is
    recorded into an empty history. -/
def WithinHistory (k : Kernel) : InputEvent → Prop
  | .key c =>
    (c = UP_KEY_P → (k.terminals k.vis_term_id).cur_hist_index ≠ 0) ∧
      (c = DOWN_KEY_P → (k.terminals k.vis_term_id).cur_hist_index.toNat + 1 < 10)
  | .read _ _ _ =>
    (k.terminals k.vis_term_id).hist_buf_index ≠ 0 ∨ (line (k.terminals k.sched_term_id)).length = 1
  | .schedule _ => True

/-- The event is within bounds, and Up or Down finds nothing in the key buffer behind the
    current command. -/
def Navigable (k : Kernel) (ev : InputEvent) : Prop :=
  InBounds k ev ∧
    match ev with
    | .key c => c = UP_KEY_P ∨ c = DOWN_KEY_P → Tidy (k.terminals k.vis_term_id)
    | .read _ _ _ | .schedule _ => True

instance (k : Kernel) : (ev : InputEvent) → Decidable (Navigable k ev)
  | .key c => by
    dsimp only [Navigable]
    infer_instance
  | .read m buf nbytes => inferInstanceAs (Decidable (InBounds k (.read m buf nbytes) ∧ True))
  | .schedule t => inferInstanceAs (Decidable (InBounds k (.schedule t) ∧ True))

/-- After an Up or a Down that moves, the line is the current entry; and Down takes an Up
    back. -/
structure Recalls (k : Kernel) (ev : InputEvent) (k' : Kernel) : Prop where
  shows : ev = .key UP_KEY_P ∨ ev = .key DOWN_KEY_P →
    (k'.terminals k.vis_term_id).cur_hist_index ≠ (k.terminals k.vis_term_id).cur_hist_index →
    Shows (k'.terminals k.vis_term_id)
  undone : ev = .key UP_KEY_P →
    (k'.terminals k.vis_term_id).cur_hist_index ≠ (k.terminals k.vis_term_id).cur_hist_index →
    let term := (process_input k' DOWN_KEY_P).terminals k.vis_term_id
    term.cur_hist_index = (k.terminals k.vis_term_id).cur_hist_index ∧ Shows term ∧
      (Shows (k.terminals k.vis_term_id) → line term = line (k.terminals k.vis_term_id))

/-- The comparison of the source with an unsigned number that may be -1. -/
theorem previous_lt_iff {i : UInt32} (hi : i.toNat ≤ 10) : i - 1 < HIST_COM_NUM ↔ i ≠ 0 := by
  have hten : HIST_COM_NUM.toNat = 10 := by decide
  rw [UInt32.lt_iff_toNat_lt, hten, ne_eq, ← UInt32.toNat_inj, UInt32.toNat_sub, UInt32.toNat_one,
    UInt32.toNat_zero]
  omega

variable {k k' : Kernel} (hterms : ∀ t, Ordered (k.terminals t))
include hterms

/-- The accesses of `add_to_history` for a line that is read. -/
theorem recordedEntries_within :
    (∀ i ∈ recordedEntries (takeLine k.toConsole k.sched_term_id) (key_buf k.sched_term_id), i < HIST_COM_NUM) ↔
      (k.terminals k.vis_term_id).hist_buf_index ≠ 0 ∨ (line (k.terminals k.sched_term_id)).length = 1 := by
  have hindex : ((takeLine k.toConsole k.sched_term_id).terminals k.vis_term_id).hist_buf_index =
      (k.terminals k.vis_term_id).hist_buf_index := by
    by_cases hvis : k.vis_term_id = k.sched_term_id
    · rw [takeLine, hvis, Console.setTerm_same]
    · rw [takeLine, Console.setTerm_other _ _ _ hvis]
  have hle := line_length_le (k.terminals k.sched_term_id)
  have hsize : strlen (takeLine k.toConsole k.sched_term_id).termMem (key_buf k.sched_term_id) - 1 = 0 ↔
      (line (k.terminals k.sched_term_id)).length = 1 := by
    have hlength := strlen_line (takeLine k.toConsole k.sched_term_id) k.sched_term_id
    rw [takeLine_line] at hlength
    rw [UInt32.sub_eq_iff_eq_add, UInt32.zero_add, ← UInt32.toNat_inj, hlength, UInt32.toNat_one]
  have hvis : (takeLine k.toConsole k.sched_term_id).vis_term_id = k.vis_term_id := rfl
  have hprev := previous_lt_iff (hterms k.vis_term_id).hist_le
  simp only [recordedEntries, hvis, hindex, hsize]
  by_cases hfull : (k.terminals k.vis_term_id).hist_buf_index ≥ HIST_COM_NUM
  · have hused : (k.terminals k.vis_term_id).hist_buf_index ≠ 0 := by
      intro hzero
      rw [hzero] at hfull
      exact absurd hfull (by decide)
    simp [hfull, hused]
  · by_cases hone : (line (k.terminals k.sched_term_id)).length = 1
    · simp [hone]
    · have hroom : (k.terminals k.vis_term_id).hist_buf_index < HIST_COM_NUM := by simpa using hfull
      rw [if_neg hfull, if_neg hone]
      split
      · simp [hprev, hone]
      · simp [hprev, hone, hroom]

/-- The history is accessed outside its ten entries exactly by the events named. -/
theorem historyAccesses_within (ev : InputEvent) :
    (∀ i ∈ historyAccesses k ev, i < HIST_COM_NUM) ↔ WithinHistory k ev := by
  cases ev with
  | key c =>
    have hcur := Nat.le_trans (hterms k.vis_term_id).cur_le (hterms k.vis_term_id).hist_le
    have hprev := previous_lt_iff hcur
    by_cases hup : c = UP_KEY_P
    · have hdown : ¬ c = DOWN_KEY_P := by
        rw [hup]
        decide
      simp only [historyAccesses, WithinHistory, if_pos hup, List.mem_singleton, forall_eq, hprev]
      exact ⟨fun hne => ⟨fun _ => hne, fun h => absurd h hdown⟩, fun h => h.1 hup⟩
    · by_cases hdown : c = DOWN_KEY_P
      · have hnext : (∀ i ∈ [(k.terminals k.vis_term_id).cur_hist_index,
            (k.terminals k.vis_term_id).cur_hist_index + 1], i < HIST_COM_NUM) ↔
              (k.terminals k.vis_term_id).cur_hist_index.toNat + 1 < 10 := by
          have hten : HIST_COM_NUM.toNat = 10 := by decide
          simp only [List.mem_cons, List.not_mem_nil, or_false, forall_eq_or_imp, forall_eq,
            UInt32.lt_iff_toNat_lt, hten, UInt32.toNat_add, UInt32.toNat_one]
          omega
        simp only [historyAccesses, WithinHistory, if_neg hup, if_pos hdown, hnext]
        exact ⟨fun hlt => ⟨fun h => absurd h hup, fun _ => hlt⟩, fun h => h.2 hdown⟩
      · simp [historyAccesses, WithinHistory, hup, hdown]
  | read m buf nbytes => exact recordedEntries_within hterms
  | schedule t => simp [historyAccesses, WithinHistory]

/-- What a key leaves of the visible terminal's input. -/
theorem press_inputState {c : UInt8} (hrange : InRange k.toConsole c) :
    inputState ((process_input k c).terminals k.vis_term_id) =
      inputState (press k.toKeyboard (k.terminals k.vis_term_id) c) := by
  have hinput := process_input_inputState (hterms k.vis_term_id) hrange k.vis_term_id
  rwa [Console.setTerm_same] at hinput

/-- Up does to the input what `up` says. -/
theorem process_input_up (hrange : InRange k.toConsole UP_KEY_P) :
    inputState ((process_input k UP_KEY_P).terminals k.vis_term_id) =
      inputState (up (k.terminals k.vis_term_id)) := by
  rw [press_inputState hterms hrange, press_up]

/-- Down does to the input what `down` says. -/
theorem process_input_down (hrange : InRange k.toConsole DOWN_KEY_P) :
    inputState ((process_input k DOWN_KEY_P).terminals k.vis_term_id) =
      inputState (down (k.terminals k.vis_term_id)) := by
  rw [press_inputState hterms hrange, press_down]

theorem shows_process_input_down (hrange : InRange k.toConsole DOWN_KEY_P)
    (htidy : Tidy (k.terminals k.vis_term_id)) : Shows ((process_input k DOWN_KEY_P).terminals k.vis_term_id) :=
  (shows_down (hterms k.vis_term_id) htidy).congr (process_input_down hterms hrange)

theorem process_input_up_vis_term_id (hrange : InRange k.toConsole UP_KEY_P) :
    (process_input k UP_KEY_P).vis_term_id = k.vis_term_id := by
  have hprocess : process_input k UP_KEY_P = sti (keyUp (cli k)) := rfl
  rw [hprocess, sti_toConsole, (prints_keyUp (k := cli k) (hterms k.vis_term_id) hrange).vis_term_id]
  rfl

/-- Up, then Down. -/
theorem recalls_up (hrange : InRange k.toConsole UP_KEY_P) (htidy : Tidy (k.terminals k.vis_term_id))
    (hmoves : (k.terminals k.vis_term_id).cur_hist_index ≠ 0) :
    let k' := process_input k UP_KEY_P
    let term := (process_input k' DOWN_KEY_P).terminals k.vis_term_id
    Shows (k'.terminals k.vis_term_id) ∧ term.cur_hist_index = (k.terminals k.vis_term_id).cur_hist_index ∧
      Shows term ∧ (Shows (k.terminals k.vis_term_id) → line term = line (k.terminals k.vis_term_id)) := by
  have hup := process_input_up hterms hrange
  have hvis := process_input_up_vis_term_id hterms hrange
  have hterms' := process_input_ordered hterms hrange
  generalize process_input k UP_KEY_P = k' at hup hvis hterms' ⊢
  intro _ term
  have hcur : (k'.terminals k.vis_term_id).cur_hist_index.toNat + 1 =
      (k.terminals k.vis_term_id).cur_hist_index.toNat := by
    rw [show (k'.terminals k.vis_term_id).cur_hist_index = (up (k.terminals k.vis_term_id)).cur_hist_index from
      congrArg InputState.cur_hist_index hup]
    exact up_cur_hist_index (hterms k.vis_term_id) hmoves
  have hnext : (k'.terminals k.vis_term_id).hist_buf_index = (k.terminals k.vis_term_id).hist_buf_index :=
    (congrArg InputState.hist_buf_index hup).trans up_hist_buf.2
  have hcur_le := (hterms k.vis_term_id).cur_le
  have hhist_le := (hterms k.vis_term_id).hist_le
  have htidy' : Tidy (k'.terminals k'.vis_term_id) := by
    rw [hvis]
    exact (tidy_up (hterms k.vis_term_id) htidy hmoves).congr hup
  -- There is an entry after the one that Up has come to.
  have hrange' : InRange k'.toConsole DOWN_KEY_P := by
    refine ⟨fun h => absurd h (by decide), fun _ hlast => ?_⟩
    rw [hvis] at hlast
    rw [hlast] at hcur
    have hten : HIST_COM_NUM.toNat = 10 := by decide
    omega
  have hdown : inputState term = inputState (down (k'.terminals k.vis_term_id)) := by
    have hinput := process_input_down hterms' hrange'
    rwa [hvis] at hinput
  have hback : term.cur_hist_index = (k.terminals k.vis_term_id).cur_hist_index := by
    apply UInt32.toNat_inj.mp
    rw [show term.cur_hist_index = (down (k'.terminals k.vis_term_id)).cur_hist_index from
      congrArg InputState.cur_hist_index hdown]
    rw [down_cur_hist_index (hterms' k.vis_term_id) (by rw [hnext]; omega), hcur]
  have hshows : Shows term := by
    have hshows := shows_process_input_down hterms' hrange' htidy'
    rwa [hvis] at hshows
  refine ⟨(shows_up (hterms k.vis_term_id) htidy hmoves).congr hup, hback, hshows, fun hbefore => ?_⟩
  have hhist : term.hist_buf = (k.terminals k.vis_term_id).hist_buf :=
    ((congrArg InputState.hist_buf hdown).trans down_hist_buf.1).trans
      ((congrArg InputState.hist_buf hup).trans up_hist_buf.1)
  rw [(shows_iff (process_input_ordered hterms' hrange' k.vis_term_id)).mp hshows, hback, command_congr hhist,
    (shows_iff (hterms k.vis_term_id)).mp hbefore]

/-- One event recalls the commands it should. By cases on it, of which Up and Down are the ones
    with something to show. -/
theorem recalls_step {ev : InputEvent} (hnavigable : Navigable k ev) (hstep : inputStep k ev = some k') :
    Recalls k ev k' := by
  obtain ⟨hbounds, htidy⟩ := hnavigable
  have hmoves (hrange : InRange k.toConsole UP_KEY_P) (hother : ((process_input k UP_KEY_P).terminals
      k.vis_term_id).cur_hist_index ≠ (k.terminals k.vis_term_id).cur_hist_index) :
      (k.terminals k.vis_term_id).cur_hist_index ≠ 0 := by
    intro hzero
    have hup := process_input_up hterms hrange
    rw [up, if_pos hzero] at hup
    exact hother (congrArg InputState.cur_hist_index hup)
  constructor
  · rintro (rfl | rfl) hother
    · cases hstep
      exact (recalls_up hterms hbounds (htidy (.inl rfl)) (hmoves hbounds hother)).1
    · cases hstep
      exact shows_process_input_down hterms hbounds (htidy (.inr rfl))
  · rintro rfl hother
    cases hstep
    exact (recalls_up hterms hbounds (htidy (.inl rfl)) (hmoves hbounds hother)).2

end Navigate

/-- The command history along every run of keys, reads and scheduling: as long as Up and Down do
    not mistake what lies around the history for an entry and `add_to_history` gets a line, the
    indices of every terminal stay in order, Up and Down show the entry they move to, Down takes
    Up back, and the ten entries are left only by the events that `WithinHistory` excludes. The
    histories may be full, and what is in the key buffers at the start does not matter. -/
theorem history_navigation {k s : Kernel} {evs : List InputEvent} (hk : ∀ t, Ordered (k.terminals t))
    (hguard : Guarded inputStep Navigable k evs) (hrun : run inputStep k evs = some s) :
    (∀ t, (s.terminals t).cur_hist_index ≤ (s.terminals t).hist_buf_index ∧
      (s.terminals t).hist_buf_index ≤ HIST_COM_NUM) ∧
    ∀ ev, ((∀ i ∈ historyAccesses s ev, i < HIST_COM_NUM) ↔ WithinHistory s ev) ∧
      ∀ s', Navigable s ev → inputStep s ev = some s' → Recalls s ev s' := by
  have hkeep (s : Kernel) (ev : InputEvent) (s' : Kernel) (hterms : ∀ t, Ordered (s.terminals t))
      (hnavigable : Navigable s ev) (hstep : inputStep s ev = some s') : ∀ t, Ordered (s'.terminals t) :=
    inputStep_ordered hterms hnavigable.1 hstep
  have hterms : ∀ t, Ordered (s.terminals t) := run_invariant hkeep hk hguard hrun
  refine ⟨fun t => ⟨?_, ?_⟩, fun ev => ⟨historyAccesses_within hterms ev, fun s' hnavigable hstep => ?_⟩⟩
  · rw [UInt32.le_iff_toNat_le]
    exact (hterms t).cur_le
  · rw [UInt32.le_iff_toNat_le]
    exact (hterms t).hist_le
  · exact recalls_step hterms hnavigable hstep

/-- The histories of a fresh kernel are empty, and in order. -/
theorem fresh_ordered (t : Fin MAX_TERM_NUM) : Ordered (multi_term.fresh.terminals t) := by
  have hhist : (multi_term.fresh.terminals t).hist_buf = fun _ => 0 := by
    match t with
    | 0 | 1 | 2 => rfl
  have hzero : ∀ t, (multi_term.fresh.terminals t).cur_hist_index = 0 ∧
      (multi_term.fresh.terminals t).hist_buf_index = 0 ∧ (multi_term.fresh.terminals t).key_buf_index = 0 := by
    decide +kernel
  obtain ⟨hcur, hnext, hindex⟩ := hzero t
  refine ⟨?_, ?_, ?_, ?_, ?_, ?_⟩
  · rw [hcur, hnext]
  · rw [hnext]
    decide
  · rw [hindex]
    exact zero_lt_size
  · intro e he
    rw [hnext] at he
    exact absurd he (Nat.not_lt_zero e)
  · intro e he
    rw [hnext] at he
    exact absurd he (Nat.not_lt_zero e)
  · intro e j _
    simp only [row, hhist, dite_eq_ite, ite_self]

/-- A command is entered and read. -/
def oneCommand : List InputEvent := [.key 0x1E, .key ENTER_KEY_P, .read (fun _ => 0) 0 128]

theorem history_navigation_one_command :
    ∃ s, run inputStep multi_term.fresh oneCommand = some s ∧
      (∀ t, (s.terminals t).cur_hist_index ≤ (s.terminals t).hist_buf_index ∧
        (s.terminals t).hist_buf_index ≤ HIST_COM_NUM) ∧
      WithinHistory s (.key UP_KEY_P) ∧ (∀ i ∈ historyAccesses s (.key UP_KEY_P), i < HIST_COM_NUM) ∧
      Recalls s (.key UP_KEY_P) (process_input s UP_KEY_P) := by
  have hguard : Guarded inputStep Navigable multi_term.fresh oneCommand := by decide +kernel
  obtain ⟨s, hrun, hnavigable, hcur⟩ : ∃ s, run inputStep multi_term.fresh oneCommand = some s ∧
      Navigable s (.key UP_KEY_P) ∧ (s.terminals s.vis_term_id).cur_hist_index ≠ 0 := by
    apply exists_run
    decide +kernel
  obtain ⟨hindices, hevents⟩ := history_navigation fresh_ordered hguard hrun
  obtain ⟨haccesses, hrecalls⟩ := hevents (.key UP_KEY_P)
  have hwithin : WithinHistory s (.key UP_KEY_P) := ⟨fun _ => hcur, fun h => absurd h (by decide)⟩
  exact ⟨s, hrun, hindices, hwithin, haccesses.mpr hwithin, hrecalls _ hnavigable rfl⟩

/-- Twelve letters typed on an empty history, then Up: what lies before the history is the
    twelfth letter, so the current entry becomes number -1. -/
theorem up_before_history :
    ∃ s, run inputStep multi_term.fresh (List.replicate 12 (.key 0x1E) ++ [.key UP_KEY_P]) = some s ∧
      (s.terminals s.vis_term_id).hist_buf_index = 0 ∧
      (s.terminals s.vis_term_id).cur_hist_index = 0xFFFFFFFF := by
  apply exists_run
  decide +kernel

end lacos.terminal
