import LacOS.Terminal.Navigation

open memory lacos.lib lacos.keyboard trace

namespace lacos.terminal

/-- The index stays in the key buffer, whose last byte ends every string in it. -/
structure KeyBounds (term : term_t) : Prop where
  index_le : term.key_buf_index.toNat ≤ KEY_BUF_SIZE - 1
  last : term.key_buf ⟨KEY_BUF_SIZE - 1, by decide⟩ = 0

/-- A store to the key buffer of the visible terminal: its index and its value. -/
abbrev KeyWrite := UInt32 × UInt8

/-- The key buffer after some stores. -/
def written (buf : Fin KEY_BUF_SIZE → UInt8) (writes : List KeyWrite) : Fin KEY_BUF_SIZE → UInt8 :=
  writes.foldl (fun buf w i => if i.val = w.1.toNat then w.2 else buf i) buf

/-- The stores of the `memset` in `clear_buffer`. -/
def clear_buffer_writes (con : Console) : List KeyWrite :=
  (List.range (strlen con.termMem (key_buf con.vis_term_id)).toNat).map fun i => (UInt32.ofNat i, 0)

/-- The stores of `process_input`, for every key but Up and Down. -/
def process_input_writes (k : Kernel) (c : UInt8) : List KeyWrite :=
  let read_buf_index := (k.terminals k.vis_term_id).key_buf_index
  if c = BACKSPACE_P then if read_buf_index ≠ 0 then [(read_buf_index - 1, 0)] else []
  else if c = ENTER_KEY_P then
    let last := if read_buf_index.toNat < KEY_BUF_SIZE - 1 then read_buf_index else UInt32.ofNat (KEY_BUF_SIZE - 2)
    [(last, 10), (last + 1, 0)]
  else if c = L_KEY_P ∧ k.ctrl then clear_buffer_writes (clear_screen k.toConsole)
  else if read_buf_index.toNat = KEY_BUF_SIZE - 1 then []
  else (typed k.toKeyboard c).elim [] fun c_print => [(read_buf_index, c_print)]

/-- What can happen to the key buffers: a key other than Up and Down, a switch to another terminal,
    a read, and the scheduler moving on, which decides whose line is read. -/
inductive BufferEvent where
  | key (c : UInt8)
  | switch (new_term_id : Int)
  | read (m : Mem) (buf nbytes : UInt32)
  | schedule (t : Fin MAX_TERM_NUM)

def bufferStep (k : Kernel) : BufferEvent → Option Kernel
  | .key c => if c = UP_KEY_P ∨ c = DOWN_KEY_P then none else some (process_input k c)
  | .switch new_term_id => some (multi_term.switch_terminal k new_term_id)
  | .read m buf nbytes => (terminal_read k m buf nbytes).map fun (_, _, k) => k
  | .schedule t => some { k with sched_term_id := t }

/-- The console when `terminal_read` has put the line into the history. -/
def afterHistory (con : Console) : Console :=
  add_to_history (takeLine con con.sched_term_id) (key_buf con.sched_term_id)

/-- The console on which an event makes its stores to the key buffer. -/
def beforeWrites (k : Kernel) : BufferEvent → Console
  | .read _ _ _ => afterHistory k.toConsole
  | .key _ | .switch _ | .schedule _ => k.toConsole

def keyWrites (k : Kernel) : BufferEvent → List KeyWrite
  | .key c => process_input_writes k c
  | .read _ _ _ => clear_buffer_writes (afterHistory k.toConsole)
  | .switch _ | .schedule _ => []

/-- The results of `strlen` on key buffers during an event: in `clear_buffer`, and for a read
    before that in `terminal_read` and in `add_to_history`, which measure the same line. -/
def keyStrlens (k : Kernel) : BufferEvent → List UInt32
  | .key c =>
    if c = L_KEY_P ∧ k.ctrl then [strlen (clear_screen k.toConsole).termMem (key_buf k.vis_term_id)] else []
  | .read _ _ _ =>
    let con := takeLine k.toConsole k.sched_term_id
    [strlen con.termMem (key_buf k.sched_term_id),
      strlen (afterHistory k.toConsole).termMem (key_buf k.vis_term_id)]
  | .switch _ | .schedule _ => []

section Term

variable {term : term_t}

/-- The bounds depend on the input of the terminal only. -/
theorem KeyBounds.congr {term' : term_t} (hterm : KeyBounds term) (hinput : inputState term' = inputState term) :
    KeyBounds term' := by
  have hkeys : term'.key_buf = term.key_buf := congrArg InputState.key_buf hinput
  have hindex : term'.key_buf_index = term.key_buf_index := congrArg InputState.key_buf_index hinput
  refine ⟨?_, ?_⟩
  · rw [hindex]
    exact hterm.index_le
  · rw [hkeys]
    exact hterm.last

variable (hterm : KeyBounds term)
include hterm

theorem KeyBounds.index_lt : term.key_buf_index.toNat < KEY_BUF_SIZE := Nat.lt_succ_of_le hterm.index_le

/-- The line ends in the key buffer, as its last byte is zero. -/
theorem KeyBounds.line_length : (line term).length ≤ KEY_BUF_SIZE - 1 := by
  by_contra hlong
  exact line_body term ⟨KEY_BUF_SIZE - 1, by decide⟩ (Nat.not_le.mp hlong) hterm.last

/-- Erasing keeps the bounds, if there is a character to erase. -/
theorem KeyBounds.eraseLast (hempty : term.key_buf_index ≠ 0) : KeyBounds (eraseLast term) := by
  refine ⟨?_, ?_⟩
  · rw [eraseLast_index hempty]
    exact Nat.le_trans (Nat.sub_le _ _) hterm.index_le
  · change (if _ then 0 else term.key_buf _) = 0
    rw [hterm.last, ite_self]

/-- A character may be added in front of the last byte. -/
theorem KeyBounds.addChar (c : UInt8) (hroom : term.key_buf_index.toNat ≠ KEY_BUF_SIZE - 1) :
    KeyBounds (addChar term c) := by
  have hle := hterm.index_le
  refine ⟨?_, ?_⟩
  · rw [addChar_index term c hterm.index_lt]
    omega
  · change (if KEY_BUF_SIZE - 1 = term.key_buf_index.toNat then c else term.key_buf _) = 0
    rw [if_neg (Ne.symm hroom), hterm.last]

/-- Enter keeps the bounds, for a full line too. -/
theorem KeyBounds.endLine : KeyBounds { endLine term with key_buf_index := 0, new_line := true } := by
  refine ⟨Nat.zero_le _, ?_⟩
  simp only [keyboard.endLine, setKey, hterm.last, KEY_BUF_SIZE]
  split
  · rename_i hshort
    rw [if_neg (Nat.ne_of_gt hshort), ite_self]
  · rfl

theorem KeyBounds.clearLine : KeyBounds (clearLine term) := by
  refine ⟨Nat.zero_le _, ?_⟩
  simp only [keyboard.clearLine, hterm.last, ite_self]

/-- Any key but Up and Down keeps the bounds, whatever the modifier keys are. -/
theorem KeyBounds.press (kbd : Keyboard) {c : UInt8} (hup : c ≠ UP_KEY_P) (hdown : c ≠ DOWN_KEY_P) :
    KeyBounds (press kbd term c) := by
  rw [keyboard.press, if_neg hup, if_neg hdown]
  split
  · split
    · exact hterm
    · exact hterm.eraseLast ‹_›
  · split
    · exact hterm.endLine
    · split
      · exact hterm.clearLine
      · split
        · exact hterm
        · cases typed kbd c with
          | none => exact hterm
          | some ch => exact hterm.addChar ch ‹_›

end Term

section Writes

theorem written_append (buf : Fin KEY_BUF_SIZE → UInt8) (writes rest : List KeyWrite) :
    written buf (writes ++ rest) = written (written buf writes) rest := List.foldl_append

/-- Zeros stored one after the other clear the beginning of the buffer. -/
theorem written_range (buf : Fin KEY_BUF_SIZE → UInt8) {n : Nat} (hn : n ≤ KEY_BUF_SIZE) :
    written buf ((List.range n).map fun i => (UInt32.ofNat i, 0)) = fun i => if i.val < n then 0 else buf i := by
  induction n with
  | zero => rfl
  | succ n ih =>
    have hword : (UInt32.ofNat n).toNat = n := UInt32.toNat_ofNat_of_lt' (Nat.lt_of_lt_of_le hn (by decide))
    rw [List.range_succ, List.map_append, written_append, ih (Nat.le_of_succ_le hn)]
    funext i
    simp only [written, List.map_cons, List.map_nil, List.foldl_cons, List.foldl_nil, hword]
    by_cases hi : i.val = n
    · rw [if_pos hi, if_pos (by omega)]
    · rw [if_neg hi]
      exact if_congr (by omega) rfl rfl

/-- `clear_buffer` stores one zero for each character of the line. -/
theorem clear_buffer_writes_eq (con : Console) : clear_buffer_writes con =
    (List.range (line (con.terminals con.vis_term_id)).length).map fun i => (UInt32.ofNat i, 0) := by
  rw [clear_buffer_writes, strlen_line]

/-- The stores of `clear_buffer` leave the key buffer of a cleared line. -/
theorem clearLine_key_buf (con : Console) : (clearLine (con.terminals con.vis_term_id)).key_buf =
    written (con.terminals con.vis_term_id).key_buf (clear_buffer_writes con) := by
  rw [clear_buffer_writes_eq, written_range _ (line_length_le _), clearLine]

theorem line_of_prints {con con' : Console} (hprints : Prints con con') (t : Fin MAX_TERM_NUM) :
    line (con'.terminals t) = line (con.terminals t) := by
  have hkeys : (con'.terminals t).key_buf = (con.terminals t).key_buf :=
    congrArg InputState.key_buf (inputState_of_prints hprints t)
  rw [line, line, hkeys]

theorem clear_screen_writes (con : Console) : clear_buffer_writes (clear_screen con) = clear_buffer_writes con := by
  have hprints := prints_clear_screen con
  rw [clear_buffer_writes_eq, clear_buffer_writes_eq, hprints.vis_term_id, line_of_prints hprints]

/-- The index of the newline that Enter stores, and of the zero after it. -/
theorem enter_index (index : UInt32) :
    let last := if index.toNat < KEY_BUF_SIZE - 1 then index else UInt32.ofNat (KEY_BUF_SIZE - 2)
    last.toNat = (if index.toNat < KEY_BUF_SIZE - 1 then index.toNat else KEY_BUF_SIZE - 2) ∧
      (last + 1).toNat = last.toNat + 1 ∧ last.toNat + 1 < KEY_BUF_SIZE := by
  intro last
  have hlast : last.toNat = if index.toNat < KEY_BUF_SIZE - 1 then index.toNat else KEY_BUF_SIZE - 2 :=
    apply_ite UInt32.toNat _ _ _
  have hlt : last.toNat + 1 < KEY_BUF_SIZE := by
    rw [hlast]
    simp only [KEY_BUF_SIZE]
    split <;> omega
  refine ⟨hlast, ?_, hlt⟩
  rw [UInt32.toNat_add, UInt32.toNat_one, Nat.mod_eq_of_lt (Nat.lt_trans hlt (by decide))]

variable (k : Kernel) {c : UInt8}

/-- The stores say what a key does to the key buffer. -/
theorem press_key_buf (hup : c ≠ UP_KEY_P) (hdown : c ≠ DOWN_KEY_P) :
    (press k.toKeyboard (k.terminals k.vis_term_id) c).key_buf =
      written (k.terminals k.vis_term_id).key_buf (process_input_writes k c) := by
  rw [press, if_neg hup, if_neg hdown]
  simp only [process_input_writes]
  by_cases hback : c = BACKSPACE_P
  · rw [if_pos hback, if_pos hback]
    by_cases hempty : (k.terminals k.vis_term_id).key_buf_index = 0
    · rw [if_pos hempty, if_neg (not_not.mpr hempty)]
      rfl
    · have hindex : ((k.terminals k.vis_term_id).key_buf_index - 1).toNat = _ := eraseLast_index hempty
      rw [if_neg hempty, if_pos hempty]
      simp only [written, List.foldl_cons, List.foldl_nil, hindex]
      rfl
  rw [if_neg hback, if_neg hback]
  by_cases henter : c = ENTER_KEY_P
  · obtain ⟨hlast, hnext, -⟩ := enter_index (k.terminals k.vis_term_id).key_buf_index
    rw [if_pos henter, if_pos henter]
    simp only [written, List.foldl_cons, List.foldl_nil, hnext, hlast]
    rfl
  rw [if_neg henter, if_neg henter]
  by_cases hclear : c = L_KEY_P ∧ k.ctrl = true
  · rw [if_pos hclear, if_pos hclear, clear_screen_writes]
    exact clearLine_key_buf k.toConsole
  rw [if_neg hclear, if_neg hclear]
  split
  · rfl
  · cases typed k.toKeyboard c with
    | none => rfl
    | some ch => rfl

/-- `clear_buffer` stays in the key buffer if the line does. -/
theorem clear_buffer_writes_lt {con : Console} (hbounds : KeyBounds (con.terminals con.vis_term_id)) :
    ∀ w ∈ clear_buffer_writes con, w.1.toNat < KEY_BUF_SIZE := by
  intro w hw
  have hlength := hbounds.line_length
  rw [clear_buffer_writes_eq] at hw
  obtain ⟨i, hi, rfl⟩ := List.mem_map.mp hw
  rw [List.mem_range] at hi
  have hlt : i < KEY_BUF_SIZE := Nat.lt_of_lt_of_le hi (Nat.le_trans hlength (Nat.sub_le _ _))
  rwa [UInt32.toNat_ofNat_of_lt' (Nat.lt_trans hlt (by decide))]

/-- Every store of a key is in the key buffer. -/
theorem process_input_writes_lt (hbounds : KeyBounds (k.terminals k.vis_term_id)) :
    ∀ w ∈ process_input_writes k c, w.1.toNat < KEY_BUF_SIZE := by
  have hindex := hbounds.index_lt
  simp only [process_input_writes]
  split
  · split
    · rename_i hempty
      have hprev : ((k.terminals k.vis_term_id).key_buf_index - 1).toNat = _ := eraseLast_index hempty
      rw [List.forall_mem_singleton, hprev]
      omega
    · simp
  · split
    · obtain ⟨-, hnext, hlt⟩ := enter_index (k.terminals k.vis_term_id).key_buf_index
      rw [List.forall_mem_cons, List.forall_mem_singleton, hnext]
      exact ⟨Nat.lt_of_succ_lt hlt, hlt⟩
    · split
      · rw [clear_screen_writes]
        exact clear_buffer_writes_lt hbounds
      · split
        · simp
        · cases typed k.toKeyboard c with
          | none => simp
          | some ch =>
            rw [Option.elim_some, List.forall_mem_singleton]
            exact hindex

end Writes

section Read

theorem KeyBounds.record {term : term_t} (hterm : KeyBounds term) (command : List UInt8) :
    KeyBounds (record term command) := by
  refine ⟨?_, ?_⟩
  · rw [record_key_buf_index]
    exact hterm.index_le
  · rw [record_key_buf]
    exact hterm.last

/-- The byte that is left of a wiped memory is not in the fields before the history. -/
theorem wiped_address (t v : Fin MAX_TERM_NUM) {i : Nat} (hi : i + 1 < HIST_BUF) {index : UInt32}
    (hindex : index.toNat < 10) : termAddr t + UInt32.ofNat i + 1 ≠ hist_buf v index := by
  intro heq
  have ht := t.isLt
  have hv := v.isLt
  have hnat := congrArg UInt32.toNat heq
  rw [hist_buf_toNat v hindex, UInt32.add_assoc, show UInt32.ofNat i + 1 = UInt32.ofNat (i + 1) from
    (UInt32.ofNat_add i 1).symm, termAddr_toNat t (Nat.lt_trans hi (by decide))] at hnat
  simp only [TERM_SIZE, HIST_BUF, KEY_BUF_SIZE, MAX_TERM_NUM] at *
  omega

/-- A terminal in a memory that `add_to_history` has filled with zeros. -/
theorem keyBounds_wiped {m : Mem} {v : Fin MAX_TERM_NUM} {index : UInt32} (hindex : index.toNat < 10)
    (hwiped : ∀ a, a + 1 ≠ hist_buf v index → m a = 0) (t : Fin MAX_TERM_NUM) (esp : Context) :
    KeyBounds (term_t.ofMem m (termAddr t) esp) := by
  have hword : load32 m (termAddr t + UInt32.ofNat 144) = 0 := by
    apply load32_wordByte
    intro i hi
    rw [UInt32.add_assoc, ← UInt32.ofNat_add, hwiped _ (wiped_address t v (by simp only [HIST_BUF]; omega) hindex)]
    simp [wordByte]
  refine ⟨?_, hwiped _ (wiped_address t v (by decide) hindex)⟩
  change (load32 m (termAddr t + UInt32.ofNat 144)).toNat ≤ _
  rw [hword]
  exact Nat.zero_le _

variable {con : Console} (hterms : ∀ t, KeyBounds (con.terminals t))
include hterms

/-- A terminal within its bounds can be replaced by another one. -/
theorem setTerm_bounds (t : Fin MAX_TERM_NUM) {term : term_t} (hterm : KeyBounds term) (u : Fin MAX_TERM_NUM) :
    KeyBounds ((con.setTerm t term).terminals u) := by
  by_cases hu : u = t
  · rw [hu, Console.setTerm_same]
    exact hterm
  · rw [Console.setTerm_other _ _ _ hu]
    exact hterms u

/-- `add_to_history` keeps the key buffers in bounds, also when it wipes memory. -/
theorem add_to_history_bounds (u t : Fin MAX_TERM_NUM) :
    KeyBounds ((add_to_history con (key_buf u)).terminals t) := by
  by_cases hwipes : Wipes (con.terminals con.vis_term_id) (line (con.terminals u))
  · obtain ⟨m, hadd, hwiped⟩ := add_to_history_wipes con u hwipes
    have hbounds (t : Fin MAX_TERM_NUM) : KeyBounds ((con.setTermMem m).terminals t) :=
      keyBounds_wiped (index_toNat_lt hwipes.2.1) hwiped t _
    rw [hadd]
    refine setTerm_bounds hbounds _ ?_ t
    exact ⟨(hbounds con.vis_term_id).index_le, (hbounds con.vis_term_id).last⟩
  · rw [add_to_history_eq con u hwipes]
    exact setTerm_bounds hterms _ ((hterms _).record _) t

/-- Taking the line leaves every terminal within its bounds. -/
theorem takeLine_bounds (t u : Fin MAX_TERM_NUM) : KeyBounds ((takeLine con t).terminals u) := by
  refine setTerm_bounds hterms t ?_ u
  exact ⟨(hterms t).index_le, (hterms t).last⟩

/-- So does recording it, for any line. -/
theorem afterHistory_bounds (t : Fin MAX_TERM_NUM) : KeyBounds ((afterHistory con).terminals t) :=
  add_to_history_bounds (takeLine_bounds hterms _) _ t

/-- A read leaves every terminal within its bounds. -/
theorem afterRead_bounds (t : Fin MAX_TERM_NUM) : KeyBounds ((afterRead con).terminals t) := by
  change KeyBounds ((clear_buffer (afterHistory con)).terminals t)
  rw [clear_buffer_eq]
  exact setTerm_bounds (afterHistory_bounds hterms) _ (afterHistory_bounds hterms _).clearLine t

/-- `strlen` on a key buffer never runs past it. -/
theorem strlen_key_buf_le (t : Fin MAX_TERM_NUM) :
    (strlen con.termMem (key_buf t)).toNat ≤ KEY_BUF_SIZE - 1 := by
  rw [strlen_line]
  exact (hterms t).line_length

end Read

theorem afterHistory_vis_term_id (con : Console) : (afterHistory con).vis_term_id = con.vis_term_id := by
  simp only [afterHistory, add_to_history]
  split
  · rfl
  · split <;> rfl

/-- What an event does to key buffers that are in bounds: its stores are in the key buffer, the
    strings it measures end there, and the key buffers are as the stores leave them. -/
structure WithinKeyBuf (k : Kernel) (ev : BufferEvent) (k' : Kernel) : Prop where
  writes : ∀ w ∈ keyWrites k ev, w.1.toNat < KEY_BUF_SIZE
  strlens : ∀ n ∈ keyStrlens k ev, n.toNat ≤ KEY_BUF_SIZE - 1
  key_buf : ∀ t, (k'.terminals t).key_buf =
    if t = k.vis_term_id then written ((beforeWrites k ev).terminals t).key_buf (keyWrites k ev)
    else ((beforeWrites k ev).terminals t).key_buf
  bounds : ∀ t, KeyBounds (k'.terminals t)

section Step

variable {k k' : Kernel} (hterms : ∀ t, KeyBounds (k.terminals t))
include hterms

/-- A key stores to the key buffer only, at indices in bounds. -/
theorem withinKeyBuf_key {c : UInt8} (hup : c ≠ UP_KEY_P) (hdown : c ≠ DOWN_KEY_P) :
    WithinKeyBuf k (.key c) (process_input k c) := by
  have hvis := hterms k.vis_term_id
  have hinput := process_input_press hvis.index_lt hup hdown
  refine ⟨process_input_writes_lt k hvis, ?_, fun t => ?_, fun t => ?_⟩
  · simp only [keyStrlens]
    split
    · rw [List.forall_mem_singleton]
      refine strlen_key_buf_le (fun t => ?_) k.vis_term_id
      exact (hterms t).congr (inputState_of_prints (prints_clear_screen k.toConsole) t)
    · simp
  · have hkeys : ((process_input k c).terminals t).key_buf = _ := congrArg InputState.key_buf (hinput t)
    rw [hkeys]
    by_cases ht : t = k.vis_term_id
    · rw [if_pos ht, ht]
      refine Eq.trans ?_ (press_key_buf k hup hdown)
      exact congrArg term_t.key_buf (Console.setTerm_same _ _ _)
    · rw [if_neg ht]
      exact congrArg term_t.key_buf (Console.setTerm_other _ _ _ ht)
  · exact (setTerm_bounds hterms _ (hvis.press k.toKeyboard hup hdown) t).congr (hinput t)

/-- An event that leaves the input of all terminals alone. -/
theorem withinKeyBuf_idle {ev : BufferEvent} (hwrites : keyWrites k ev = []) (hstrlens : keyStrlens k ev = [])
    (hbefore : beforeWrites k ev = k.toConsole)
    (hinput : ∀ t, inputState (k'.terminals t) = inputState (k.terminals t)) : WithinKeyBuf k ev k' := by
  refine ⟨?_, ?_, fun t => ?_, fun t => (hterms t).congr (hinput t)⟩
  · simp [hwrites]
  · simp [hstrlens]
  · rw [hwrites, hbefore]
    exact (congrArg InputState.key_buf (hinput t)).trans (ite_self _).symm

/-- So does a read, whatever its buffer is. -/
theorem withinKeyBuf_read {m : Mem} {buf nbytes : UInt32} (hcon : k'.toConsole = afterRead k.toConsole) :
    WithinKeyBuf k (.read m buf nbytes) k' := by
  have hhistory := afterHistory_bounds hterms
  have hvis := afterHistory_vis_term_id k.toConsole
  refine ⟨clear_buffer_writes_lt (hhistory _), ?_, fun t => ?_, fun t => ?_⟩
  · simp only [keyStrlens]
    rw [List.forall_mem_cons, List.forall_mem_singleton]
    exact ⟨strlen_key_buf_le (takeLine_bounds hterms _) _, strlen_key_buf_le hhistory _⟩
  · have hclear : k'.toConsole = clear_buffer (afterHistory k.toConsole) := hcon
    rw [hclear, clear_buffer_eq, hvis]
    by_cases ht : t = k.vis_term_id
    · rw [if_pos ht, ht, Console.setTerm_same, ← hvis]
      exact clearLine_key_buf (afterHistory k.toConsole)
    · rw [if_neg ht, Console.setTerm_other _ _ _ ht]
      rfl
  · rw [hcon]
    exact afterRead_bounds hterms t

/-- One event keeps to the key buffers. By cases on it. -/
theorem withinKeyBuf_step {ev : BufferEvent} (hstep : bufferStep k ev = some k') : WithinKeyBuf k ev k' := by
  cases ev with
  | key c =>
    rw [bufferStep] at hstep
    split at hstep
    · cases hstep
    · rename_i hkey
      cases hstep
      exact withinKeyBuf_key hterms (fun h => hkey (.inl h)) fun h => hkey (.inr h)
  | switch new_term_id =>
    cases hstep
    exact withinKeyBuf_idle hterms rfl rfl rfl (inputState_switch_terminal k new_term_id)
  | read m buf nbytes => exact withinKeyBuf_read hterms (inputStep_read hstep).2
  | schedule t =>
    cases hstep
    exact withinKeyBuf_idle hterms rfl rfl rfl fun _ => rfl

end Step

/-- Key buffer bounds along every run of keys other than Up and Down, switches, reads and
    scheduling: every index stays in its buffer, whose last byte is zero, so that `strlen` stops
    there, and no event stores outside the key buffer. Lines may be typed ahead and terminals
    switched at any moment, and nothing is assumed of the histories. -/
theorem key_buf_bounds {k s : Kernel} {evs : List BufferEvent} (hk : ∀ t, KeyBounds (k.terminals t))
    (hrun : run bufferStep k evs = some s) :
    (∀ t, KeyBounds (s.terminals t) ∧ (strlen s.termMem (key_buf t)).toNat ≤ KEY_BUF_SIZE - 1) ∧
      ∀ ev s', bufferStep s ev = some s' → WithinKeyBuf s ev s' := by
  have hterms : ∀ t, KeyBounds (s.terminals t) :=
    run_invariant_of_step (fun _ _ _ hterms hstep => (withinKeyBuf_step hterms hstep).bounds) hk hrun
  exact ⟨fun t => ⟨hterms t, strlen_key_buf_le hterms t⟩, fun ev s' hstep => withinKeyBuf_step hterms hstep⟩

/-- The terminals of a fresh kernel are within their bounds. -/
theorem fresh_bounds : ∀ t, KeyBounds (multi_term.fresh.terminals t) := by
  have hbounds : ∀ t, (multi_term.fresh.terminals t).key_buf_index.toNat ≤ KEY_BUF_SIZE - 1 ∧
      (multi_term.fresh.terminals t).key_buf ⟨KEY_BUF_SIZE - 1, by decide⟩ = 0 := by
    decide +kernel
  exact fun t => ⟨(hbounds t).1, (hbounds t).2⟩

/-- A letter typed while a completed line is unread, on another terminal than the one that is
    read. -/
theorem key_buf_bounds_type_ahead :
    ∃ s, run bufferStep multi_term.fresh [.key 0x1E, .key ENTER_KEY_P, .key 0x30, .switch 1, .key 0x1E,
        .read (fun _ => 0) 0 128] = some s ∧
      ∀ t, KeyBounds (s.terminals t) ∧ (strlen s.termMem (key_buf t)).toNat ≤ KEY_BUF_SIZE - 1 := by
  obtain ⟨s, hrun, -⟩ : ∃ s, run bufferStep multi_term.fresh [.key 0x1E, .key ENTER_KEY_P, .key 0x30, .switch 1,
      .key 0x1E, .read (fun _ => 0) 0 128] = some s ∧ s.vis_term_id = 1 := by
    apply exists_run
    decide +kernel
  exact ⟨s, hrun, (key_buf_bounds fresh_bounds hrun).1⟩

end lacos.terminal
