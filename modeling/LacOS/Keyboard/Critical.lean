import LacOS.Base.Lock
import LacOS.Keyboard.Input

open memory lacos.lib lacos.pcb

namespace lacos.keyboard

/-- A piece of work that touches neither the terminals nor the interrupt flag. -/
structure Elsewhere where
  effect : Kernel → Kernel
  console : ∀ k, (effect k).toConsole = k.toConsole
  interrupts : ∀ k, (effect k).interrupts = k.interrupts

/-- What `process_input` does, one call or assignment after the other. Having interrupts
    disabled is the lock of the terminals. -/
abbrev Act := lock.Action (Console → Console) Elsewhere

def performAction (k : Kernel) : Act → Kernel
  | .acquire => cli k
  | .release => sti k
  | .write f => k.onConsole f
  | .other work => work.effect k

def perform (k : Kernel) (actions : List Act) : Kernel := actions.foldl performAction k

def setFlags (f : Keyboard → Keyboard) : Act :=
  .other ⟨fun k => { k with toKeyboard := f k.toKeyboard }, fun _ => rfl, fun _ => rfl⟩

/-- `process_input(BACKSPACE_P)`, as `clear_cur_cmd` calls it. -/
def backspaceActions : List Act := [.acquire, .write keyBackspace, .release]

/-- The turns of the loop of `clear_cur_cmd`. -/
def erased (k : Kernel) : Nat := (toInt32 (k.terminals k.vis_term_id).key_buf_index).toNat

def clear_cur_cmd_actions (k : Kernel) : List Act :=
  (List.replicate (erased k) backspaceActions).flatten ++ [.write clear_buffer]

def keyUpActions (k : Kernel) : List Act :=
  let t := k.vis_term_id
  let buf_size := strlen k.termMem (hist_buf t ((k.terminals t).cur_hist_index - 1))
  if buf_size = 0 then []
  else clear_cur_cmd_actions k ++ [.write clear_buffer,
    .write fun con => recallEntry con t ((con.terminals t).cur_hist_index - 1) buf_size]

def keyDownActions (k : Kernel) : List Act :=
  let t := k.vis_term_id
  let prev_size := strlen k.termMem (hist_buf t (k.terminals t).cur_hist_index)
  let buf_size := strlen k.termMem (hist_buf t ((k.terminals t).cur_hist_index + 1))
  clear_cur_cmd_actions k ++ .write clear_buffer ::
    if buf_size = 0 then
      if prev_size ≠ 0 then
        [.write fun con =>
          con.setTerm t { con.terminals t with cur_hist_index := (con.terminals t).cur_hist_index + 1 }]
      else []
    else [.write fun con => recallEntry con t ((con.terminals t).cur_hist_index + 1) buf_size]

theorem term_id_lt {new_term_id : Int} (h : 0 ≤ new_term_id ∧ new_term_id < MAX_TERM_NUM) :
    new_term_id.toNat < MAX_TERM_NUM := by
  omega

def switch_terminal_actions (k : Kernel) (new_term_id : Int) : List Act :=
  if h : 0 ≤ new_term_id ∧ new_term_id < MAX_TERM_NUM then
    if our_popcount k.pcb_status > MAX_PROCESSES then []
    else
      let t : Fin MAX_TERM_NUM := ⟨new_term_id.toNat, term_id_lt h⟩
      [.acquire, .write (multi_term.switch_screen · t), .write ({ · with vis_term_id := t }),
        .write (multi_term.switch_keyboard_and_cursor_pos · t), .release]
  else []

def keyFunctionActions (k : Kernel) (c : UInt8) : List Act :=
  if k.alt then
    let tid := c - F1_KEY_P
    if k.vis_term_id.val ≠ tid.toNat then switch_terminal_actions k tid.toNat else []
  else []

def set_int_freq_actions (new_freq : UInt32) : List Act :=
  let change (k : Kernel) : Kernel :=
    let (prev, k) := rtc.readReg (rtc.selectReg k rtc.CONTROL_REG_A)
    rtc.writeReg (rtc.selectReg k rtc.CONTROL_REG_A) (new_freq.toUInt8 ||| (prev &&& 0xF0))
  [.acquire, .other ⟨change, fun _ => rfl, fun _ => rfl⟩, .release]

def setRtcFreq (freq : UInt32) : Act :=
  .other ⟨fun k => { k with rtc_freq := freq }, fun _ => rfl, fun _ => rfl⟩

def rtc_write_actions (new_freq : UInt32) : List Act :=
  if new_freq &&& (new_freq - 1) ≠ 0 ∨ new_freq > 1024 ∨ new_freq < 2 then []
  else setRtcFreq new_freq :: set_int_freq_actions (0x10 - rtc.pow2freq_loop 32 new_freq 0)

def keyCtrlFourActions (k : Kernel) : List Act :=
  let freq := k.rtc_freq <<< (1 : UInt32)
  let capped := if freq > 0x400 then 2 else freq
  [setRtcFreq freq, setRtcFreq capped] ++ rtc_write_actions capped

/-- From the label `print_char` on: the source returns at once if the buffer is full. -/
def print_char_actions (k : Kernel) (c : UInt8) : List Act :=
  if (k.terminals k.vis_term_id).key_buf_index.toNat = KEY_BUF_SIZE - 1 then []
  else
    let c_print := get_keymap k.toKeyboard c
    if c_print ≠ 0 then [.write (putKey · c_print), .release] else [.release]

def inputActions (k : Kernel) (c : UInt8) : List Act :=
  if c < 0x80 then
    if c = BACKSPACE_P then [.write keyBackspace, .release]
    else if c = ENTER_KEY_P then [.write keyEnter, .release]
    else if c = CTRL_KEY_P then [setFlags ({ · with ctrl := true }), .release]
    else if c = ALT_KEY_P then [setFlags ({ · with alt := true }), .release]
    else if c = L_KEY_P ∧ k.ctrl then [.write clear_screen, .write clear_buffer, .release]
    else if c = L_SHIFT_P then [setFlags ({ · with l_shift := true }), .release]
    else if c = R_SHIFT_P then [setFlags ({ · with r_shift := true }), .release]
    else if c = CAPS_LOCK_P then [setFlags fun kbd => { kbd with caps_lock := !kbd.caps_lock }, .release]
    else if c = F1_KEY_P ∨ c = F2_KEY_P ∨ c = F3_KEY_P then keyFunctionActions k c ++ [.release]
    else if c = UP_KEY_P then keyUpActions k ++ [.release]
    else if c = DOWN_KEY_P then keyDownActions k ++ [.release]
    else if c = FOUR_KEY_P ∧ k.ctrl then keyCtrlFourActions k ++ [.release]
    else if c = FIVE_KEY_P ∧ k.ctrl then [setFlags ({ · with rtc_loop := false }), .release]
    else print_char_actions k c
  else if c = CTRL_KEY_R then [setFlags ({ · with ctrl := false }), .release]
  else if c = L_SHIFT_R then [setFlags ({ · with l_shift := false }), .release]
  else if c = R_SHIFT_R then [setFlags ({ · with r_shift := false }), .release]
  else [.release]

def processActions (k : Kernel) (c : UInt8) : List Act := .acquire :: inputActions (cli k) c

section Perform

variable (k : Kernel)

@[simp] theorem perform_nil : perform k [] = k := rfl

@[simp] theorem perform_cons (action : Act) (actions : List Act) :
    perform k (action :: actions) = perform (performAction k action) actions := rfl

@[simp] theorem perform_append (actions rest : List Act) :
    perform k (actions ++ rest) = perform (perform k actions) rest := List.foldl_append

/-- The interrupt flag is what the actions make of it. -/
theorem perform_interrupts (actions : List Act) :
    (perform k actions).interrupts = !lock.held (!k.interrupts) actions := by
  induction actions generalizing k with
  | nil => simp [lock.held]
  | cons action actions ih =>
    rw [perform_cons, ih]
    cases action with
    | acquire => rfl
    | release => rfl
    | write f => rfl
    | other work =>
      rw [performAction, work.interrupts]
      rfl

/-- The actions of `clear_cur_cmd` do what it does. -/
theorem perform_clear_cur_cmd : perform k (clear_cur_cmd_actions k) = clear_cur_cmd k := by
  have hrepeat (n : Nat) :
      perform k (List.replicate n backspaceActions).flatten = Nat.repeat inputBackspace n k := by
    induction n with
    | zero => rfl
    | succ n ih =>
      rw [List.replicate_succ', List.flatten_append, perform_append, ih, List.flatten_singleton]
      rfl
  rw [clear_cur_cmd_actions, perform_append, hrepeat]
  rfl

/-- So do those of Up, whether it finds an entry or not. -/
theorem perform_keyUp : perform k (keyUpActions k) = keyUp k := by
  simp only [keyUpActions, keyUp]
  split
  · rfl
  · rw [perform_append, perform_clear_cur_cmd]
    rfl

/-- So do those of Down. -/
theorem perform_keyDown : perform k (keyDownActions k) = keyDown k := by
  simp only [keyDownActions, keyDown]
  rw [perform_append, perform_clear_cur_cmd, perform_cons]
  split
  · split <;> rfl
  · rfl

/-- So do those of the function keys, whether ALT is down or not. -/
theorem perform_keyFunction (c : UInt8) : perform k (keyFunctionActions k c) = keyFunction k c := by
  simp only [keyFunctionActions, keyFunction, switch_terminal_actions, multi_term.switch_terminal]
  split
  · split
    · split
      · split <;> rfl
      · rfl
    · rfl
  · rfl

/-- So do those of Ctrl+4. -/
theorem perform_keyCtrlFour : perform k (keyCtrlFourActions k) = keyCtrlFour k := by
  simp only [keyCtrlFourActions, keyCtrlFour, perform_append]
  have hrtc (k : Kernel) (freq : UInt32) : perform k (rtc_write_actions freq) = (rtc.rtc_write k freq 0).2 := by
    rw [rtc_write_actions, rtc.rtc_write]
    split <;> rfl
  rw [hrtc]
  split <;> rfl

variable {k} in
theorem perform_ite {p : Prop} [Decidable p] {then_actions else_actions : List Act} {then_k else_k : Kernel}
    (hthen : perform k then_actions = then_k) (helse : perform k else_actions = else_k) :
    perform k (if p then then_actions else else_actions) = if p then then_k else else_k := by
  split
  · exact hthen
  · exact helse

theorem perform_print_char (c : UInt8) : perform k (print_char_actions k c) = print_char k c :=
  perform_ite rfl (perform_ite rfl rfl)

/-- Performing the actions is `process_input`. -/
theorem perform_processActions (c : UInt8) : perform k (processActions k c) = process_input k c := by
  have hsti {actions : List Act} {k' : Kernel} (hactions : perform (cli k) actions = k') :
      perform (cli k) (actions ++ [.release]) = sti k' := by
    rw [perform_append, hactions]
    rfl
  refine perform_ite ?_ (perform_ite rfl (perform_ite rfl (perform_ite rfl rfl)))
  -- the cases up to the function keys, in the order of the source
  refine perform_ite rfl (perform_ite rfl (perform_ite rfl (perform_ite rfl (perform_ite rfl ?_))))
  refine perform_ite rfl (perform_ite rfl (perform_ite rfl (perform_ite (hsti ?_) ?_)))
  · exact perform_keyFunction (cli k) c
  refine perform_ite (hsti ?_) (perform_ite (hsti ?_) (perform_ite (hsti ?_) (perform_ite rfl ?_)))
  · exact perform_keyUp (cli k)
  · exact perform_keyDown (cli k)
  · exact perform_keyCtrlFour (cli k)
  · exact perform_print_char (cli k) c

end Perform

/-- Actions that start with interrupts disabled, write to the terminals only while they are
    and leave them enabled. -/
def Safe (actions : List Act) : Prop := lock.Guards true actions ∧ lock.held true actions = false

section Safe

theorem safe_write (f : Console → Console) : Safe [.write f, .release] := ⟨⟨rfl, trivial⟩, rfl⟩

theorem safe_other (work : Elsewhere) : Safe [.other work, .release] := ⟨trivial, rfl⟩

/-- Actions that end with the release are safe if they write under the lock. -/
theorem safe_unlock {actions : List Act} : Safe (actions ++ [.release]) ↔ lock.Guards true actions := by
  rw [Safe, lock.guards_append, lock.held_append]
  exact ⟨fun h => h.1.1, fun h => ⟨⟨h, trivial⟩, rfl⟩⟩

/-- A conditional is safe if the branch that is taken is. -/
theorem safe_ite {p : Prop} [Decidable p] {then_actions else_actions : List Act} (hthen : p → Safe then_actions)
    (helse : ¬p → Safe else_actions) : Safe (if p then then_actions else else_actions) := by
  split
  · exact hthen ‹p›
  · exact helse ‹¬p›

variable (k : Kernel)

/-- Erasing the line enables interrupts, and the source then goes on to clear the buffer. -/
theorem guards_clear_cur_cmd {rest : List Act} (hrest : lock.Guards true rest) :
    lock.Guards true (clear_cur_cmd_actions k ++ rest) ↔ erased k = 0 := by
  rw [clear_cur_cmd_actions, List.append_assoc]
  constructor
  · intro hguards
    by_contra hlong
    exact lock.not_guards_of_released (lock.held_repeat hlong fun _ => rfl) _ hguards
  · intro hempty
    rw [hempty]
    exact ⟨rfl, hrest⟩

/-- Up writes under the lock, unless there is something to erase: the Backspaces that erase it
    enable interrupts. -/
theorem guards_keyUp : lock.Guards true (keyUpActions k) ↔
    (strlen k.termMem (hist_buf k.vis_term_id ((k.terminals k.vis_term_id).cur_hist_index - 1)) ≠ 0 →
      erased k = 0) := by
  simp only [keyUpActions]
  split
  · exact ⟨fun _ hentry => absurd ‹_› hentry, fun _ => trivial⟩
  · refine (guards_clear_cur_cmd k ?_).trans ⟨fun hempty _ => hempty, fun h => h ‹_›⟩
    exact ⟨rfl, rfl, trivial⟩

/-- Down writes under the lock exactly if there is nothing to erase. -/
theorem guards_keyDown : lock.Guards true (keyDownActions k) ↔ erased k = 0 := by
  refine guards_clear_cur_cmd k ⟨rfl, ?_⟩
  split
  · split <;> simp [lock.Guards]
  · exact ⟨rfl, trivial⟩

/-- A switch of terminals is made under the lock. -/
theorem guards_keyFunction (c : UInt8) : lock.Guards true (keyFunctionActions k c) := by
  simp only [keyFunctionActions, switch_terminal_actions]
  split
  · split
    · split
      · split
        · trivial
        · exact ⟨rfl, rfl, rfl, trivial⟩
      · trivial
    · trivial
  · trivial

theorem guards_keyCtrlFour : lock.Guards true (keyCtrlFourActions k) := by
  have hrtc (freq : UInt32) : lock.Guards true (rtc_write_actions freq) := by
    rw [rtc_write_actions]
    split <;> trivial
  exact hrtc _

end Safe

/-- The key gets to the label `print_char`. -/
def ReachesPrintChar (kbd : Keyboard) (c : UInt8) : Prop :=
  c < 0x80 ∧ c ∉ specialKeys ∧ ¬(c ∈ ctrlKeys ∧ kbd.ctrl = true)

/-- The key replaces the line by an entry of the history, or clears it. -/
def Replaces (con : Console) (c : UInt8) : Prop :=
  c = DOWN_KEY_P ∨ c = UP_KEY_P ∧
    strlen con.termMem (hist_buf con.vis_term_id ((con.terminals con.vis_term_id).cur_hist_index - 1)) ≠ 0

def LineFull (con : Console) : Prop := (con.terminals con.vis_term_id).key_buf_index.toNat = KEY_BUF_SIZE - 1

/-- A character that is typed is safe, unless the line is full: then interrupts stay disabled. -/
theorem safe_print_char (k : Kernel) (c : UInt8) : Safe (print_char_actions k c) ↔ ¬LineFull k.toConsole := by
  simp only [print_char_actions, LineFull]
  split
  · -- the early return leaves interrupts disabled
    exact iff_of_false (fun hsafe => Bool.false_ne_true hsafe.2.symm) (not_not_intro ‹_›)
  · refine iff_of_true ?_ ‹_›
    split
    · exact safe_write _
    · exact ⟨trivial, rfl⟩

/-- A key that types does nothing before the label `print_char`. -/
theorem inputActions_print {k : Kernel} {c : UInt8} (hreaches : ReachesPrintChar k.toKeyboard c) :
    inputActions k c = print_char_actions k c := by
  obtain ⟨hmake, hspecial, hcmd⟩ := hreaches
  simp only [specialKeys, navigationKeys, List.cons_append, List.nil_append, List.mem_cons, List.not_mem_nil,
    or_false, not_or] at hspecial
  simp only [ctrlKeys, List.mem_cons, List.not_mem_nil, or_false, or_and_right, not_or] at hcmd
  simp only [inputActions, hmake, hspecial, hcmd, or_false, if_true, if_false]

/-- Every other key but Up and Down. -/
theorem safe_inputActions {k : Kernel} {c : UInt8} (hreaches : ¬ReachesPrintChar k.toKeyboard c)
    (hup : c ≠ UP_KEY_P) (hdown : c ≠ DOWN_KEY_P) : Safe (inputActions k c) := by
  refine safe_ite (fun hmake => ?_) fun _ => ?_
  · refine safe_ite (fun _ => safe_write _) fun hbackspace => ?_
    refine safe_ite (fun _ => safe_write _) fun henter => ?_
    refine safe_ite (fun _ => safe_other _) fun hctrl => ?_
    refine safe_ite (fun _ => safe_other _) fun halt => ?_
    refine safe_ite (fun _ => ⟨⟨rfl, rfl, trivial⟩, rfl⟩) fun hclear => ?_
    refine safe_ite (fun _ => safe_other _) fun hl_shift => ?_
    refine safe_ite (fun _ => safe_other _) fun hr_shift => ?_
    refine safe_ite (fun _ => safe_other _) fun hcaps => ?_
    refine safe_ite (fun _ => safe_unlock.mpr (guards_keyFunction k c)) fun hfunction => ?_
    rw [if_neg hup, if_neg hdown]
    refine safe_ite (fun _ => safe_unlock.mpr (guards_keyCtrlFour k)) fun hfour => ?_
    refine safe_ite (fun _ => safe_other _) fun hfive => ?_
    refine absurd ⟨hmake, ?_, ?_⟩ hreaches
    · rw [not_or, not_or] at hfunction
      simp [specialKeys, navigationKeys, hbackspace, henter, hctrl, halt, hl_shift, hr_shift, hcaps, hfunction,
        hup, hdown]
    · simp only [ctrlKeys, List.mem_cons, List.not_mem_nil, or_false, or_and_right, not_or]
      exact ⟨hclear, hfour, hfive⟩
  · refine safe_ite (fun _ => safe_other _) fun _ => ?_
    refine safe_ite (fun _ => safe_other _) fun _ => ?_
    refine safe_ite (fun _ => safe_other _) fun _ => ⟨trivial, rfl⟩

/-- Every write to the terminals finds interrupts disabled, and the call returns with
    interrupts enabled. -/
def CriticalSection (k : Kernel) (c : UInt8) : Prop :=
  lock.Guards (!k.interrupts) (processActions k c) ∧ (process_input k c).interrupts = true

instance (k : Kernel) (c : UInt8) : Decidable (CriticalSection k c) := inferInstanceAs (Decidable (_ ∧ _))

/-- `process_input` is a critical section exactly if all that it does after its `cli` is safe. -/
theorem criticalSection_iff_safe {k : Kernel} {c : UInt8} :
    CriticalSection k c ↔ Safe (inputActions (cli k) c) := by
  rw [CriticalSection, ← perform_processActions, perform_interrupts, Bool.not_eq_true']
  rfl

/-- `process_input` keeps to its critical section unless it types into a full line, where it
    returns with interrupts disabled, or replaces a line that is not empty, where erasing the old
    line enables them. The scan code and the state of the kernel are not restricted. -/
theorem criticalSection_iff (k : Kernel) (c : UInt8) :
    CriticalSection k c ↔ (ReachesPrintChar k.toKeyboard c → ¬LineFull k.toConsole) ∧
      (Replaces k.toConsole c → toInt32 (k.terminals k.vis_term_id).key_buf_index ≤ 0) := by
  have hempty : toInt32 (k.terminals k.vis_term_id).key_buf_index ≤ 0 ↔ erased (cli k) = 0 :=
    Int.toNat_eq_zero.symm
  rw [criticalSection_iff_safe, hempty]
  by_cases hreaches : ReachesPrintChar k.toKeyboard c
  · have hreplaces : ¬Replaces k.toConsole c := by
      rintro (rfl | ⟨rfl, -⟩)
      · exact hreaches.2.1 (by decide)
      · exact hreaches.2.1 (by decide)
    rw [inputActions_print (k := cli k) hreaches, safe_print_char]
    exact ⟨fun hfull => ⟨fun _ => hfull, fun h => absurd h hreplaces⟩, fun h => h.1 hreaches⟩
  · rw [and_iff_right fun h => absurd h hreaches]
    by_cases hup : c = UP_KEY_P
    · subst hup
      rw [show inputActions (cli k) UP_KEY_P = keyUpActions (cli k) ++ [.release] from rfl, safe_unlock,
        guards_keyUp]
      exact imp_congr_left ⟨fun hentry => .inr ⟨rfl, hentry⟩, fun h => (h.resolve_left (by decide)).2⟩
    by_cases hdown : c = DOWN_KEY_P
    · subst hdown
      rw [show inputActions (cli k) DOWN_KEY_P = keyDownActions (cli k) ++ [.release] from rfl, safe_unlock,
        guards_keyDown]
      exact ⟨fun h _ => h, fun h => h (.inl rfl)⟩
    · have hreplaces : ¬Replaces k.toConsole c := fun h => h.elim hdown fun h => hup h.1
      exact iff_of_true (safe_inputActions (k := cli k) hreaches hup hdown) fun h => absurd h hreplaces

/-- Down after one letter, and the 129th letter of a line. -/
theorem input_leaves_critical_section :
    ¬CriticalSection (process_input blankMachine 0x1E) DOWN_KEY_P ∧
      ¬CriticalSection ((List.replicate 128 0x1E).foldl process_input blankMachine) 0x1E := by
  decide +kernel

end lacos.keyboard
