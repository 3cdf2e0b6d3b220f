import LacOS.Syscalls.FdTable
import LacOS.User.Shell

open memory capped program lacos.lib lacos.file_system lacos.pcb lacos.keyboard lacos.terminal lacos.syscalls

namespace lacos.user.shell

/-- The shell is the running process of the visible terminal, where a process it starts
    becomes its child. -/
structure OnTerminal (kbd : Keyboard) (k : Kernel) : Prop where
  sound : TableSound k
  visible : k.vis_term_id = k.sched_term_id
  flags : k.toKeyboard = { kbd with rtc_loop := k.rtc_loop }
  task : (k.terminals k.vis_term_id).cur_task = k.cur_pcb
  six : SixSlots k.pcb_status
  slot : ∃ n, k.cur_pcb = slotBlock n ∧ Taken k.pcb_status n
  regular : k.starting_new_shell = false

/-- The key buffer of its terminal is empty. -/
structure Ready (kbd : Keyboard) (k : Kernel) : Prop extends OnTerminal kbd k where
  keys : ∀ i, (k.terminals k.vis_term_id).key_buf i = 0
  index : (k.terminals k.vis_term_id).key_buf_index = 0

/-- The shell can read a line. -/
structure Waiting (kbd : Keyboard) (text : List UInt8) (k : Kernel) : Prop extends OnTerminal kbd k where
  entered : terminal.Entered k k (text ++ [10])
  nonzero : 0 ∉ text
  length : text.length ≤ 127

/-- What changes nothing about the tasks leaves the shell where it is. -/
theorem OnTerminal.of_tasks {kbd kbd' : Keyboard} {k k' : Kernel} (hk : OnTerminal kbd k)
    (htasks : k'.toTasks = k.toTasks) (hvis : k'.vis_term_id = k.vis_term_id)
    (hsched : k'.sched_term_id = k.sched_term_id)
    (htask : (k'.terminals k.vis_term_id).cur_task = (k.terminals k.vis_term_id).cur_task)
    (hflags : k'.toKeyboard = { kbd' with rtc_loop := k'.rtc_loop }) : OnTerminal kbd' k' where
  sound := hk.sound.of_tasks htasks
  visible := hvis.trans (hk.visible.trans hsched.symm)
  flags := hflags
  task := by
    rw [hvis, htask, htasks]
    exact hk.task
  six := by
    rw [htasks]
    exact hk.six
  slot := by
    rw [htasks]
    exact hk.slot
  regular := by
    rw [htasks]
    exact hk.regular

section Keys

/-- A key of a line concerns the console, the keyboard and the RTC only. -/
theorem process_input_toTasks (k : Kernel) {c : UInt8} (hkey : c ∉ navigationKeys) :
    (process_input k c).toTasks = k.toTasks := by
  have hprint : (print_char (cli k) c).toTasks = k.toTasks := by
    simp only [print_char]
    repeat' split
    all_goals rfl
  have hrtc : (keyCtrlFour (cli k)).toTasks = k.toTasks := by
    simp only [keyCtrlFour, rtc.rtc_write]
    repeat' split
    all_goals rfl
  simp only [navigationKeys, List.mem_cons, List.not_mem_nil, or_false, not_or] at hkey
  simp only [process_input, hkey, if_false, or_false, apply_ite Kernel.toTasks, sti_toTasks, cli_toTasks,
    Kernel.onConsole_toTasks, hprint, hrtc, ite_self]

theorem cur_task_of_prints {con con' : Console} {t : Fin MAX_TERM_NUM} {term : term_t}
    (hprints : Prints (con.setTerm t term) con') (hterm : term.cur_task = (con.terminals t).cur_task)
    (u : Fin MAX_TERM_NUM) : (con'.terminals u).cur_task = (con.terminals u).cur_task := by
  obtain ⟨scrn_r, scrn_c, curs_r, curs_c, hat⟩ := hprints.terminals u
  rw [hat]
  change ((con.setTerm t term).terminals u).cur_task = _
  by_cases hu : u = t
  · rw [hu, Console.setTerm_same, hterm]
  · rw [Console.setTerm_other _ _ _ hu]

theorem clearLine_cur_task (term : term_t) : (clearLine term).cur_task = term.cur_task := rfl

theorem record_cur_task (term : term_t) (command : List UInt8) :
    (record term command).cur_task = term.cur_task := by
  rw [record]
  repeat' split
  all_goals rfl

/-- The task of a terminal stays while a line is typed. -/
theorem key_cur_task {start k : Kernel} {kbd : Keyboard} {l : EditedLine} (hk : Typing start k kbd l) {c : UInt8}
    (hnav : c ∉ navigationKeys) (hclear : ¬(c = L_KEY_P ∧ kbd.ctrl = true)) (u : Fin MAX_TERM_NUM) :
    ((process_input k c).terminals u).cur_task = (k.terminals u).cur_task := by
  have hindex : (k.terminals k.vis_term_id).key_buf_index.toNat < KEY_BUF_SIZE := by
    rw [hk.vis_term_id]
    exact hk.holds.index_lt
  have hctrl : k.ctrl = kbd.ctrl := by rw [hk.flags]
  rw [process_input_toConsole k c hnav]
  by_cases hback : c = BACKSPACE_P
  · rw [if_pos hback]
    by_cases hempty : (k.terminals k.vis_term_id).key_buf_index = 0
    · rw [keyBackspace, hempty]
      rfl
    · exact cur_task_of_prints (prints_keyBackspace k.toConsole hempty hindex) rfl u
  rw [if_neg hback]
  by_cases henter : c = ENTER_KEY_P
  · rw [if_pos henter, keyEnter_eq]
    have hprints := prints_putc (k.toConsole.setTerm k.vis_term_id (endLine (k.terminals k.vis_term_id)))
      k.vis_term_id 10
    have htask := cur_task_of_prints hprints rfl
    by_cases hu : u = k.vis_term_id
    · rw [hu, Console.setTerm_same]
      exact htask _
    · rw [Console.setTerm_other _ _ _ hu]
      exact htask u
  rw [if_neg henter, hctrl, if_neg hclear]
  split
  · rfl
  · cases typed k.toKeyboard c with
    | none => rfl
    | some ch => exact cur_task_of_prints (prints_putKey k.toConsole ch hindex) rfl u

/-- Typing a line changes no task. -/
theorem inputs_frame {start k : Kernel} {kbd : Keyboard} {l : EditedLine} (hk : Typing start k kbd l)
    {codes : List UInt8} (hcodes : WithinLine kbd codes) : (inputs k codes).toTasks = k.toTasks ∧
      ∀ u, ((inputs k codes).terminals u).cur_task = (k.terminals u).cur_task := by
  induction codes generalizing k kbd l with
  | nil => exact ⟨rfl, fun _ => rfl⟩
  | cons c codes ih =>
    obtain ⟨⟨henter, hnav, hclear⟩, hrest⟩ := hcodes
    obtain ⟨htasks, htask⟩ := ih (hk.key henter hnav hclear) hrest
    exact ⟨htasks.trans (process_input_toTasks k hnav), fun u => (htask u).trans (key_cur_task hk hnav hclear u)⟩

end Keys

section Round

variable {kbd : Keyboard} {k : Kernel} (hk : Ready kbd k)
include hk

/-- A shell that waits for a line gets the one that is typed. -/
theorem Ready.type_line {codes : List UInt8} (hcodes : WithinLine kbd codes) :
    Waiting (codes.foldl modifiers kbd) (enteredLine kbd codes) (process_input (inputs k codes) ENTER_KEY_P) := by
  have hstart : Typing k k kbd empty := typing_start hk.flags hk.keys hk.index
  have htyped := hstart.inputs hcodes
  have hentered := htyped.enter
  obtain ⟨htasks, htask⟩ := inputs_frame hstart hcodes
  have htask' := key_cur_task htyped (c := ENTER_KEY_P) (by decide) (fun h => absurd h.1 (by decide)) k.vis_term_id
  refine ⟨hk.toOnTerminal.of_tasks ((process_input_toTasks _ (by decide)).trans htasks) hentered.vis_term_id
    hentered.sched_term_id (htask'.trans (htask _)) htyped.flags, ?_,
    fun h => htyped.nonzero 0 (List.mem_of_mem_take h) rfl, ?_⟩
  · have hline := hentered.line
    have hnew := hentered.new_line
    have hkeys := hentered.key_buf
    rw [← hentered.vis_term_id] at hline hnew hkeys
    exact ⟨rfl, rfl, hnew, hkeys, hline⟩
  · rw [enteredLine, List.length_take]
    exact Nat.min_le_left _ _

/-- Printing leaves a shell ready to read. -/
theorem Ready.putOut (out : List UInt8) : Ready kbd (putOut k out) := by
  have hprints := prints_puts k.toConsole k.sched_term_id out
  obtain ⟨scrn_r, scrn_c, curs_r, curs_c, hat⟩ := hprints.terminals k.vis_term_id
  have hterm : (user.putOut k out).terminals k.vis_term_id =
      (k.terminals k.vis_term_id).atPos scrn_r scrn_c curs_r curs_c := hat
  have hvis : (user.putOut k out).vis_term_id = k.vis_term_id := hprints.vis_term_id
  refine ⟨hk.toOnTerminal.of_tasks rfl hvis hprints.sched_term_id (by rw [hterm, term_t.atPos]) hk.flags, ?_, ?_⟩
  · rw [hvis, hterm]
    exact hk.keys
  · rw [hvis, hterm]
    exact hk.index

end Round

/-- The line as the shell's request. -/
def Asks (text : List UInt8) : Request → Prop
  | .leave status => text = chars "exit".toList ∧ status = 0
  | .again => text = []
  | .execute command => text ≠ [] ∧ text ≠ chars "exit".toList ∧ command.chars = text

section Command

variable {fs : Image} {kbd : Keyboard} {text : List UInt8} {t : Task} (ht : Waiting kbd text t.kernel)
  {buf : UInt32} (hbuf : buf ≠ NULL)
include ht

/-- What the read leaves behind. -/
theorem Waiting.ready_after {k' : Kernel} (htasks : k'.toTasks = t.kernel.toTasks)
    (hkeyboard : k'.toKeyboard = t.kernel.toKeyboard) (hconsole : k'.toConsole = afterRead t.kernel.toConsole)
    (hkeys : ∀ i, (k'.terminals t.kernel.vis_term_id).key_buf i = 0)
    (hindex : (k'.terminals t.kernel.vis_term_id).key_buf_index = 0) : Ready kbd k' := by
  have hafter := afterRead_eq t.kernel.toConsole fun hwipes => by
    have hempty := hwipes.1
    rw [← ht.visible, ht.entered.line] at hempty
    exact absurd hempty (by simp)
  rw [← ht.visible] at hafter
  have hvis : k'.vis_term_id = t.kernel.vis_term_id := by
    rw [hconsole, hafter]
    rfl
  refine ⟨ht.toOnTerminal.of_tasks htasks hvis (by rw [hconsole, hafter]; rfl) ?_ (by rw [hkeyboard]; exact ht.flags),
    by rwa [hvis], by rwa [hvis]⟩
  rw [hconsole, hafter, Console.setTerm_same, clearLine_cur_task, record_cur_task, takeLine, Console.setTerm_same]

include hbuf

/-- The read returns the line. -/
theorem Waiting.read : wp (ece391_read fs 0 buf (BUFSIZE - 1)) (fun value t' =>
    value = (text.length : Int) + 1 ∧ bytesAt t'.mem buf (text.length + 1) = text ++ [10] ∧
      Ready kbd t'.kernel) t := by
  have hlength := ht.length
  have hline : (text ++ [10]).length = text.length + 1 := List.length_append
  have hsize : (Int32.ofInt (BUFSIZE - 1)).toUInt32.toNat = 1023 := by decide
  have hread : sys_read fs t.kernel (Int32.ofInt 0) t.mem buf (Int32.ofInt (BUFSIZE - 1)) =
      terminal_read t.kernel t.mem buf (Int32.ofInt (BUFSIZE - 1)).toUInt32 := by
    have hfd : descIndex (Int32.ofInt 0) = some 0 := by decide
    have hvalid : ¬ (buf = NULL ∨ Int32.ofInt (BUFSIZE - 1) < 0) := not_or.mpr ⟨hbuf, by decide⟩
    simp only [sys_read, hfd, if_neg hvalid, ht.sound.stdin, f_ops_table.readOp]
  obtain ⟨m', k', hterminal, hbytes, hkeys, hindex⟩ := @Entered.read _ _ _ ht.entered ht.visible (by simp) t.mem
    buf (Int32.ofInt (BUFSIZE - 1)).toUInt32 (by omega)
  have heq := terminal_read_eq t.kernel t.mem buf (Int32.ofInt (BUFSIZE - 1)).toUInt32
    (terminal_read_ready hterminal)
  rw [hterminal, Option.some.injEq, Prod.mk.injEq, Prod.mk.injEq] at heq
  obtain ⟨-, -, hk'⟩ := heq
  rw [hline] at hbytes hterminal
  refine ⟨(text.length : Int) + 1, ⟨k', m'⟩, ?_, rfl, hbytes, ?_⟩
  · rw [ece391_read, hread, hterminal]
    rfl
  · exact ht.ready_after (by rw [hk']; rfl) (by rw [hk']; rfl) (by rw [hk']; rfl) hkeys hindex

/-- A line becomes the request it stands for. -/
theorem Waiting.takeCommand : wp (takeCommand fs buf) (fun request t' =>
    Asks text request ∧ Ready kbd t'.kernel) t := by
  have hlength := ht.length
  refine wp_bind (wp_mono (ht.read hbuf) ?_)
  rintro value t₁ ⟨rfl, hbytes, hready⟩
  rw [if_neg (by omega)]
  refine wp_bind (wp_memory ?_)
  have hat (j : Nat) (hj : j ≤ text.length) : t₁.mem (buf + UInt32.ofNat j) = (text ++ [10]).getD j 0 := by
    rw [← hbytes, bytesAt, List.getD_eq_getElem _ _ (by simp; omega), List.getElem_map, List.getElem_range]
  have hnewline : t₁.mem (buf + UInt32.ofInt ((text.length : Int) + 1 - 1)) = 10 := by
    rw [Int.add_sub_cancel, ofInt_natCast (by omega), hat _ (Nat.le_refl _), List.getD_append_right _ _ _ _ (Nat.le_refl _),
      Nat.sub_self]
    rfl
  rw [if_pos ⟨by omega, hnewline⟩, Int.add_sub_cancel]
  dsimp only
  rw [ofInt_natCast (by omega)]
  -- The terminator goes where the newline was.
  have htext : IsText (store t₁.mem (buf + UInt32.ofNat text.length) 0) buf text := by
    intro j hj
    by_cases hend : j = text.length
    · rw [hend, store, Function.update_self, List.getD_eq_default _ _ (Nat.le_refl _)]
    · have hne : buf + UInt32.ofNat j ≠ buf + UInt32.ofNat text.length := by
        intro h
        have hoffset := offset_toNat buf (i := j) (by omega)
        rw [h, offset_toNat buf (by omega)] at hoffset
        exact hend hoffset.symm
      rw [store, Function.update_of_ne hne, hat j hj, List.getD_append _ _ _ _ (by omega)]
  refine wp_bind ⟨(), _, rfl, wp_bind (wp_memory ?_)⟩
  have hexit : IsText (constant "exit".toList) CONSTANT (chars "exit".toList) := isText_constant (by decide)
  have hfuel : text.length < 2 ^ 32 := by omega
  obtain ⟨order, hstrcmp, horder⟩ := strcmp_loop_spec htext hexit ht.nonzero (by decide) hfuel
  refine wp_bind ⟨order, _, by rw [ece391_strcmp, hstrcmp]; rfl, ?_⟩
  dsimp only
  have hstring := nstring_of_isText htext (Nat.le_of_lt hfuel) ht.nonzero
  by_cases hleave : order = 0
  · rw [if_pos hleave]
    exact wp_pure ⟨⟨horder.mp hleave, rfl⟩, hready⟩
  rw [if_neg hleave]
  cases text with
  | nil =>
    rw [if_pos (isText_nil htext)]
    exact wp_pure ⟨rfl, hready⟩
  | cons c rest =>
    have hc : c ≠ 0 := fun h => ht.nonzero (h ▸ List.mem_cons_self)
    rw [if_neg (by rw [(isText_cons htext).1]; exact hc)]
    exact wp_pure ⟨⟨List.cons_ne_nil _ _, fun h => hleave (horder.mpr h), hstring⟩, hready⟩

end Command

end lacos.user.shell
