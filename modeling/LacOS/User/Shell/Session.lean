import LacOS.Syscalls.Execute.Load
import LacOS.Syscalls.Slots
import LacOS.System
import LacOS.User.Shell.Command

open memory capped program lacos.lib lacos.file_system lacos.pcb lacos.keyboard lacos.terminal lacos.syscalls trace

namespace lacos.user.shell

/-- What a program, and all that happens beside it, leaves of its parent until it ends: the
    parent's block and slot, and its terminal with nothing typed ahead. The program ends as the
    process it was started as. -/
structure Spares (k k' : Kernel) : Prop where
  cur_pcb : k'.cur_pcb = k.cur_pcb
  parent_task : (k'.pcbs k.cur_pcb).parent_task = (k.pcbs k.cur_pcb).parent_task
  parent : k'.pcbs (k.pcbs k.cur_pcb).parent_task = k.pcbs (k.pcbs k.cur_pcb).parent_task
  six : SixSlots k.pcb_status → SixSlots k'.pcb_status
  taken : ∀ n, (k.pcbs k.cur_pcb).parent_task = slotBlock n → Taken k.pcb_status n → Taken k'.pcb_status n
  starting_new_shell : k'.starting_new_shell = k.starting_new_shell
  vis_term_id : k'.vis_term_id = k.vis_term_id
  sched_term_id : k'.sched_term_id = k.sched_term_id
  keys : (k'.terminals k.vis_term_id).key_buf = (k.terminals k.vis_term_id).key_buf
  index : (k'.terminals k.vis_term_id).key_buf_index = (k.terminals k.vis_term_id).key_buf_index
  flags : k'.toKeyboard = { k.toKeyboard with rtc_loop := k'.rtc_loop }

section Tasks

variable {fs : Image} {kbd : Keyboard} {k k' : Kernel} (hk : Ready kbd k)
include hk

/-- A command that is refused leaves the shell as it was. -/
theorem Ready.refused (hrefused : Refused k k') (hkeyboard : k'.toKeyboard = k.toKeyboard) : Ready kbd k' := by
  obtain ⟨scrn_r, scrn_c, curs_r, curs_c, hat⟩ := hrefused.prints.terminals k.vis_term_id
  obtain ⟨n, hcur, htaken⟩ := hk.slot
  have hn := hk.six n htaken
  -- The block that was taken is not the shell's.
  have hkept : k'.pcbs k.cur_pcb = k.pcbs k.cur_pcb ∧ SixSlots k'.pcb_status ∧ Taken k'.pcb_status n := by
    obtain ⟨hstatus, hpcbs⟩ | ⟨m, hm, hfree, hstatus, io_files, tail, hpcbs⟩ := hrefused.six hk.six
    · rw [hpcbs, hstatus]
      exact ⟨rfl, hk.six, htaken⟩
    · have hne : n ≠ m := fun heq => hfree (heq ▸ htaken)
      have hblock : slotBlock n ≠ slotBlock m := fun heq => hne ((slotBlock_inj (by omega) (by omega)).mp heq)
      refine ⟨by rw [hpcbs, hcur, Function.update_of_ne hblock], fun i hi => ?_, ?_⟩
      · rw [hstatus, taken_or (by omega)] at hi
        exact hi.elim (fun heq => heq ▸ hm) (hk.six i)
      · rw [hstatus, taken_or (by omega)]
        exact .inr htaken
  have hterm : k'.terminals k'.vis_term_id = (k.terminals k.vis_term_id).atPos scrn_r scrn_c curs_r curs_c := by
    rw [← hat, hrefused.prints.vis_term_id]
  exact {
    sound := hk.sound.congr hrefused.cur_pcb (fun i => by rw [Kernel.desc, hkept.1, Kernel.desc])
      (fun i => by rw [Kernel.desc, hkept.1, Kernel.desc])
    visible := hrefused.prints.vis_term_id.trans (hk.visible.trans hrefused.prints.sched_term_id.symm)
    flags := by
      rw [hkeyboard]
      exact hk.flags
    task := by
      rw [hterm, hrefused.cur_pcb]
      exact hk.task
    six := hkept.2.1
    slot := ⟨n, hrefused.cur_pcb.trans hcur, hkept.2.2⟩
    regular := hrefused.starting_new_shell.trans hk.regular
    keys := by
      rw [hterm]
      exact hk.keys
    index := by
      rw [hterm]
      exact hk.index }

/-- What a shell starts becomes its child, since its terminal is visible. -/
theorem Ready.startParent_eq : startParent k = k.cur_pcb := by
  rw [startParent, hk.regular, if_neg Bool.false_ne_true, hk.task]

/-- The shell is current again, with its block, its slot and its terminal. -/
theorem Ready.resumed {released : Kernel} (hcur : released.cur_pcb = k.cur_pcb)
    (hblock : ∃ esp, released.pcbs k.cur_pcb = { k.pcbs k.cur_pcb with esp := esp })
    (hsix : SixSlots released.pcb_status)
    (hslot : ∀ n, k.cur_pcb = slotBlock n → Taken k.pcb_status n → Taken released.pcb_status n)
    (hshell : released.starting_new_shell = k.starting_new_shell) (hvis : released.vis_term_id = k.vis_term_id)
    (hsched : released.sched_term_id = k.sched_term_id)
    (hterm : (released.terminals k.vis_term_id).cur_task = k.cur_pcb ∧
      (released.terminals k.vis_term_id).key_buf = (k.terminals k.vis_term_id).key_buf ∧
      (released.terminals k.vis_term_id).key_buf_index = (k.terminals k.vis_term_id).key_buf_index)
    (hflags : released.toKeyboard = { k.toKeyboard with rtc_loop := released.rtc_loop }) (frame : Frame) :
    Ready kbd (resumeParent released frame) := by
  obtain ⟨esp, hblock⟩ := hblock
  obtain ⟨n, hn, htaken⟩ := hk.slot
  have hdesc (i : Fin MAX_DESC) : (resumeParent released frame).desc k.cur_pcb i = k.desc k.cur_pcb i := by
    change (released.pcbs k.cur_pcb).io_files i = _
    rw [hblock, Kernel.desc]
  have hterm' : (resumeParent released frame).terminals (resumeParent released frame).vis_term_id =
      released.terminals k.vis_term_id := congrArg released.terminals hvis
  exact {
    sound := hk.sound.congr hcur (fun i => by rw [hdesc]) (fun i => by rw [hdesc])
    visible := hvis.trans (hk.visible.trans hsched.symm)
    flags := by
      change released.toKeyboard = _
      rw [hflags, hk.flags]
      rfl
    task := by
      rw [hterm', hterm.1]
      exact hcur.symm
    six := hsix
    slot := ⟨n, hcur.trans hn, hslot n hn htaken⟩
    regular := hshell.trans hk.regular
    keys := by
      rw [hterm', hterm.2.1]
      exact hk.keys
    index := by
      rw [hterm', hterm.2.2]
      exact hk.index }

/-- A process that the shell has started goes back to the shell when it halts. -/
theorem Ready.returns {n : Nat} (hn : n < 6) (hfree : ¬ Taken k.pcb_status n) (hlaunched : Launched k k' n)
    (hkeyboard : k'.toKeyboard = k.toKeyboard) {ended : Kernel} (hspares : Spares k' ended) (status : UInt8)
    (locals : Locals) : ∃ frame value resumed, sys_halt fs ended status locals = some (.resumed frame value, resumed) ∧
      frame.caller = k.running ∧ Ready kbd resumed := by
  obtain ⟨m, hcur, htaken⟩ := hk.slot
  have hm := hk.six m htaken
  have hblock : k.cur_pcb ≠ slotBlock n := by
    rw [hcur]
    exact fun heq => hfree ((slotBlock_inj (by omega) (by omega)).mp heq ▸ htaken)
  have hparent : (k'.pcbs k'.cur_pcb).parent_task = k.cur_pcb := by
    rw [hlaunched.cur_pcb, hlaunched.parent_task, hk.startParent_eq]
  have hstatus (i : Nat) : Taken k'.pcb_status i ↔ i = n ∨ Taken k.pcb_status i := by
    rw [hlaunched.pcb_status, taken_or (by omega)]
  have hended : ended.cur_pcb = slotBlock n := hspares.cur_pcb.trans hlaunched.cur_pcb
  have hended' : (ended.pcbs ended.cur_pcb).parent_task = k.cur_pcb := by
    rw [hspares.cur_pcb, hspares.parent_task, hparent]
  have hnull : ended.cur_pcb ≠ NULL := hended ▸ slotBlock_ne_null (by omega)
  have hreleased := release_released hnull
  have hsched : ended.sched_term_id = k.vis_term_id := by
    rw [hspares.sched_term_id, hlaunched.sched_term_id, hk.visible]
  -- The stack pointers are still those that `sys_execute` has saved.
  have hsaved : (release ended).pcbs k.cur_pcb =
      { k.pcbs k.cur_pcb with esp := some { caller := k.running, child := newProcess k (slotBlock n) } } := by
    have hold := hlaunched.parent (by rwa [hk.startParent_eq]) hk.regular
    rw [hk.startParent_eq] at hold
    rw [hreleased.pcbs, hended, Function.update_of_ne hblock, ← hparent, hspares.parent, hparent, hold]
  obtain ⟨value, hhalt⟩ := @sys_halt_resumed fs ended status locals hnull (hended' ▸ hk.sound.current) _
    (by rw [hended', hsaved])
  refine ⟨_, value, _, hhalt, rfl, hk.resumed (hreleased.cur_pcb.trans hended') ⟨_, hsaved⟩ ?_ ?_ ?_ ?_ ?_ ?_ ?_ _⟩
  · intro i hi
    rw [hreleased.pcb_status, hended, haltSlot_block (by omega), taken_clear (by omega)] at hi
    refine hspares.six (fun j hj => ?_) i hi.2
    exact ((hstatus j).mp hj).elim (fun heq => heq ▸ hn) (hk.six j)
  · intro i hi htaken
    rw [hreleased.pcb_status, hended, haltSlot_block (by omega), taken_clear (by omega)]
    exact ⟨fun heq => hblock (heq ▸ hi), hspares.taken i (hparent.trans hi) ((hstatus i).mpr (.inr htaken))⟩
  · rw [hreleased.starting_new_shell, hspares.starting_new_shell, hlaunched.starting_new_shell]
  · rw [hreleased.vis_term_id, hspares.vis_term_id, hlaunched.vis_term_id]
  · rw [hreleased.sched_term_id, hsched, hk.visible]
  · have hkeys := hspares.keys
    have hindex := hspares.index
    have hterm : k'.terminals k.vis_term_id = { k.terminals k.vis_term_id with cur_task := slotBlock n } := by
      rw [hlaunched.terminals, startTerm, hk.regular, if_neg Bool.false_ne_true, Function.update_self]
    rw [hlaunched.vis_term_id, hterm] at hkeys hindex
    rw [hreleased.terminals, hsched, Function.update_self]
    exact ⟨hended', hkeys, hindex⟩
  · rw [release_toKeyboard hnull, hspares.flags, hkeyboard]

end Tasks

/-- The process that a command has started has its word as name and its argument. -/
structure Runs (command : CString) (k : Kernel) : Prop where
  name : ∀ word arg, CommandLine command word arg → IsText (k.pcbs k.cur_pcb).tail CMD_NAME word
  started : ∀ word arg, CommandLine command word arg → Started k arg

/-- A command that starts a process runs. -/
theorem runs_of_execute {fs : Image} {k k' : Kernel} {command : CString} {locals : Locals} {entry : UInt32}
    (hexecute : sys_execute fs k command locals = some (.entered entry, k')) : Runs command k' where
  name word arg hline := by
    obtain ⟨hword, harg⟩ := hline.parsed
    obtain ⟨blk, htail⟩ := sys_execute_tail hexecute
    rw [htail, ← hword]
    exact storeCommand_name blk (harg ▸ hline.arg_length)
  started _ _ hline := started_of_execute hline hexecute

/-- A process that the command has started is the one it asks for. -/
def Execution.Sound (execution : Execution) : Prop := ∀ k, execution.started = some k → Runs execution.command k

section Execute

variable {fs : Image} {kbd : Keyboard} {t : Task} (ht : Ready kbd t.kernel)
include ht

/-- A message of the shell leaves it ready to read. -/
theorem Ready.say {text : List Char} (hnonzero : 0 ∉ chars text) (hlength : text.length < 2 ^ 31) :
    wp (fdputs_constant 1 text) (fun _ t' => Ready kbd t'.kernel) t := by
  have hlength' : (chars text).length < 2 ^ 31 := by
    rw [chars, List.length_map]
    exact hlength
  exact ⟨(), _, fdputs_eq ht.sound (by decide) (isText_constant (by omega)) hnonzero hlength', ht.putOut _⟩

/-- So does the report on how a program has ended. -/
theorem Ready.showResult (rval : Int) : wp (showResult rval) (fun _ t' => Ready kbd t'.kernel) t := by
  rw [shell.showResult]
  split
  · exact ht.say (by decide) (by decide)
  · split
    · exact ht.say (by decide) (by decide)
    · split
      · exact ht.say (by decide) (by decide)
      · exact wp_pure ht

/-- `sys_execute` has a result for each command of a shell: there is a parent, and the argument of
    a line fits its place. -/
theorem Ready.answers (fs : Image) {command : CString} (hlength : command.chars.length ≤ 127) (locals : Locals) :
    ∃ outcome k', sys_execute fs t.kernel command locals = some (outcome, k') := by
  have hparent : t.kernel.starting_new_shell = false → startParent t.kernel ≠ NULL := by
    intro _
    rw [ht.startParent_eq]
    exact ht.sound.current
  have hfits : (commandArg command).length < BLOCK_END := by
    have harg := commandArg_length_le command
    simp only [BLOCK_END]
    omega
  have hverdict : ∃ outcome, verdict fs t.kernel command locals = some outcome := by
    by_cases hfull : our_popcount t.kernel.pcb_status = MAX_PROCESSES
    · exact ⟨_, verdict_full hfull⟩
    · obtain hrefused | ⟨entry, hentered⟩ := @verdict_cases fs _ command locals hfull hparent hfits
      · exact ⟨_, hrefused⟩
      · exact ⟨_, hentered⟩
  obtain ⟨outcome, hverdict⟩ := hverdict
  obtain ⟨k', hexecute⟩ := verdict_eq_some.mp hverdict
  exact ⟨outcome, k', hexecute⟩

/-- A command is refused, or starts a process; the shell goes on at once or when the process
    has ended. -/
theorem Ready.execute {command : CString} (hlength : command.chars.length ≤ 127) {line : Line}
    (hprogram : ∀ k status ended, line.program k = some (status, ended) → Spares k ended) :
    wp (ece391_execute fs command line) (fun execution t' => execution.command = command ∧ execution.Sound ∧
      (execution.rval ≠ none → Ready kbd t'.kernel)) t := by
  obtain ⟨outcome, k', hexecute⟩ := ht.answers fs hlength line.locals
  have hkeyboard := sys_execute_toKeyboard hexecute
  cases outcome with
  | returned rval =>
    have hrun : ece391_execute fs command line t = some (⟨command, none, some rval⟩, { t with kernel := k' }) := by
      simp only [ece391_execute, hexecute, Option.bind_some]
    refine ⟨_, _, hrun, rfl, fun k hk => (Option.some_ne_none k hk.symm).elim, fun _ => ?_⟩
    obtain ⟨-, -, hrefused⟩ | ⟨-, -, ⟨entry, hentry⟩, -⟩ := sys_execute_cases hexecute
    · exact ht.refused hrefused hkeyboard
    · cases hentry
  | entered entry =>
    have hsound (rval : Option Int) : Execution.Sound ⟨command, some k', rval⟩ :=
      fun k hk => Option.some.inj hk ▸ runs_of_execute hexecute
    cases hprog : line.program k' with
    | none =>
      have hrun : ece391_execute fs command line t = some (⟨command, some k', none⟩, { t with kernel := k' }) := by
        simp only [ece391_execute, hexecute, Option.bind_some, hprog]
      exact ⟨_, _, hrun, rfl, hsound none, fun hne => absurd rfl hne⟩
    | some result =>
      obtain ⟨status, ended⟩ := result
      obtain ⟨n, hn, hfree, hlaunched⟩ := sys_execute_entered ht.six hexecute
      obtain ⟨frame, value, resumed, hhalt, hcaller, hready⟩ :=
        @Ready.returns fs _ _ _ ht _ hn hfree hlaunched hkeyboard _ (hprogram k' status ended hprog) status line.locals
      have hrun : ece391_execute fs command line t =
          some (⟨command, some k', some value⟩, { t with kernel := resumed }) := by
        simp only [ece391_execute, hexecute, Option.bind_some, hprog, hhalt, if_pos hcaller]
      exact ⟨_, _, hrun, rfl, hsound _, fun _ => hready⟩

end Execute

/-- The shell has followed the lines up to the last one, to `exit`, or to the command whose
    program has not ended. -/
def Followed (lines : List (List UInt8)) (ran : List Execution) (stop : Stop) : Prop :=
  ∃ done, chars "exit".toList ∉ done ∧ ran.map (·.command.chars) = done.filter (· ≠ []) ∧
    (∀ execution ∈ ran, execution.Sound) ∧
    match stop with
    | .waiting => done = lines
    | .left status => done ++ [chars "exit".toList] <+: lines ∧ status = 0
    | .running => done <+: lines ∧ ∃ execution, ran.getLast? = some execution ∧ execution.rval = none

section Followed

variable {lines : List (List UInt8)} {ran : List Execution} {stop : Stop}

theorem followed_waiting : Followed [] [] .waiting :=
  ⟨[], List.not_mem_nil, rfl, fun _ hmem => absurd hmem List.not_mem_nil, rfl⟩

theorem followed_exit : Followed (chars "exit".toList :: lines) [] (.left 0) :=
  ⟨[], List.not_mem_nil, rfl, fun _ hmem => absurd hmem List.not_mem_nil,
    List.cons_prefix_cons.mpr ⟨rfl, List.nil_prefix⟩, rfl⟩

/-- A command that starts a process and is not back yet ends what can be followed. -/
theorem followed_running {execution : Execution} (hnil : execution.command.chars ≠ [])
    (hexit : execution.command.chars ≠ chars "exit".toList) (hsound : execution.Sound) (hrval : execution.rval = none) :
    Followed (execution.command.chars :: lines) [execution] .running := by
  refine ⟨[execution.command.chars], ?_, ?_, ?_, List.cons_prefix_cons.mpr ⟨rfl, List.nil_prefix⟩, execution, rfl, hrval⟩
  · rw [List.mem_singleton]
    exact hexit.symm
  · simp [hnil]
  · intro other hmem
    exact List.mem_singleton.mp hmem ▸ hsound

/-- One more line before the others, and the command that it was. -/
theorem Followed.cons {line : List UInt8} {more : List Execution} (h : Followed lines ran stop)
    (hexit : line ≠ chars "exit".toList) (hmore : more.map (·.command.chars) = [line].filter (· ≠ []))
    (hsound : ∀ execution ∈ more, execution.Sound) : Followed (line :: lines) (more ++ ran) stop := by
  obtain ⟨done, hdone, hran, hall, hstop⟩ := h
  refine ⟨line :: done, ?_, ?_, ?_, ?_⟩
  · rw [List.mem_cons, not_or]
    exact ⟨hexit.symm, hdone⟩
  · rw [List.map_append, hmore, hran, ← List.filter_append]
    rfl
  · intro execution hmem
    exact (List.mem_append.mp hmem).elim (hsound execution) (hall execution)
  · cases stop with
    | waiting => exact congrArg (List.cons line) hstop
    | left status => exact ⟨List.cons_prefix_cons.mpr ⟨rfl, hstop.1⟩, hstop.2⟩
    | running =>
      obtain ⟨hleading, execution, hlast, hrval⟩ := hstop
      exact ⟨List.cons_prefix_cons.mpr ⟨rfl, hleading⟩, execution, by rw [List.getLast?_append, hlast]; rfl, hrval⟩

end Followed

section Session

variable {fs : Image} {buf : UInt32} (hbuf : buf ≠ NULL)
include hbuf

/-- A session follows its lines. By induction on them, with the shell ready to read before each.
    -/
theorem session_follows {lines : List Line} {kbd : Keyboard} {t : Task} (ht : Ready kbd t.kernel)
    (hlines : WithinLines kbd lines)
    (hprograms : ∀ line ∈ lines, ∀ k status ended, line.program k = some (status, ended) → Spares k ended) :
    wp (session fs buf lines) (fun result _ => Followed (typedLines kbd lines) result.1 result.2) t := by
  induction lines generalizing kbd t with
  | nil => exact wp_bind (wp_mono (ht.say (by decide) (by decide)) fun _ t' _ => wp_pure followed_waiting)
  | cons line rest ih =>
    obtain ⟨hcodes, hrest⟩ := hlines
    have hothers := fun other hother => hprograms other (List.mem_cons_of_mem line hother)
    refine wp_bind (wp_mono (ht.say (by decide) (by decide)) fun _ t₁ h₁ => ?_)
    refine wp_bind ⟨(), _, rfl, ?_⟩
    refine wp_bind (wp_mono ((h₁.type_line hcodes).takeCommand hbuf) ?_)
    rintro request t₂ ⟨hasks, h₂⟩
    rw [typedLines]
    cases request with
    | leave status =>
      obtain ⟨hexit, rfl⟩ := hasks
      rw [hexit]
      exact wp_pure followed_exit
    | again =>
      refine wp_mono (ih h₂ hrest hothers) fun result t' h => ?_
      have hline : enteredLine kbd line.codes = [] := hasks
      rw [hline]
      exact @Followed.cons _ _ _ _ [] h (by decide) rfl fun _ hmem => absurd hmem List.not_mem_nil
    | execute command =>
      obtain ⟨hnil, hexit, hchars⟩ := hasks
      have hlength : command.chars.length ≤ 127 := by
        rw [hchars]
        exact (h₁.type_line hcodes).length
      rw [← hchars] at hnil hexit ⊢
      refine wp_bind (wp_mono (h₂.execute hlength (hprograms line List.mem_cons_self)) ?_)
      rintro execution t₃ ⟨rfl, hsound, hready⟩
      cases hrval : execution.rval with
      | none => exact wp_pure (followed_running hnil hexit hsound hrval)
      | some rval =>
        have h₃ := hready (hrval ▸ Option.some_ne_none rval)
        refine wp_bind (wp_mono (h₃.showResult rval) fun _ t₄ h₄ => ?_)
        refine wp_bind (wp_mono (ih h₄ hrest hothers) fun result t' h => wp_pure ?_)
        have hmore : [execution].map (·.command.chars) = [execution.command.chars].filter (· ≠ []) := by simp [hnil]
        exact h.cons hexit hmore fun other hmem => List.mem_singleton.mp hmem ▸ hsound

end Session

/-- `shell`, with a letter too many taken back, which starts a shell that halts at once; an
    empty line; `ab`, which is no command; and `exit`. -/
def fourLines : List Line :=
  let locals : Locals := ⟨fun _ => 0, fun _ => 0⟩
  let halts : Program := fun k => some (5, k)
  [⟨[0x1F, 0x23, 0x12, 0x26, 0x26, 0x2D, BACKSPACE_P], locals, halts⟩, ⟨[], locals, halts⟩,
    ⟨[0x1E, 0x30], locals, halts⟩, ⟨[0x12, 0x2D, 0x17, 0x14], locals, halts⟩]

theorem spares_self (k : Kernel) : Spares k k :=
  ⟨rfl, rfl, rfl, id, fun _ _ htaken => htaken, rfl, rfl, rfl, rfl, rfl, rfl⟩

end lacos.user.shell
