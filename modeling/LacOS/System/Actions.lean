import LacOS.Syscalls.Args
import LacOS.Syscalls.Files
import LacOS.Syscalls.Vidmap
import LacOS.Terminal.Read

open memory lacos.lib lacos.file_system lacos.paging lacos.pcb lacos.keyboard lacos.terminal lacos.syscalls

namespace lacos.system

/-- The page that the running program sees at `PROGRAM_VIRT`. -/
def ownPage (k : Kernel) : UInt32 := resolve_virt_addr k.toPaging PROGRAM_VIRT

def ownMemory (k : Kernel) : Mem := k.pages (ownPage k)

def setOwnMemory (k : Kernel) (m : Mem) : Kernel :=
  { k with pages := Function.update k.pages (ownPage k) m }

/-- What the running program does that starts and ends no process: it stores a byte, or
    makes a system call. -/
inductive Action where
  | store (addr : UInt32) (value : UInt8)
  | sys_read (fd : Int32) (buf : UInt32) (nbytes : Int32)
  | sys_write (fd : Int32) (buf : UInt32) (nbytes : Int32)
  | sys_open (filename : UInt32)
  | sys_close (fd : Int32)
  | sys_getargs (buf : UInt32) (nbytes : Int32)
  | sys_vidmap (screen_start : UInt32)

def act (fs : Image) (k : Kernel) : Action → Option Kernel
  | .store addr value => some (setOwnMemory k (store (ownMemory k) addr value))
  | .sys_read fd buf nbytes =>
    (sys_read fs k fd (ownMemory k) buf nbytes).map fun (_, m, k) => setOwnMemory k m
  | .sys_write fd buf nbytes => some (sys_write k fd (ownMemory k) buf nbytes).2
  | .sys_open filename => (sys_open fs k (ownMemory k) filename).map (·.2)
  | .sys_close fd => some (sys_close k fd).2
  | .sys_getargs buf nbytes => some (setOwnMemory k (sys_getargs k (ownMemory k) buf nbytes).2)
  | .sys_vidmap screen_start => some (sys_vidmap k screen_start).2

/-- The `n` bytes at an address are in the page of the program. -/
def InPage (p : UInt32) (n : Nat) : Prop :=
  PROGRAM_VIRT.toNat ≤ p.toNat ∧ p.toNat + n ≤ PROGRAM_VIRT.toNat + 0x400000

instance (p : UInt32) (n : Nat) : Decidable (InPage p n) :=
  inferInstanceAs (Decidable (_ ∧ _))

/-- The program stores to its own page, and gives the kernel room there to store results in;
    no system call checks that, and a directory fills 32 bytes of any buffer. A line that
    `add_to_history` would store over everything is not read. -/
def Proper (k : Kernel) : Action → Prop
  | .store addr _ => InPage addr 1
  | .sys_read fd buf nbytes => InPage buf (max nbytes.toNatClampNeg FILENAME_LEN) ∧
    ∀ i, descIndex fd = some i → (k.desc k.cur_pcb i).file_ops = .stdin →
      ¬ Wipes ((takeLine k.toConsole k.sched_term_id).terminals k.vis_term_id)
        (line (k.terminals k.sched_term_id))
  | .sys_getargs buf nbytes => InPage buf nbytes.toNatClampNeg
  | .sys_vidmap screen_start => (sys_vidmap k screen_start).1 ≠ -1 → InPage screen_start 4
  | _ => True

instance (k : Kernel) (action : Action) : Decidable (Proper k action) := by
  cases action <;> unfold Proper <;> infer_instance

/-- The terminals keep their tasks and screens. -/
structure TasksKept (con con' : Console) : Prop where
  cur_task : ∀ t, (con'.terminals t).cur_task = (con.terminals t).cur_task
  esp : ∀ t, (con'.terminals t).esp = (con.terminals t).esp
  vid_mem : ∀ t, (con'.terminals t).vid_mem = (con.terminals t).vid_mem
  vis_term_id : con'.vis_term_id = con.vis_term_id
  sched_term_id : con'.sched_term_id = con.sched_term_id

/-- A system call has changed no more than the descriptors of the current process. -/
structure Served (k k' : Kernel) : Prop where
  console : TasksKept k.toConsole k'.toConsole
  tasks : ∃ io_files, k'.toTasks =
    { k.toTasks with pcbs := Function.update k.pcbs k.cur_pcb { k.pcbs k.cur_pcb with io_files := io_files } }
  paging : k'.toPaging = k.toPaging

/-- All that an action can do besides: change the page of the running program. -/
def Acted (k k' : Kernel) : Prop := ∃ served m, Served k served ∧ k' = setOwnMemory served m

section Kept

variable {con con' : Console}

theorem tasksKept_refl (con : Console) : TasksKept con con :=
  ⟨fun _ => rfl, fun _ => rfl, fun _ => rfl, rfl, rfl⟩

/-- Printing leaves the terminals their tasks and screens. -/
theorem tasksKept_of_prints (hprints : Prints con con') : TasksKept con con' := by
  have hterm (t : Fin MAX_TERM_NUM) : ∃ scrn_r scrn_c curs_r curs_c,
      con'.terminals t = (con.terminals t).atPos scrn_r scrn_c curs_r curs_c := hprints.terminals t
  refine ⟨fun t => ?_, fun t => ?_, fun t => ?_, hprints.vis_term_id, hprints.sched_term_id⟩
  all_goals
    obtain ⟨_, _, _, _, ht⟩ := hterm t
    rw [ht, term_t.atPos]

/-- So does any change to a terminal that keeps its task, its stack pointers and the place of its
    screen. -/
theorem tasksKept_setTerm {t : Fin MAX_TERM_NUM} {term : term_t}
    (htask : term.cur_task = (con.terminals t).cur_task) (hesp : term.esp = (con.terminals t).esp)
    (hvid : term.vid_mem = (con.terminals t).vid_mem) : TasksKept con (con.setTerm t term) := by
  refine ⟨fun u => ?_, fun u => ?_, fun u => ?_, rfl, rfl⟩
  all_goals
    by_cases hu : u = t
    · rw [hu, Console.setTerm_same]
      assumption
    · rw [Console.setTerm_other _ _ _ hu]

theorem TasksKept.trans {con'' : Console} (h : TasksKept con con') (h' : TasksKept con' con'') :
    TasksKept con con'' :=
  ⟨fun t => (h'.cur_task t).trans (h.cur_task t), fun t => (h'.esp t).trans (h.esp t),
    fun t => (h'.vid_mem t).trans (h.vid_mem t), h'.vis_term_id.trans h.vis_term_id,
    h'.sched_term_id.trans h.sched_term_id⟩

/-- Recording a command writes the fields of the history only, whatever the command is. -/
theorem record_eq (term : term_t) (command : List UInt8) :
    ∃ hist_buf hist_buf_index cur_hist_index, record term command =
      { term with hist_buf := hist_buf, hist_buf_index := hist_buf_index, cur_hist_index := cur_hist_index } := by
  rw [record]
  repeat' split
  all_goals exact ⟨_, _, _, rfl⟩

/-- What a read of a line leaves of the terminals. -/
theorem tasksKept_afterRead (hwipes : ¬ Wipes ((takeLine con con.sched_term_id).terminals con.vis_term_id)
    (line (con.terminals con.sched_term_id))) : TasksKept con (afterRead con) := by
  obtain ⟨_, _, _, hrecord⟩ := record_eq ((takeLine con con.sched_term_id).terminals con.vis_term_id)
    (line (con.terminals con.sched_term_id)).dropLast
  have htake : TasksKept con (takeLine con con.sched_term_id) := tasksKept_setTerm rfl rfl rfl
  rw [afterRead_eq con hwipes, hrecord]
  exact htake.trans (tasksKept_setTerm rfl rfl rfl)

end Kept

section Served

variable {k k' : Kernel}

/-- A call that works on the terminals, and leaves tasks and paging alone, changes no descriptor.
    -/
theorem served_of_console (hconsole : TasksKept k.toConsole k'.toConsole) (htasks : k'.toTasks = k.toTasks)
    (hpaging : k'.toPaging = k.toPaging) : Served k k' := by
  refine ⟨hconsole, ⟨(k.pcbs k.cur_pcb).io_files, ?_⟩, hpaging⟩
  rw [htasks, Function.update_eq_self]

theorem served_self (k : Kernel) : Served k k :=
  served_of_console (tasksKept_refl _) rfl rfl

/-- Changing a descriptor of the current process is what a system call may do. -/
theorem served_setDesc (k : Kernel) (fd : Fin MAX_DESC) (desc : fdesc_t) :
    Served k (k.setDesc k.cur_pcb fd desc) :=
  ⟨tasksKept_refl _, ⟨_, rfl⟩, rfl⟩

/-- System calls one after the other change no more than descriptors. The current process is the
    same for both. -/
theorem Served.trans {k'' : Kernel} (h : Served k k') (h' : Served k' k'') : Served k k'' := by
  obtain ⟨io_files, htasks⟩ := h.tasks
  obtain ⟨io_files', htasks'⟩ := h'.tasks
  refine ⟨h.console.trans h'.console, ⟨io_files', ?_⟩, h'.paging.trans h.paging⟩
  rw [htasks', htasks]
  simp only [Function.update_self, Function.update_idem]

theorem Served.cur_pcb (hserved : Served k k') : k'.cur_pcb = k.cur_pcb := by
  obtain ⟨io_files, htasks⟩ := hserved.tasks
  rw [htasks]

theorem Served.pcb_status (hserved : Served k k') : k'.pcb_status = k.pcb_status := by
  obtain ⟨io_files, htasks⟩ := hserved.tasks
  rw [htasks]

/-- The blocks of the other processes stay as they are. -/
theorem Served.other (hserved : Served k k') {p : UInt32} (hp : p ≠ k.cur_pcb) : k'.pcbs p = k.pcbs p := by
  obtain ⟨io_files, htasks⟩ := hserved.tasks
  rw [htasks]
  dsimp only
  rw [Function.update_of_ne hp]

/-- Of every block only the descriptors can have changed. -/
theorem Served.block (hserved : Served k k') (p : UInt32) :
    ∃ io_files, k'.pcbs p = { k.pcbs p with io_files := io_files } := by
  by_cases hp : p = k.cur_pcb
  · obtain ⟨io_files, htasks⟩ := hserved.tasks
    refine ⟨io_files, ?_⟩
    rw [htasks, hp]
    dsimp only
    rw [Function.update_self]
  · exact ⟨(k.pcbs p).io_files, hserved.other hp⟩

/-- The rate of the clock is no part of a process. -/
theorem served_set_int_freq (k : Kernel) (new_freq : UInt32) : Served k (rtc.set_int_freq k new_freq) :=
  served_of_console (tasksKept_refl _) rfl rfl

theorem served_rtc_write (k : Kernel) (new_freq : UInt32) (nbytes : Int) :
    Served k (rtc.rtc_write k new_freq nbytes).2 := by
  rw [rtc.rtc_write]
  split
  · exact served_self k
  · exact served_of_console (tasksKept_refl _) rfl rfl

/-- Closing a descriptor of the current process changes that one, for any number. -/
theorem served_close_file_desc (k : Kernel) (fd : UInt32) :
    Served k (close_file_desc k k.cur_pcb fd).2 := by
  rw [close_file_desc]
  split
  · exact (served_setDesc k _ _).trans (served_setDesc _ _ _)
  · exact served_self k

/-- The `open` functions of the jump tables. -/
theorem served_openOp {file_ops : f_ops_table} {op : Kernel → Int × Kernel} (hop : file_ops.openOp = some op)
    (k : Kernel) : Served k (op k).2 := by
  cases file_ops with
  | empty_f_ops_tab | stdin | stdout => cases hop
  | rtc_jt =>
    cases hop
    exact served_set_int_freq k 0x0F
  | dir_jt | regf_jt =>
    cases hop
    exact served_self k

/-- Opening a file changes one descriptor at most, and none if all are in use. -/
theorem served_open_file_desc {fs : Image} {m : Mem} {filename : UInt32} {value : Int}
    (hopen : open_file_desc fs k k.cur_pcb m filename = some (value, k')) : Served k k' := by
  rw [open_file_desc] at hopen
  split at hopen
  · cases hopen
    exact served_self k
  · split at hopen
    · cases hopen
      exact served_self k
    · simp only at hopen
      split at hopen
      · obtain ⟨dentry, -, hopen⟩ := Option.bind_eq_some_iff.mp hopen
        obtain ⟨file_ops, -, hopen⟩ := Option.bind_eq_some_iff.mp hopen
        obtain ⟨op, hop, hopen⟩ := Option.map_eq_some_iff.mp hopen
        cases hopen
        exact (served_setDesc k _ _).trans (served_openOp hop _)
      · cases hopen
        exact served_setDesc k _ _

theorem served_sys_open {fs : Image} {m : Mem} {filename : UInt32} {value : Int}
    (hopen : sys_open fs k m filename = some (value, k')) : Served k k' := by
  rw [sys_open] at hopen
  split at hopen
  · cases hopen
    exact served_self k
  · split at hopen
    · cases hopen
      exact served_self k
    · exact served_open_file_desc hopen

theorem served_sys_close (k : Kernel) (fd : Int32) : Served k (sys_close k fd).2 := by
  rw [sys_close]
  split
  · exact served_self k
  · split
    · exact served_self k
    · rename_i i _ _
      cases (k.desc k.cur_pcb i).file_ops with
      | empty_f_ops_tab | stdin | stdout => exact served_self k
      | rtc_jt | dir_jt | regf_jt => exact served_close_file_desc k (UInt32.ofNat i)

theorem served_terminal_write (k : Kernel) (m : Mem) (buf : UInt32) (nbytes : Int) :
    Served k (terminal_write k m buf nbytes).2 :=
  served_of_console (tasksKept_of_prints (prints_puts _ _ _)) rfl rfl

theorem served_sys_write (k : Kernel) (fd : Int32) (m : Mem) (buf : UInt32) (nbytes : Int32) :
    Served k (sys_write k fd m buf nbytes).2 := by
  rw [sys_write]
  split
  · exact served_self k
  · split
    · exact served_self k
    · rename_i i _ _
      cases (k.desc k.cur_pcb i).file_ops with
      | empty_f_ops_tab | stdin | dir_jt | regf_jt => exact served_self k
      | stdout => exact served_terminal_write k m buf nbytes.toInt
      | rtc_jt => exact served_rtc_write k (load32 m buf) nbytes.toInt

/-- Reading a file moves the position in its descriptor. -/
theorem served_fsys_read_file (fs : Image) (k : Kernel) (i : Fin MAX_DESC) (m : Mem) (buf : UInt32)
    (nbytes : Int32) : Served k (fsys_read_file fs k i m buf nbytes).2.2 := by
  simp only [fsys_read_file]
  repeat' split
  · exact served_self k
  · exact served_setDesc k i _
  · exact served_self k

/-- Reading a directory moves the position in its descriptor. -/
theorem served_fsys_read_dir (fs : Image) (k : Kernel) (i : Fin MAX_DESC) (m : Mem) (buf : UInt32) :
    Served k (fsys_read_dir fs k i m buf).2.2 := by
  simp only [fsys_read_dir]
  split
  · exact served_self k
  · exact served_setDesc k i _

/-- Reading a line leaves the tasks of all terminals, unless `add_to_history` stores over
    everything. -/
theorem served_terminal_read {m m' : Mem} {buf nbytes : UInt32} {value : Int}
    (hread : terminal_read k m buf nbytes = some (value, m', k'))
    (hwipes : ¬ Wipes ((takeLine k.toConsole k.sched_term_id).terminals k.vis_term_id)
      (line (k.terminals k.sched_term_id))) :
    Served k k' := by
  rw [terminal_read_eq k m buf nbytes (terminal_read_ready hread)] at hread
  cases hread
  exact served_of_console (tasksKept_afterRead hwipes) rfl rfl

/-- A proper read changes no more than descriptors, whichever driver serves it. -/
theorem served_sys_read {fs : Image} {fd : Int32} {m m' : Mem} {buf : UInt32} {nbytes : Int32} {value : Int}
    (hread : sys_read fs k fd m buf nbytes = some (value, m', k')) (hproper : Proper k (.sys_read fd buf nbytes)) :
    Served k k' := by
  have hfailed (h : some (-1, m, k) = some (value, m', k')) : Served k k' := by
    cases h
    exact served_self k
  rw [sys_read] at hread
  cases hfd : descIndex fd with
  | none =>
    rw [hfd] at hread
    exact hfailed hread
  | some i =>
    simp only [hfd] at hread
    split at hread
    · exact hfailed hread
    · cases hops : (k.desc k.cur_pcb i).file_ops with
      | empty_f_ops_tab | stdout =>
        rw [hops] at hread
        exact hfailed hread
      | stdin =>
        rw [hops] at hread
        exact served_terminal_read hread (hproper.2 i hfd hops)
      | rtc_jt =>
        rw [hops] at hread
        cases hread
        exact served_of_console (tasksKept_refl _) rfl rfl
      | dir_jt =>
        rw [hops] at hread
        have hserved := served_fsys_read_dir fs k i m buf
        rw [Option.some.inj hread] at hserved
        exact hserved
      | regf_jt =>
        rw [hops] at hread
        have hserved := served_fsys_read_file fs k i m buf nbytes
        rw [Option.some.inj hread] at hserved
        exact hserved

end Served

section Acted

variable {fs : Image} {k k' : Kernel}

/-- Writing back the memory that is there changes nothing. -/
theorem setOwnMemory_self (k : Kernel) : setOwnMemory k (ownMemory k) = k := by
  rw [setOwnMemory, ownMemory, Function.update_eq_self]

/-- A call that does not touch memory acts on the page of the program as well, by leaving it. -/
theorem acted_of_served (hserved : Served k k') : Acted k k' :=
  ⟨k', ownMemory k', hserved, (setOwnMemory_self k').symm⟩

/-- `sys_vidmap` changes one entry of one table, and nothing at a bad address. -/
theorem acted_sys_vidmap (k : Kernel) (screen_start : UInt32) : Acted k (sys_vidmap k screen_start).2 := by
  rw [sys_vidmap]
  split
  · exact acted_of_served (served_self k)
  · exact ⟨k, _, served_self k, rfl⟩

/-- One action changes the page of the running program and the descriptors at most. By cases on
    the action. -/
theorem act_acted {action : Action} (hproper : Proper k action) (hact : act fs k action = some k') : Acted k k' := by
  cases action with
  | store addr value =>
    cases hact
    exact ⟨k, _, served_self k, rfl⟩
  | sys_read fd buf nbytes =>
    obtain ⟨⟨value, m, served⟩, hread, rfl⟩ := Option.map_eq_some_iff.mp hact
    exact ⟨served, m, served_sys_read hread hproper, rfl⟩
  | sys_write fd buf nbytes =>
    cases hact
    exact acted_of_served (served_sys_write k fd _ buf nbytes)
  | sys_open filename =>
    obtain ⟨⟨value, k₁⟩, hopen, rfl⟩ := Option.map_eq_some_iff.mp hact
    exact acted_of_served (served_sys_open hopen)
  | sys_close fd =>
    cases hact
    exact acted_of_served (served_sys_close k fd)
  | sys_getargs buf nbytes =>
    cases hact
    exact ⟨k, _, served_self k, rfl⟩
  | sys_vidmap screen_start =>
    cases hact
    exact acted_sys_vidmap k screen_start

end Acted

end lacos.system
