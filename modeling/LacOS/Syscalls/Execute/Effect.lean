import LacOS.Lib.Frame
import LacOS.Syscalls.Execute.Create
import LacOS.Syscalls.Execute.Start

open memory lacos.lib lacos.file_system lacos.paging lacos.pcb

namespace lacos.syscalls

/-- The page, the top of the kernel stack and the block of a slot. -/
def programPage (n : Nat) : UInt32 := pageOfNum (UInt32.ofNat n)

def stackTop (n : Nat) : UInt32 := esp0OfNum (UInt32.ofNat n)

def slotBlock (n : Nat) : UInt32 := blockAddr (UInt32.ofNat n)

/-- The command names a file that looks like an executable. -/
def Executable (fs : Image) (command : CString) (locals : Locals) : Prop :=
  (cmd_dentry fs locals command).any (fun dentry => isElf fs locals dentry.inode_num) = true

instance (fs : Image) (command : CString) (locals : Locals) : Decidable (Executable fs command locals) := by
  unfold Executable
  infer_instance

/-- The command passes the checks of `sys_execute`. -/
def Passes (fs : Image) (k : Kernel) (command : CString) (locals : Locals) : Prop :=
  our_popcount k.pcb_status ≠ MAX_PROCESSES ∧ Executable fs command locals

instance (fs : Image) (k : Kernel) (command : CString) (locals : Locals) : Decidable (Passes fs k command locals) := by
  unfold Passes
  infer_instance

/-- What a `sys_execute` that returns at once may have done: it has printed, or taken
    the first free slot and cleaned its block. -/
structure Refused (k k' : Kernel) : Prop where
  prints : Prints k.toConsole k'.toConsole
  slots : k'.pcb_status = k.pcb_status ∧ k'.pcbs = k.pcbs ∨
    our_popcount k.pcb_status ≠ MAX_PROCESSES ∧ k'.pcb_status = (find_empty_pcb k.pcb_status).2 ∧
    ∃ io_files tail, k'.pcbs = Function.update k.pcbs (blockAddr (find_empty_pcb k.pcb_status).1)
      { k.pcbs (blockAddr (find_empty_pcb k.pcb_status).1) with
        pcb_num := (find_empty_pcb k.pcb_status).1, io_files := io_files, tail := tail }
  cur_pcb : k'.cur_pcb = k.cur_pcb
  except_raised : k'.except_raised = k.except_raised
  starting_new_shell : k'.starting_new_shell = k.starting_new_shell
  tss_esp0 : k'.tss_esp0 = k.tss_esp0
  paging : k'.toPaging = k.toPaging
  running : k'.running = k.running
  next_id : k'.next_id = k.next_id

/-- What a `sys_execute` that starts a process in slot `n` has done. -/
structure Launched (k k' : Kernel) (n : Nat) : Prop where
  terminals : k'.terminals =
    Function.update k.terminals (startTerm k) { k.terminals (startTerm k) with cur_task := slotBlock n }
  vis_term_id : k'.vis_term_id = k.vis_term_id
  sched_term_id : k'.sched_term_id = k.sched_term_id
  pcb_status : k'.pcb_status = k.pcb_status ||| (1 <<< UInt32.ofNat n)
  pcb_num : (k'.pcbs (slotBlock n)).pcb_num = UInt32.ofNat n
  page_addr : (k'.pcbs (slotBlock n)).page_addr = programPage n
  parent_task : (k'.pcbs (slotBlock n)).parent_task = startParent k
  esp0 : (k'.pcbs (slotBlock n)).esp0 = stackTop n
  term_num : (k'.pcbs (slotBlock n)).term_num = UInt8.ofNat (startTerm k)
  files : ∃ io_files, (k'.pcbs (slotBlock n)).io_files = standardFiles io_files ∧
    (∀ i, (io_files i).flags = .NOT_USED) ∧ ∀ i, (io_files i).file_ops = .empty_f_ops_tab
  parent : startParent k ≠ slotBlock n → k.starting_new_shell = false → k'.pcbs (startParent k) =
    { k.pcbs (startParent k) with esp := some { caller := k.running, child := newProcess k (slotBlock n) } }
  others : ∀ p ≠ slotBlock n, (k.starting_new_shell = false → p ≠ startParent k) → k'.pcbs p = k.pcbs p
  cur_pcb : k'.cur_pcb = slotBlock n
  except_raised : k'.except_raised = k.except_raised
  starting_new_shell : k'.starting_new_shell = k.starting_new_shell
  tss_esp0 : k'.tss_esp0 = stackTop n
  page_directory : k'.page_directory =
    (map_page k.toPaging (programPage n) PROGRAM_VIRT true true true true).2.page_directory
  page_tables : k'.page_tables = k.page_tables
  running : k'.running = .process (newProcess k (slotBlock n))
  next_id : k'.next_id = k.next_id + 1

theorem Refused.cur_task {k k' : Kernel} (hrefused : Refused k k') (t : Fin MAX_TERM_NUM) :
    (k'.terminals t).cur_task = (k.terminals t).cur_task := by
  obtain ⟨_, _, _, _, ht⟩ := hrefused.prints.terminals t
  rw [ht, term_t.atPos]

theorem Refused.esp {k k' : Kernel} (hrefused : Refused k k') (t : Fin MAX_TERM_NUM) :
    (k'.terminals t).esp = (k.terminals t).esp := by
  obtain ⟨_, _, _, _, ht⟩ := hrefused.prints.terminals t
  rw [ht, term_t.atPos]

/-- The new process becomes the task of the terminal it is started on, and of no other. -/
theorem Launched.cur_task {k k' : Kernel} {n : Nat} (hlaunched : Launched k k' n) (t : Fin MAX_TERM_NUM) :
    (k'.terminals t).cur_task = if t = startTerm k then slotBlock n else (k.terminals t).cur_task := by
  rw [hlaunched.terminals, update_task_cur_task]

/-- Of any other block at most the saved stack pointers change. -/
theorem Launched.other {k k' : Kernel} {n : Nat} (hlaunched : Launched k k' n) {p : UInt32} (hp : p ≠ slotBlock n) :
    ∃ esp, k'.pcbs p = { k.pcbs p with esp := esp } := by
  by_cases hparent : k.starting_new_shell = false ∧ p = startParent k
  · obtain ⟨hshell, rfl⟩ := hparent
    exact ⟨_, hlaunched.parent hp hshell⟩
  · refine ⟨(k.pcbs p).esp, hlaunched.others p hp fun hshell heq => hparent ⟨hshell, heq⟩⟩

theorem mapProgram_toPaging (k : Kernel) (page_addr : UInt32) :
    (mapProgram k page_addr).toPaging = (map_page k.toPaging page_addr PROGRAM_VIRT true true true true).2 := rfl

/-- A large page needs no table, so that none is written. -/
theorem map_page_large_page_tables (pg : Paging) (phys_addr virtual_addr : UInt32) (privileges write : Bool) :
    (map_page pg phys_addr virtual_addr true privileges write true).2.page_tables = pg.page_tables := by
  simp only [map_page]
  split
  · rfl
  · simp

section Effect

variable {fs : Image} {k k' : Kernel} {command : CString} {locals : Locals}

/-- The parent is found on the terminals. -/
theorem startParent_congr {k₁ : Kernel} (hconsole : k₁.toConsole = k.toConsole)
    (hshell : k₁.starting_new_shell = k.starting_new_shell) : startParent k₁ = startParent k := by
  rw [startParent, startParent, hshell, hconsole]

/-- Linking the new block and entering its process, seen from before the block was
    taken. -/
theorem launched_of_entered {created mapped linked : Kernel} {n : Nat} {new_pcb page_addr : UInt32}
    (hnew : slotBlock n = new_pcb) (hpage : programPage n = page_addr)
    (hcreated : Created (cli k) created (UInt32.ofNat n) (k.pcb_status ||| (1 <<< UInt32.ofNat n)))
    (hconsole : mapped.toConsole = created.toConsole) (htasks : mapped.toTasks = created.toTasks)
    (hpaging : mapped.toPaging = (map_page created.toPaging page_addr PROGRAM_VIRT true true true true).2)
    (hlinked : Linked mapped linked new_pcb page_addr) (hentered : Entered linked k' new_pcb) : Launched k k' n := by
  rw [hcreated.console, cli_toConsole] at hconsole
  rw [hcreated.paging, cli_toPaging] at hpaging
  have haddr : blockAddr (UInt32.ofNat n) = new_pcb := hnew
  have hnum : (created.pcbs new_pcb).pcb_num = UInt32.ofNat n := haddr ▸ hcreated.pcb_num
  have hshell : mapped.starting_new_shell = k.starting_new_shell := by
    rw [htasks, hcreated.starting_new_shell, cli_toTasks]
  have hrunning : mapped.running = k.running := by rw [htasks, hcreated.running, cli_toTasks]
  have hnext : mapped.next_id = k.next_id := by rw [htasks, hcreated.next_id, cli_toTasks]
  have hterm : startTerm mapped = startTerm k := by rw [startTerm, startTerm, hshell, hconsole]
  have hparent : startParent mapped = startParent k := startParent_congr hconsole hshell
  have hprocess : newProcess mapped new_pcb = newProcess k new_pcb := by rw [newProcess, newProcess, hnext]
  obtain ⟨esp, hown⟩ := savedPcbs_eq mapped new_pcb new_pcb
  -- What the block and the others hold at the end.
  have hblock : k'.pcbs new_pcb =
      withFiles (newBlock mapped new_pcb page_addr) (standardFiles (created.pcbs new_pcb).io_files) := by
    rw [hentered.pcbs, Function.update_self, hlinked.pcbs, Function.update_self, newBlock, setUp_io_files,
      hown, htasks]
  have hsaved (p : UInt32) (hp : p ≠ new_pcb) : k'.pcbs p = savedPcbs mapped new_pcb p := by
    rw [hentered.pcbs, Function.update_of_ne hp, hlinked.pcbs, Function.update_of_ne hp]
  have hbefore (p : UInt32) (hp : p ≠ new_pcb) : mapped.pcbs p = k.pcbs p := by
    rw [htasks, hcreated.others p (haddr ▸ hp), cli_toTasks]
  constructor
  case terminals => rw [hentered.console, hlinked.terminals, hterm, hconsole, hnew]
  case vis_term_id => rw [hentered.console, hlinked.vis_term_id, hconsole]
  case sched_term_id => rw [hentered.console, hlinked.sched_term_id, hconsole]
  case pcb_status => rw [hentered.pcb_status, hlinked.pcb_status, htasks, hcreated.pcb_status]
  case pcb_num =>
    rw [hnew, hblock, withFiles_pcb_num, newBlock, setUp_pcb_num, hown, htasks, hnum]
  case page_addr => rw [hnew, hblock, withFiles_page_addr, newBlock, setUp_page_addr, hpage]
  case parent_task => rw [hnew, hblock, withFiles_parent_task, newBlock, setUp_parent_task, hparent]
  case esp0 => rw [hnew, hblock, withFiles_esp0, newBlock, setUp_esp0, htasks, hnum, stackTop]
  case term_num => rw [hnew, hblock, withFiles_term_num, newBlock, setUp_term_num, hterm]
  case files =>
    refine ⟨(created.pcbs new_pcb).io_files, ?_, haddr ▸ hcreated.unused, haddr ▸ hcreated.empty⟩
    rw [hnew, hblock, withFiles_io_files]
  case parent =>
    rw [hnew]
    intro hne hstart
    rw [hsaved _ hne, savedPcbs, hshell, hstart, hparent]
    simp only [Bool.false_eq_true, if_false, Function.update_self]
    rw [hbefore _ hne, hrunning, hprocess]
  case others =>
    rw [hnew]
    intro p hp hnot
    rw [hsaved p hp, savedPcbs, hshell, hparent]
    split
    · exact hbefore p hp
    · rename_i hstart
      rw [Function.update_of_ne (hnot (by simpa using hstart)), hbefore p hp]
  case cur_pcb => rw [hnew, hentered.cur_pcb]
  case except_raised =>
    rw [hentered.except_raised, hlinked.except_raised, htasks, hcreated.except_raised, cli_toTasks]
  case starting_new_shell => rw [hentered.starting_new_shell, hlinked.starting_new_shell, hshell]
  case tss_esp0 => rw [hentered.tss_esp0, hlinked.tss_esp0, htasks, hnum, stackTop]
  case page_directory => rw [hentered.page_directory, hlinked.page_directory, hpaging, hpage]
  case page_tables =>
    rw [hentered.page_tables, hlinked.page_tables, hpaging, map_page_large_page_tables]
  case running => rw [hentered.running, newProcess, hlinked.next_id, hnext, hnew, newProcess]
  case next_id => rw [hentered.next_id, hlinked.next_id, hnext]

/-- A process is linked and entered unless its parent is a NULL pointer. -/
theorem link_created {created : Kernel} {n : Nat} (hn : n ≤ 32)
    (hcreated : Created (cli k) created (UInt32.ofNat n) (k.pcb_status ||| (1 <<< UInt32.ofNat n))) (inode : UInt32) :
    (k.starting_new_shell = false ∧ startParent k = NULL ∧
      linkProcess fs (mapProgram created (pageOfNum (UInt32.ofNat n))) locals inode
        (blockAddr (UInt32.ofNat n)) (pageOfNum (UInt32.ofNat n)) = none) ∨
    ((k.starting_new_shell = false → startParent k ≠ NULL) ∧
      ∃ k', linkProcess fs (mapProgram created (pageOfNum (UInt32.ofNat n))) locals inode
          (blockAddr (UInt32.ofNat n)) (pageOfNum (UInt32.ofNat n)) =
            some (.entered (load32 (file_data fs locals inode) 24), k') ∧
        Launched k k' n) := by
  -- The kernel must not compute with the addresses.
  obtain ⟨page_addr, hpage⟩ : ∃ page_addr, programPage n = page_addr := ⟨_, rfl⟩
  obtain ⟨new_pcb, hnew⟩ : ∃ new_pcb, slotBlock n = new_pcb := ⟨_, rfl⟩
  have hpage' : pageOfNum (UInt32.ofNat n) = page_addr := hpage
  have hnew' : blockAddr (UInt32.ofNat n) = new_pcb := hnew
  have hnull : new_pcb ≠ NULL := hnew' ▸ blockAddr_ne_null hn
  have hunused : ∀ i, ((created.pcbs new_pcb).io_files i).flags = .NOT_USED := hnew' ▸ hcreated.unused
  rw [hpage', hnew']
  obtain ⟨mapped, hmapped⟩ : ∃ mapped, mapProgram created page_addr = mapped := ⟨_, rfl⟩
  have hconsole : mapped.toConsole = created.toConsole := by rw [← hmapped, mapProgram_toConsole]
  have htasks : mapped.toTasks = created.toTasks := by rw [← hmapped, mapProgram_toTasks]
  have hpaging := mapProgram_toPaging created page_addr
  have hshell : mapped.starting_new_shell = k.starting_new_shell := by
    rw [htasks, hcreated.starting_new_shell, cli_toTasks]
  have hparent : startParent mapped = startParent k := by
    refine startParent_congr ?_ hshell
    rw [hconsole, hcreated.console, cli_toConsole]
  rw [hmapped] at hpaging ⊢
  have hclean : ∀ i, ((mapped.pcbs new_pcb).io_files i).flags = .NOT_USED := by
    rw [htasks]
    exact hunused
  have hspec := @linkProcess_spec fs mapped locals inode new_pcb hnull hclean page_addr
  rw [hshell, hparent] at hspec
  obtain hnone | ⟨hneeds, linked, k₁, hlinked, hentered, hsome⟩ := hspec
  · exact .inl hnone
  · exact .inr ⟨hneeds, k₁, hsome, launched_of_entered hnew hpage hcreated hconsole htasks hpaging hlinked hentered⟩

/-- A command that is no executable is refused after its slot has been taken. -/
theorem refused_of_created {created : Kernel} (hroom : our_popcount k.pcb_status ≠ MAX_PROCESSES)
    (hcreated : Created (cli k) created (find_empty_pcb k.pcb_status).1 (find_empty_pcb k.pcb_status).2) :
    Refused k (sti created) := by
  obtain ⟨offset, hoffset⟩ : ∃ offset, offset = (find_empty_pcb k.pcb_status).1 := ⟨_, rfl⟩
  rw [← hoffset] at hcreated
  obtain ⟨io_files, tail, hblock⟩ := hcreated.block
  have hconsole : (sti created).toConsole = k.toConsole := by rw [sti_toConsole, hcreated.console, cli_toConsole]
  refine ⟨hconsole ▸ Prints.refl k.toConsole, .inr ⟨hroom, ?_, io_files, tail, ?_⟩, ?_, ?_, ?_, ?_, ?_, ?_, ?_⟩
  · rw [sti_toTasks, hcreated.pcb_status]
  · funext p
    rw [← hoffset, sti_toTasks]
    by_cases hp : p = blockAddr offset
    · rw [hp, hblock, Function.update_self, cli_toTasks]
    · rw [hcreated.others p hp, Function.update_of_ne hp, cli_toTasks]
  · rw [sti_toTasks, hcreated.cur_pcb, cli_toTasks]
  · rw [sti_toTasks, hcreated.except_raised, cli_toTasks]
  · rw [sti_toTasks, hcreated.starting_new_shell, cli_toTasks]
  · rw [sti_toTasks, hcreated.tss_esp0, cli_toTasks]
  · rw [sti_toPaging, hcreated.paging, cli_toPaging]
  · rw [sti_toTasks, hcreated.running, cli_toTasks]
  · rw [sti_toTasks, hcreated.next_id, cli_toTasks]

/-- A message may be printed when there is no slot. -/
theorem refused_of_prints {f : Console → Console} (hprints : Prints k.toConsole (f k.toConsole)) :
    Refused k ((cli k).onConsole f) :=
  ⟨hprints, .inl ⟨rfl, rfl⟩, rfl, rfl, rfl, rfl, rfl, rfl, rfl⟩

theorem refused_sti_cli : Refused k (sti (cli k)) :=
  ⟨Prints.refl _, .inl ⟨rfl, rfl⟩, rfl, rfl, rfl, rfl, rfl, rfl, rfl⟩

/-- Whatever `sys_execute` does: a command that does not pass its checks is refused,
    any other is started in the first free slot. -/
theorem sys_execute_cases {outcome : Outcome} (hexecute : sys_execute fs k command locals = some (outcome, k')) :
    (¬ Passes fs k command locals ∧ (∃ value, outcome = .returned value) ∧ Refused k k') ∨
    (Passes fs k command locals ∧ (k.starting_new_shell = false → startParent k ≠ NULL) ∧
      (∃ entry, outcome = .entered entry) ∧
      ∃ n ≤ 32, find_empty_pcb k.pcb_status = (UInt32.ofNat n, k.pcb_status ||| (1 <<< UInt32.ofNat n)) ∧
        Launched k k' n) := by
  simp only [sys_execute] at hexecute
  split at hexecute
  · rename_i hfull
    left
    cases hexecute
    refine ⟨fun hpasses => hpasses.1 hfull, ⟨_, rfl⟩, refused_of_prints (prints_printText _ _)⟩
  · rename_i hroom
    cases hdentry : cmd_dentry fs locals command with
    | none =>
      left
      rw [hdentry] at hexecute
      cases hexecute
      refine ⟨fun hpasses => ?_, ⟨_, rfl⟩, refused_sti_cli⟩
      rw [Passes, Executable, hdentry] at hpasses
      exact absurd hpasses.2 (by simp)
    | some dentry =>
      obtain ⟨created, hcreate, hcreated⟩ := createPcb_spec (cli k) locals command
      simp only [hdentry, hcreate] at hexecute
      split at hexecute
      · cases hexecute
      · split at hexecute
        · rename_i helf
          right
          obtain ⟨n, hn, hfind, -, -⟩ := find_empty_pcb_spec k.pcb_status
          have hpasses : Passes fs k command locals := by
            refine ⟨hroom, ?_⟩
            rw [Executable, hdentry]
            exact helf
          rw [cli_toTasks, hfind] at hcreated
          rw [cli_toTasks, hfind, startProcess, hcreated.pcb_num] at hexecute
          obtain ⟨-, -, hnone⟩ | ⟨hparent, k₁, hlink, hlaunched⟩ :=
            @link_created fs k locals created n hn hcreated dentry.inode_num
          · rw [hnone] at hexecute
            cases hexecute
          · rw [hlink] at hexecute
            cases hexecute
            exact ⟨hpasses, hparent, ⟨_, rfl⟩, n, hn, hfind, hlaunched⟩
        · rename_i helf
          left
          cases hexecute
          refine ⟨fun hpasses => ?_, ⟨_, rfl⟩, refused_of_created hroom hcreated⟩
          rw [Passes, Executable, hdentry] at hpasses
          exact helf hpasses.2

end Effect

end lacos.syscalls
