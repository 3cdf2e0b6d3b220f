import LacOS.Syscalls.Execute.Effect
import LacOS.Syscalls.Halt

open memory lacos.lib lacos.file_system lacos.paging lacos.pcb

namespace lacos

namespace pcb

/-- Descriptors of which those in `l` have been closed. -/
def closeFiles (l : List (Fin MAX_DESC)) (io_files : Fin MAX_DESC → fdesc_t) (i : Fin MAX_DESC) : fdesc_t :=
  if i ∈ l then closed (io_files i) else io_files i

/-- Closing a descriptor through its jump table and then directly is closing it. -/
theorem closeDesc_eq (k : Kernel) (i : Fin MAX_DESC) (hcur : k.cur_pcb ≠ NULL) :
    closeDesc k i = k.setDesc k.cur_pcb i (closed (k.desc k.cur_pcb i)) := by
  have hdirect := congrArg Prod.snd (close_file_desc_eq k i hcur)
  have htwice : (close_file_desc (k.setDesc k.cur_pcb i (closed (k.desc k.cur_pcb i)))
      k.cur_pcb (UInt32.ofNat i)).2 = k.setDesc k.cur_pcb i (closed (k.desc k.cur_pcb i)) := by
    have hagain := congrArg Prod.snd
      (close_file_desc_eq (k.setDesc k.cur_pcb i (closed (k.desc k.cur_pcb i))) i hcur)
    simp only [Kernel.setDesc_cur_pcb, Kernel.desc_setDesc_same, Kernel.setDesc_setDesc] at hagain
    exact hagain
  simp only at hdirect
  cases hops : (k.desc k.cur_pcb i).file_ops with
  | empty_f_ops_tab => simp only [closeDesc, hops, f_ops_table.closeOp, hdirect]
  | stdin => simp only [closeDesc, hops, f_ops_table.closeOp, hdirect]
  | stdout => simp only [closeDesc, hops, f_ops_table.closeOp, hdirect]
  | rtc_jt => simp only [closeDesc, hops, f_ops_table.closeOp, hdirect, Kernel.setDesc_cur_pcb, htwice]
  | dir_jt => simp only [closeDesc, hops, f_ops_table.closeOp, hdirect, Kernel.setDesc_cur_pcb, htwice]
  | regf_jt => simp only [closeDesc, hops, f_ops_table.closeOp, hdirect, Kernel.setDesc_cur_pcb, htwice]

/-- The descriptors are closed one after the other, each once. -/
theorem foldl_closeDesc (k : Kernel) (hcur : k.cur_pcb ≠ NULL) (l : List (Fin MAX_DESC)) (hl : l.Nodup) :
    l.foldl closeDesc k = k.setPcb k.cur_pcb
      { k.pcbs k.cur_pcb with io_files := closeFiles l (k.pcbs k.cur_pcb).io_files } := by
  induction l generalizing k with
  | nil =>
    have hnone : closeFiles [] (k.pcbs k.cur_pcb).io_files = (k.pcbs k.cur_pcb).io_files := by
      funext i
      simp [closeFiles]
    simp [hnone, Kernel.setPcb]
  | cons i l ih =>
    obtain ⟨hi, hl⟩ := List.nodup_cons.mp hl
    rw [List.foldl_cons, closeDesc_eq k i hcur, ih _ (by simpa using hcur) hl]
    have hfiles : closeFiles l (Function.update (k.pcbs k.cur_pcb).io_files i (closed (k.desc k.cur_pcb i))) =
        closeFiles (i :: l) (k.pcbs k.cur_pcb).io_files := by
      funext j
      by_cases hj : j = i
      · subst hj
        simp [closeFiles, hi, Kernel.desc]
      · simp [closeFiles, hj]
    simp [Kernel.setDesc, Kernel.setPcb, hfiles]

/-- `close_pcb` closes every descriptor. -/
theorem close_pcb_eq (k : Kernel) (hcur : k.cur_pcb ≠ NULL) :
    close_pcb k k.cur_pcb = (0, k.setPcb k.cur_pcb
      { k.pcbs k.cur_pcb with io_files := fun i => closed ((k.pcbs k.cur_pcb).io_files i) }) := by
  have hall : closeFiles (List.finRange MAX_DESC) (k.pcbs k.cur_pcb).io_files =
      fun i => closed ((k.pcbs k.cur_pcb).io_files i) := by
    funext i
    simp [closeFiles]
  rw [close_pcb, if_neg hcur, foldl_closeDesc k hcur _ (List.nodup_finRange _), hall]

end pcb

namespace syscalls

/-- The bit of `pcb_status` that `sys_halt` clears for the block `cur_pcb`. -/
def haltSlot (cur_pcb : UInt32) : UInt32 := haltOffset cur_pcb - 1

/-- `sys_halt` up to the point where it makes ready to go on. -/
def release (k : Kernel) : Kernel := releaseStatements.foldl (HaltStatement.exec (haltOffset k.cur_pcb)) k

/-- What `sys_halt` has done before it restores the stack pointers. -/
structure Released (k k' : Kernel) : Prop where
  terminals : k'.terminals = Function.update k.terminals k.sched_term_id
    { k.terminals k.sched_term_id with cur_task := (k.pcbs k.cur_pcb).parent_task }
  vis_term_id : k'.vis_term_id = k.vis_term_id
  sched_term_id : k'.sched_term_id = k.sched_term_id
  pcb_status : k'.pcb_status = k.pcb_status &&& ~~~(1 <<< haltSlot k.cur_pcb)
  pcbs : k'.pcbs = Function.update k.pcbs k.cur_pcb
    (withFiles (k.pcbs k.cur_pcb) fun i => closed ((k.pcbs k.cur_pcb).io_files i))
  cur_pcb : k'.cur_pcb = (k.pcbs k.cur_pcb).parent_task
  except_raised : k'.except_raised = k.except_raised
  starting_new_shell : k'.starting_new_shell = k.starting_new_shell
  tss_esp0 : k'.tss_esp0 = k.tss_esp0
  page_directory : k'.page_directory =
    (map_page k.toPaging (haltPage k (k.pcbs k.cur_pcb)) PROGRAM_VIRT true true true true).2.page_directory
  page_tables : k'.page_tables = k.page_tables
  running : k'.running = k.running
  next_id : k'.next_id = k.next_id

/-- Of every block only the descriptors can have changed. -/
theorem Released.block {k k' : Kernel} (hreleased : Released k k') (b : UInt32) :
    ∃ io_files, k'.pcbs b = { k.pcbs b with io_files := io_files } := by
  rw [hreleased.pcbs]
  by_cases hb : b = k.cur_pcb
  · rw [hb, Function.update_self, withFiles]
    exact ⟨_, rfl⟩
  · rw [Function.update_of_ne hb]
    exact ⟨_, rfl⟩

/-- The scheduled terminal gets the parent as its task, also if there is none. -/
theorem Released.cur_task {k k' : Kernel} (hreleased : Released k k') (t : Fin MAX_TERM_NUM) :
    (k'.terminals t).cur_task =
      if t = k.sched_term_id then (k.pcbs k.cur_pcb).parent_task else (k.terminals t).cur_task := by
  rw [hreleased.terminals, update_task_cur_task]

/-- The kernel once the stack pointers of the parent have been restored. -/
def resumeParent (k : Kernel) (frame : Frame) : Kernel :=
  { k with
    tss_esp0 := (k.pcbs k.cur_pcb).esp0
    except_raised := false
    running := frame.caller
    interrupts := true }

/-- The kernel before `sys_halt` starts a new shell. -/
def beforeRestart (k : Kernel) : Kernel := { k with starting_new_shell := true }

theorem beforeRestart_terminals (k : Kernel) : (beforeRestart k).terminals = k.terminals := rfl

theorem startTerm_beforeRestart (k : Kernel) : startTerm (beforeRestart k) = k.sched_term_id := rfl

/-- What the statements make of the kernel in which the page is mapped. -/
theorem release_eq {k mapped : Kernel} (hmapped : mapProgram k (haltPage k (k.pcbs k.cur_pcb)) = mapped)
    (hcur : k.cur_pcb ≠ NULL) :
    release k =
      { mapped with
        pcb_status := k.pcb_status &&& ~~~(1 <<< haltSlot k.cur_pcb)
        pcbs := Function.update k.pcbs k.cur_pcb
          (withFiles (k.pcbs k.cur_pcb) fun i => closed ((k.pcbs k.cur_pcb).io_files i))
        terminals := Function.update k.terminals k.sched_term_id
          { k.terminals k.sched_term_id with cur_task := (k.pcbs k.cur_pcb).parent_task }
        cur_pcb := (k.pcbs k.cur_pcb).parent_task } := by
  have hconsole : mapped.toConsole = k.toConsole := by rw [← hmapped, mapProgram_toConsole]
  have htasks : mapped.toTasks = k.toTasks := by rw [← hmapped, mapProgram_toTasks]
  have hcur' : mapped.cur_pcb ≠ NULL := by
    rw [htasks]
    exact hcur
  obtain ⟨offset, hoffset⟩ : ∃ offset, offset = haltOffset k.cur_pcb := ⟨_, rfl⟩
  have hclose := close_pcb_eq { mapped with pcb_status := mapped.pcb_status &&& ~~~(1 <<< (offset - 1)) } hcur'
  rw [release, ← hoffset, releaseStatements]
  simp only [List.foldl_cons, List.foldl_nil, HaltStatement.exec, hmapped]
  rw [hclose]
  simp only [Kernel.setPcb, Kernel.onConsole, Console.setTerm, withFiles, haltSlot, ← hoffset, hconsole, htasks,
    Function.update_self]

section Cases

variable {fs : Image} {k k' : Kernel} {status : UInt8} {locals : Locals} {halted : Halted}

/-- The statements of `sys_halt` up to the restoring of the stack pointers, all together. -/
theorem release_released (hcur : k.cur_pcb ≠ NULL) : Released k (release k) := by
  obtain ⟨page, hpage⟩ : ∃ page, haltPage k (k.pcbs k.cur_pcb) = page := ⟨_, rfl⟩
  obtain ⟨mapped, hmapped⟩ : ∃ mapped, mapProgram k page = mapped := ⟨_, rfl⟩
  have hconsole : mapped.toConsole = k.toConsole := by rw [← hmapped, mapProgram_toConsole]
  have htasks : mapped.toTasks = k.toTasks := by rw [← hmapped, mapProgram_toTasks]
  have hpaging := mapProgram_toPaging k page
  rw [hmapped] at hpaging
  have htables : mapped.page_tables = k.page_tables := by rw [hpaging, map_page_large_page_tables]
  rw [release_eq (hpage ▸ hmapped) hcur]
  refine ⟨rfl, ?_, ?_, rfl, rfl, rfl, ?_, ?_, ?_, ?_, ?_, ?_, ?_⟩
  · rw [← hconsole]
  · rw [← hconsole]
  · rw [← htasks]
  · rw [← htasks]
  · rw [← htasks]
  · rw [hpage, ← hpaging]
  · exact htables
  · rw [← htasks]
  · rw [← htasks]

/-- The last statement of `haltStatements`, after the process has been released. -/
theorem haltDone_eq (k : Kernel) : haltDone k = HaltStatement.exec (haltOffset k.cur_pcb) (release k) .restore := by
  rw [haltDone, haltStatements, List.foldl_append, List.foldl_cons, List.foldl_nil, release]

/-- With a parent its kernel stack is restored. -/
theorem exec_restore_parent {offset : UInt32} (hparent : k.cur_pcb ≠ NULL) :
    HaltStatement.exec offset k .restore = { k with tss_esp0 := (k.pcbs k.cur_pcb).esp0 } := by
  rw [HaltStatement.exec, if_pos hparent]

/-- Without one a new shell is made ready. -/
theorem exec_restore_shell {offset : UInt32} (hnull : k.cur_pcb = NULL) :
    HaltStatement.exec offset k .restore = beforeRestart k := by
  rw [HaltStatement.exec, if_neg (not_not.mpr hnull), beforeRestart]

/-- After the statements of `sys_halt` the parent is current. -/
theorem haltDone_cur_pcb (hcur : k.cur_pcb ≠ NULL) : (haltDone k).cur_pcb = (k.pcbs k.cur_pcb).parent_task := by
  rw [haltDone_eq, ← (release_released hcur).cur_pcb, HaltStatement.exec]
  split <;> rfl

/-- Whatever `sys_halt` does: it goes back to the `sys_execute` that has started the
    process, or starts a new shell for a process without a parent. -/
theorem sys_halt_cases (hhalt : sys_halt fs k status locals = some (halted, k')) :
    k.cur_pcb ≠ NULL ∧ ∃ released, release k = released ∧ Released k released ∧
      (((k.pcbs k.cur_pcb).parent_task ≠ NULL ∧ ∃ frame,
          (released.pcbs (k.pcbs k.cur_pcb).parent_task).esp = some frame ∧
          halted = .resumed frame (if k.except_raised then 256 else status.toNat) ∧
          k' = resumeParent released frame) ∨
        ((k.pcbs k.cur_pcb).parent_task = NULL ∧ ∃ outcome,
          sys_execute fs (beforeRestart released) shell locals = some (outcome, k') ∧
            halted = .restarted outcome)) := by
  have hcur : k.cur_pcb ≠ NULL := by
    intro hnull
    rw [sys_halt, if_pos hnull] at hhalt
    cases hhalt
  obtain ⟨released, heq⟩ : ∃ released, release k = released := ⟨_, rfl⟩
  have hreleased : Released k released := heq ▸ release_released hcur
  refine ⟨hcur, released, heq, hreleased, ?_⟩
  rw [sys_halt, if_neg hcur, haltDone_eq, heq] at hhalt
  rw [← hreleased.cur_pcb]
  by_cases hparent : released.cur_pcb = NULL
  · right
    have hnull : (beforeRestart released).cur_pcb = NULL := hparent
    rw [exec_restore_shell hparent] at hhalt
    simp only at hhalt
    rw [if_neg (not_not.mpr hnull)] at hhalt
    obtain ⟨⟨outcome, k₁⟩, hexecute, hout⟩ := Option.map_eq_some_iff.mp hhalt
    cases hout
    exact ⟨hparent, outcome, hexecute, rfl⟩
  · left
    rw [exec_restore_parent hparent] at hhalt
    simp only at hhalt
    rw [if_pos hparent] at hhalt
    obtain ⟨frame, hframe, hout⟩ := Option.map_eq_some_iff.mp hhalt
    refine ⟨hparent, frame, hframe, ?_⟩
    rw [we_are_done] at hout
    simp only [hreleased.except_raised] at hout
    cases hraised : k.except_raised with
    | true =>
      simp only [hraised, if_true] at hout
      obtain ⟨rfl, rfl⟩ := Prod.mk.inj hout
      refine ⟨rfl, ?_⟩
      simp only [resumeParent, sti]
    | false =>
      simp only [hraised, Bool.false_eq_true, if_false] at hout
      obtain ⟨rfl, rfl⟩ := Prod.mk.inj hout
      refine ⟨rfl, ?_⟩
      have hfalse : released.except_raised = false := by rw [hreleased.except_raised, hraised]
      simp only [resumeParent, sti, ← hfalse]

/-- `sys_halt` of a process with a parent goes back to the stack pointers saved there. -/
theorem sys_halt_resumed (hcur : k.cur_pcb ≠ NULL) (hparent : (k.pcbs k.cur_pcb).parent_task ≠ NULL) {frame : Frame}
    (hframe : ((release k).pcbs (k.pcbs k.cur_pcb).parent_task).esp = some frame) :
    ∃ value, sys_halt fs k status locals = some (.resumed frame value, resumeParent (release k) frame) := by
  have hpcbs : (haltDone k).pcbs = (release k).pcbs := by
    rw [haltDone_eq, HaltStatement.exec]
    split <;> rfl
  obtain ⟨value, k', hhalt⟩ : ∃ value k', sys_halt fs k status locals = some (.resumed frame value, k') := by
    rw [sys_halt, if_neg hcur]
    simp only [haltDone_cur_pcb hcur, if_pos hparent, hpcbs, hframe, Option.map_some]
    exact ⟨_, _, rfl⟩
  obtain ⟨-, released, rfl, -, ⟨-, frame', -, hresumed, rfl⟩ | ⟨hnull, -⟩⟩ := sys_halt_cases hhalt
  · cases hresumed
    exact ⟨_, hhalt⟩
  · exact absurd hnull hparent

theorem release_toKeyboard (hcur : k.cur_pcb ≠ NULL) : (release k).toKeyboard = k.toKeyboard := by
  obtain ⟨page, hpage⟩ : ∃ page, haltPage k (k.pcbs k.cur_pcb) = page := ⟨_, rfl⟩
  rw [release_eq rfl hcur, hpage, mapProgram]

end Cases

end syscalls

end lacos
