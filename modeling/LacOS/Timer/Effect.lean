import LacOS.Syscalls.Halt.Effect
import LacOS.Timer

open memory lacos.lib lacos.file_system lacos.paging lacos.syscalls

namespace lacos.timer

/-- The kernel once `switch_tasks` has saved the stack pointers and changed the
    terminal. -/
def handOver (k : Kernel) (new_term_id : Fin MAX_TERM_NUM) : Kernel :=
  { k with
    terminals := Function.update k.terminals k.sched_term_id { k.terminals k.sched_term_id with esp := k.running }
    sched_term_id := new_term_id
    cur_pcb := (k.terminals new_term_id).cur_task }

theorem handOver_sched_term_id (k : Kernel) (new_term_id : Fin MAX_TERM_NUM) :
    (handOver k new_term_id).sched_term_id = new_term_id := rfl

/-- Handing over changes no task. -/
theorem handOver_cur_task (k : Kernel) (new_term_id t : Fin MAX_TERM_NUM) :
    ((handOver k new_term_id).terminals t).cur_task = (k.terminals t).cur_task := by
  change (Function.update k.terminals k.sched_term_id _ t).cur_task = (k.terminals t).cur_task
  by_cases ht : t = k.sched_term_id
  · rw [ht, Function.update_self]
  · rw [Function.update_of_ne ht]

/-- The terminal that is left gets the stack pointers of the context that runs. -/
theorem handOver_esp (k : Kernel) (new_term_id t : Fin MAX_TERM_NUM) :
    ((handOver k new_term_id).terminals t).esp = if t = k.sched_term_id then k.running else (k.terminals t).esp := by
  change (Function.update k.terminals k.sched_term_id _ t).esp = _
  by_cases ht : t = k.sched_term_id
  · rw [ht, Function.update_self, if_pos rfl]
  · rw [Function.update_of_ne ht, if_neg ht]

/-- What `resumeTask` does. -/
structure TaskResumed (k k' : Kernel) : Prop where
  console : k'.toConsole = k.toConsole
  pcb_status : k'.pcb_status = k.pcb_status
  pcbs : k'.pcbs = k.pcbs
  cur_pcb : k'.cur_pcb = k.cur_pcb
  except_raised : k'.except_raised = k.except_raised
  starting_new_shell : k'.starting_new_shell = false
  tss_esp0 : k'.tss_esp0 = (k.pcbs k.cur_pcb).esp0
  paging : k'.toPaging =
    (map_page (map_page k.toPaging (k.pcbs k.cur_pcb).page_addr PROGRAM_VIRT true true true true).2
      (k.terminals k.sched_term_id).vid_mem VIDMAP_VIRT_ADDR false true true true).2
  running : k'.running = (k.terminals k.sched_term_id).esp
  next_id : k'.next_id = k.next_id

theorem mapVidmap_toConsole (k : Kernel) (vid_mem : UInt32) : (mapVidmap k vid_mem).toConsole = k.toConsole := rfl

theorem mapVidmap_toTasks (k : Kernel) (vid_mem : UInt32) : (mapVidmap k vid_mem).toTasks = k.toTasks := rfl

theorem mapVidmap_toPaging (k : Kernel) (vid_mem : UInt32) :
    (mapVidmap k vid_mem).toPaging = (map_page k.toPaging vid_mem VIDMAP_VIRT_ADDR false true true true).2 := rfl

section Cases

variable {fs : Image} {k k' : Kernel} {locals : Locals} {new_term_id : Fin MAX_TERM_NUM}

/-- What resuming a task does. -/
theorem resumeTask_resumed (hresume : resumeTask k = some k') : TaskResumed k k' := by
  obtain ⟨ready, hready⟩ : ∃ ready : Kernel, { k with starting_new_shell := false } = ready := ⟨_, rfl⟩
  obtain ⟨page_addr, hpage⟩ : ∃ page_addr, (ready.pcbs ready.cur_pcb).page_addr = page_addr := ⟨_, rfl⟩
  obtain ⟨mapped, hmapped⟩ : ∃ mapped, mapProgram ready page_addr = mapped := ⟨_, rfl⟩
  obtain ⟨vid_mem, hvid⟩ : ∃ vid_mem, (mapped.terminals mapped.sched_term_id).vid_mem = vid_mem := ⟨_, rfl⟩
  obtain ⟨shown, hshown⟩ : ∃ shown, mapVidmap mapped vid_mem = shown := ⟨_, rfl⟩
  have hrestore : restoreTask shown = some k' := by
    rw [← hresume, resumeTask, hready, hpage, hmapped, hvid, hshown]
  have hconsole : shown.toConsole = ready.toConsole := by
    rw [← hshown, mapVidmap_toConsole, ← hmapped, mapProgram_toConsole]
  have htasks : shown.toTasks = ready.toTasks := by
    rw [← hshown, mapVidmap_toTasks, ← hmapped, mapProgram_toTasks]
  have hpaging : shown.toPaging =
      (map_page (map_page ready.toPaging page_addr PROGRAM_VIRT true true true true).2
        vid_mem VIDMAP_VIRT_ADDR false true true true).2 := by
    rw [← hshown, mapVidmap_toPaging, ← hmapped, mapProgram_toPaging]
  rw [restoreTask] at hrestore
  simp only at hrestore
  split at hrestore
  · cases hrestore
  · cases hrestore
    have hvid' : (k.terminals k.sched_term_id).vid_mem = vid_mem := by
      rw [← hvid, ← hmapped, mapProgram_toConsole, ← hready]
    subst hready
    have hpage' : (k.pcbs k.cur_pcb).page_addr = page_addr := hpage
    refine ⟨hconsole, ?_, ?_, ?_, ?_, ?_, ?_, ?_, ?_, ?_⟩
    · rw [htasks]
    · rw [htasks]
    · rw [htasks]
    · rw [htasks]
    · rw [htasks]
    · rw [htasks]
    · rw [hpage', hvid']
      exact hpaging
    · rw [hconsole]
    · rw [htasks]

/-- A switch to another terminal resumes its task, or starts a shell if it has none. -/
theorem switch_tasks_eq (hne : new_term_id ≠ k.sched_term_id) : switch_tasks fs k new_term_id locals =
    if (k.terminals new_term_id).cur_task = NULL then
      (sys_execute fs (beforeRestart (handOver k new_term_id)) shell locals).map (·.2)
    else resumeTask (handOver k new_term_id) := by
  -- Saving the stack pointers of another terminal leaves the new one's task.
  have htask : ((Function.update k.terminals k.sched_term_id
      { k.terminals k.sched_term_id with esp := k.running }) new_term_id).cur_task =
      (k.terminals new_term_id).cur_task := by rw [Function.update_of_ne hne]
  rw [switch_tasks, if_pos hne]
  simp only [handOver, Kernel.onConsole, Console.setTerm, htask]
  rfl

/-- Whatever `switch_tasks` does: it starts a shell on a terminal without a task, or
    resumes the terminal's task. -/
theorem switch_tasks_cases (hswitch : switch_tasks fs k new_term_id locals = some k') :
    (new_term_id = k.sched_term_id ∧ k' = k) ∨
    (new_term_id ≠ k.sched_term_id ∧
      (((k.terminals new_term_id).cur_task = NULL ∧ ∃ outcome,
          sys_execute fs (beforeRestart (handOver k new_term_id)) shell locals = some (outcome, k')) ∨
        ((k.terminals new_term_id).cur_task ≠ NULL ∧ TaskResumed (handOver k new_term_id) k'))) := by
  by_cases hsame : new_term_id = k.sched_term_id
  · left
    rw [switch_tasks, if_neg (not_not.mpr hsame)] at hswitch
    cases hswitch
    exact ⟨hsame, rfl⟩
  · right
    refine ⟨hsame, ?_⟩
    rw [switch_tasks_eq hsame] at hswitch
    split at hswitch
    · rename_i hnull
      obtain ⟨⟨outcome, k₁⟩, hexecute, rfl⟩ := Option.map_eq_some_iff.mp hswitch
      exact .inl ⟨hnull, outcome, hexecute⟩
    · rename_i htask
      exact .inr ⟨htask, resumeTask_resumed hswitch⟩

end Cases

end lacos.timer
