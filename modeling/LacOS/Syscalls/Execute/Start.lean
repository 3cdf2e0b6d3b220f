import LacOS.Pcb.Descriptors
import LacOS.Syscalls.Execute

open memory lacos.lib lacos.file_system lacos.paging lacos.pcb lacos.terminal

namespace lacos.syscalls

/-- The descriptors of a new process, in a block that held `io_files`. -/
def standardFiles (io_files : Fin MAX_DESC → fdesc_t) : Fin MAX_DESC → fdesc_t :=
  Function.update (Function.update io_files 0 (standardDesc .stdin)) 1 (standardDesc .stdout)

/-- The process that `sys_execute` starts next in the block `new_pcb`. -/
def newProcess (k : Kernel) (new_pcb : UInt32) : Process := { id := k.next_id, pcb := new_pcb }

@[simp] theorem newProcess_pcb (k : Kernel) (new_pcb : UInt32) : (newProcess k new_pcb).pcb = new_pcb := rfl

@[simp] theorem newProcess_id (k : Kernel) (new_pcb : UInt32) : (newProcess k new_pcb).id = k.next_id := rfl

/-- The terminal that `sys_execute` starts a process on. -/
def startTerm (k : Kernel) : Fin MAX_TERM_NUM := if k.starting_new_shell then k.sched_term_id else k.vis_term_id

/-- The task that becomes the parent of the process. -/
def startParent (k : Kernel) : UInt32 :=
  if k.starting_new_shell then NULL else (k.terminals k.vis_term_id).cur_task

/-- The blocks once the stack pointers have been saved in the parent. -/
def savedPcbs (k : Kernel) (new_pcb : UInt32) : UInt32 → pcb_t :=
  if k.starting_new_shell then k.pcbs
  else Function.update k.pcbs (startParent k)
    { k.pcbs (startParent k) with esp := some { caller := k.running, child := newProcess k new_pcb } }

/-- A block once its process has a page, a parent, a kernel stack and a terminal. -/
def setUp (blk : pcb_t) (page_addr parent_task pid esp0 : UInt32) (term_num : UInt8) : pcb_t :=
  { blk with page_addr, parent_task, pid, fd_status := 3, esp0, term_num }

/-- A block with other descriptors. -/
def withFiles (blk : pcb_t) (io_files : Fin MAX_DESC → fdesc_t) : pcb_t := { blk with io_files }

section Block

variable (blk : pcb_t) (page_addr parent_task pid esp0 : UInt32) (term_num : UInt8)
  (io_files : Fin MAX_DESC → fdesc_t)

@[simp] theorem setUp_page_addr : (setUp blk page_addr parent_task pid esp0 term_num).page_addr = page_addr := rfl

@[simp] theorem setUp_parent_task :
    (setUp blk page_addr parent_task pid esp0 term_num).parent_task = parent_task := rfl

@[simp] theorem setUp_esp0 : (setUp blk page_addr parent_task pid esp0 term_num).esp0 = esp0 := rfl

@[simp] theorem setUp_term_num : (setUp blk page_addr parent_task pid esp0 term_num).term_num = term_num := rfl

@[simp] theorem setUp_pcb_num : (setUp blk page_addr parent_task pid esp0 term_num).pcb_num = blk.pcb_num := rfl

@[simp] theorem setUp_io_files : (setUp blk page_addr parent_task pid esp0 term_num).io_files = blk.io_files := rfl

@[simp] theorem setUp_tail : (setUp blk page_addr parent_task pid esp0 term_num).tail = blk.tail := rfl

@[simp] theorem withFiles_page_addr : (withFiles blk io_files).page_addr = blk.page_addr := rfl

@[simp] theorem withFiles_parent_task : (withFiles blk io_files).parent_task = blk.parent_task := rfl

@[simp] theorem withFiles_esp0 : (withFiles blk io_files).esp0 = blk.esp0 := rfl

@[simp] theorem withFiles_term_num : (withFiles blk io_files).term_num = blk.term_num := rfl

@[simp] theorem withFiles_pcb_num : (withFiles blk io_files).pcb_num = blk.pcb_num := rfl

@[simp] theorem withFiles_io_files : (withFiles blk io_files).io_files = io_files := rfl

@[simp] theorem withFiles_tail : (withFiles blk io_files).tail = blk.tail := rfl

end Block

/-- The block of a new process, before its descriptors are opened. -/
def newBlock (k : Kernel) (new_pcb page_addr : UInt32) : pcb_t :=
  setUp (savedPcbs k new_pcb new_pcb) page_addr (startParent k) k.numproc
    (esp0OfNum (k.pcbs new_pcb).pcb_num) (UInt8.ofNat (startTerm k))

/-- The effect of making the block `new_pcb` that of a process of a terminal. -/
structure Linked (k k' : Kernel) (new_pcb page_addr : UInt32) : Prop where
  terminals : k'.terminals =
    Function.update k.terminals (startTerm k) { k.terminals (startTerm k) with cur_task := new_pcb }
  vis_term_id : k'.vis_term_id = k.vis_term_id
  sched_term_id : k'.sched_term_id = k.sched_term_id
  pcb_status : k'.pcb_status = k.pcb_status
  pcbs : k'.pcbs = Function.update (savedPcbs k new_pcb) new_pcb (newBlock k new_pcb page_addr)
  except_raised : k'.except_raised = k.except_raised
  starting_new_shell : k'.starting_new_shell = k.starting_new_shell
  tss_esp0 : k'.tss_esp0 = esp0OfNum (k.pcbs new_pcb).pcb_num
  page_directory : k'.page_directory = k.page_directory
  page_tables : k'.page_tables = k.page_tables
  running : k'.running = k.running
  next_id : k'.next_id = k.next_id

/-- The effect of `runChild`. -/
structure Entered (k k' : Kernel) (new_pcb : UInt32) : Prop where
  console : k'.toConsole = k.toConsole
  pcb_status : k'.pcb_status = k.pcb_status
  pcbs : k'.pcbs = Function.update k.pcbs new_pcb
    (withFiles (k.pcbs new_pcb) (standardFiles (k.pcbs new_pcb).io_files))
  cur_pcb : k'.cur_pcb = new_pcb
  except_raised : k'.except_raised = k.except_raised
  starting_new_shell : k'.starting_new_shell = k.starting_new_shell
  tss_esp0 : k'.tss_esp0 = k.tss_esp0
  page_directory : k'.page_directory = k.page_directory
  page_tables : k'.page_tables = k.page_tables
  running : k'.running = .process (newProcess k new_pcb)
  next_id : k'.next_id = k.next_id + 1

section Link

variable (k : Kernel) (new_pcb page_addr : UInt32)

/-- A shell is linked to the scheduled terminal, without a parent. -/
theorem linkShell_linked (hshell : k.starting_new_shell = true) :
    Linked k (linkShell (setUpBlock k new_pcb page_addr) new_pcb) new_pcb page_addr := by
  have hterm : startTerm k = k.sched_term_id := by rw [startTerm, if_pos hshell]
  have hparent : startParent k = NULL := by rw [startParent, if_pos hshell]
  have hsaved : savedPcbs k new_pcb = k.pcbs := by rw [savedPcbs, if_pos hshell]
  refine ⟨?_, rfl, rfl, rfl, ?_, rfl, rfl, rfl, rfl, rfl, rfl, rfl⟩
  · rw [hterm]
    rfl
  · simp [linkShell, setUpBlock, Kernel.setPcb, Kernel.onConsole, newBlock, setUp, hterm, hparent, hsaved]

/-- Any other process is linked to the visible terminal, with its task as the parent. -/
theorem linkParent_linked (hshell : k.starting_new_shell = false) :
    Linked k (linkParent (setUpBlock k new_pcb page_addr) new_pcb (startParent k)) new_pcb page_addr := by
  have hterm : startTerm k = k.vis_term_id := by simp [startTerm, hshell]
  have hsaved : savedPcbs k new_pcb = Function.update k.pcbs (startParent k)
      { k.pcbs (startParent k) with esp := some { caller := k.running, child := newProcess k new_pcb } } := by
    simp [savedPcbs, hshell]
  refine ⟨?_, rfl, rfl, rfl, ?_, rfl, rfl, rfl, rfl, rfl, rfl, rfl⟩
  · rw [hterm]
    rfl
  · funext p
    rw [hsaved]
    by_cases hp : p = new_pcb
    · subst hp
      by_cases hparent : p = startParent k
      · rw [← hparent] at hsaved ⊢
        simp [linkParent, setUpBlock, Kernel.setPcb, Kernel.onConsole, newBlock, setUp, hsaved, hterm, ← hparent,
          newProcess]
      · simp [linkParent, setUpBlock, Kernel.setPcb, Kernel.onConsole, newBlock, setUp, hsaved, hterm, hparent]
    · by_cases hparent : p = startParent k
      · rw [← hparent]
        simp [linkParent, setUpBlock, Kernel.setPcb, Kernel.onConsole, hp, newProcess]
      · simp [linkParent, setUpBlock, Kernel.setPcb, Kernel.onConsole, hp, hparent]

end Link

/-- Only stack pointers are saved. -/
theorem savedPcbs_eq (k : Kernel) (new_pcb p : UInt32) :
    ∃ esp, savedPcbs k new_pcb p = { k.pcbs p with esp := esp } := by
  unfold savedPcbs
  split
  · exact ⟨_, rfl⟩
  · by_cases hp : p = startParent k
    · rw [hp, Function.update_self]
      exact ⟨_, rfl⟩
    · rw [Function.update_of_ne hp]
      exact ⟨_, rfl⟩

section Start

variable {fs : Image} {k : Kernel} {locals : Locals} {inode new_pcb : UInt32} (hnew : new_pcb ≠ NULL)
  (hclean : ∀ i, ((k.pcbs new_pcb).io_files i).flags = .NOT_USED)
include hnew hclean

/-- From the switch to the child on, the call enters the process, at the address that the header
    names. The new block must have its descriptors free. -/
theorem runChild_spec : ∃ entry k', runChild fs k locals inode new_pcb = some (.entered entry, k') ∧
    entry = load32 (file_data fs locals inode) 24 ∧ Entered k k' new_pcb := by
  have hopen := terminal_open_eq fs { k with cur_pcb := new_pcb } hnew hclean
  simp only [runChild, hopen, Option.map_some]
  refine ⟨_, _, rfl, rfl, ?_⟩
  constructor
  case pcbs => simp [enterProcess, loadProgram, sti, Kernel.setDesc, Kernel.setPcb, withFiles, standardFiles]
  all_goals rfl

/-- Past its checks `sys_execute` starts a process, unless the process needs a parent
    and the visible terminal has no task. -/
theorem linkProcess_spec (page_addr : UInt32) :
    (k.starting_new_shell = false ∧ startParent k = NULL ∧
      linkProcess fs k locals inode new_pcb page_addr = none) ∨
    ((k.starting_new_shell = false → startParent k ≠ NULL) ∧
      ∃ linked k', Linked k linked new_pcb page_addr ∧ Entered linked k' new_pcb ∧
        linkProcess fs k locals inode new_pcb page_addr =
          some (.entered (load32 (file_data fs locals inode) 24), k')) := by
  have hfiles {linked : Kernel} (hlinked : Linked k linked new_pcb page_addr) :
      ∀ i, ((linked.pcbs new_pcb).io_files i).flags = .NOT_USED := by
    obtain ⟨esp, hsaved⟩ := savedPcbs_eq k new_pcb new_pcb
    rw [hlinked.pcbs, Function.update_self, newBlock, setUp_io_files, hsaved]
    exact hclean
  have hflag : (setUpBlock k new_pcb page_addr).starting_new_shell = k.starting_new_shell := rfl
  cases hshell : k.starting_new_shell with
  | true =>
    right
    have hlinked := linkShell_linked k new_pcb page_addr hshell
    obtain ⟨linked, heq⟩ : ∃ linked, linked = linkShell (setUpBlock k new_pcb page_addr) new_pcb := ⟨_, rfl⟩
    rw [← heq] at hlinked
    obtain ⟨entry, k', hrun, rfl, hentered⟩ : ∃ entry k', runChild fs linked locals inode new_pcb =
        some (.entered entry, k') ∧ entry = load32 (file_data fs locals inode) 24 ∧ Entered linked k' new_pcb :=
      runChild_spec hnew (hfiles hlinked)
    refine ⟨fun h => absurd h (by decide), linked, k', hlinked, hentered, ?_⟩
    simp only [linkProcess, hflag, hshell, if_true, Option.bind_some, ← heq, hrun]
  | false =>
    have htask : ((setUpBlock k new_pcb page_addr).terminals
        (setUpBlock k new_pcb page_addr).vis_term_id).cur_task = startParent k := by
      simp only [startParent, hshell]
      rfl
    by_cases hparent : startParent k = NULL
    · left
      refine ⟨rfl, hparent, ?_⟩
      simp [linkProcess, hflag, hshell, linkChild, htask, hparent]
    · right
      have hlinked := linkParent_linked k new_pcb page_addr hshell
      obtain ⟨linked, heq⟩ : ∃ linked, linked =
        linkParent (setUpBlock k new_pcb page_addr) new_pcb (startParent k) := ⟨_, rfl⟩
      rw [← heq] at hlinked
      obtain ⟨entry, k', hrun, rfl, hentered⟩ : ∃ entry k', runChild fs linked locals inode new_pcb =
          some (.entered entry, k') ∧ entry = load32 (file_data fs locals inode) 24 ∧ Entered linked k' new_pcb :=
        runChild_spec hnew (hfiles hlinked)
      refine ⟨fun _ => hparent, linked, k', hlinked, hentered, ?_⟩
      have hflag' : ¬ (setUpBlock k new_pcb page_addr).starting_new_shell = true := by
        rw [hflag, hshell]
        decide
      simp only [linkProcess, if_neg hflag', linkChild, htask, if_neg hparent, Option.bind_some, ← heq, hrun]

/-- The command that was stored in the block stays there. -/
theorem linkProcess_tail {page_addr : UInt32} {outcome : Outcome} {k' : Kernel}
    (hlink : linkProcess fs k locals inode new_pcb page_addr = some (outcome, k')) :
    k'.cur_pcb = new_pcb ∧ (k'.pcbs new_pcb).tail = (k.pcbs new_pcb).tail := by
  have hspec := @linkProcess_spec fs k locals inode new_pcb hnew hclean page_addr
  rw [hlink] at hspec
  obtain ⟨-, -, hnone⟩ | ⟨-, linked, k₁, hlinked, hentered, hsome⟩ := hspec
  · cases hnone
  · obtain ⟨-, rfl⟩ := Prod.mk.inj (Option.some.inj hsome)
    obtain ⟨esp, hsaved⟩ := savedPcbs_eq k new_pcb new_pcb
    refine ⟨hentered.cur_pcb, ?_⟩
    rw [hentered.pcbs, Function.update_self, withFiles_tail, hlinked.pcbs, Function.update_self, newBlock,
      setUp_tail, hsaved]

end Start

end lacos.syscalls
