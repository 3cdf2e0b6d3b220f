import LacOS.Base.Run
import LacOS.Paging.Translate
import LacOS.Syscalls.Files
import LacOS.System

open memory lacos.lib lacos.file_system lacos.paging lacos.pcb lacos.system trace

namespace lacos.syscalls

/-- A call of the running process, with no tick inside it. -/
inductive Call where
  | execute (command : CString) (locals : Locals)
  | halt (status : UInt8) (locals : Locals)

/-- The kernel in which a process has been started. -/
def startedKernel : Outcome × Kernel → Option Kernel
  | (.entered _, k) => some k
  | (.returned _, _) => none

/-- The calls of a process and its descendants, with the number of descendants alive:
    an `execute` that starts a process, and a `halt` by a descendant. -/
def nestStep (fs : Image) (state : Kernel × Nat) : Call → Option (Kernel × Nat)
  | .execute command locals =>
    ((sys_execute fs state.1 command locals).bind startedKernel).map fun k => (k, state.2 + 1)
  | .halt status locals =>
    if state.2 = 0 then none else (sys_halt fs state.1 status locals).map fun result => (result.2, state.2 - 1)

/-- A process is current, on the terminal that is both scheduled and visible, with its
    page and its kernel stack. -/
structure Calling (k : Kernel) : Prop where
  home : k.vis_term_id = k.sched_term_id
  shell : k.starting_new_shell = false
  not_null : k.cur_pcb ≠ NULL
  cur_task : (k.terminals k.sched_term_id).cur_task = k.cur_pcb
  page : resolve_virt_addr k.toPaging PROGRAM_VIRT = (k.pcbs k.cur_pcb).page_addr
  esp0 : k.tss_esp0 = (k.pcbs k.cur_pcb).esp0

/-- The current process has a slot, which is marked as taken. -/
structure Holds (k : Kernel) (base : Nat) : Prop where
  six : SixSlots k.pcb_status
  taken : Taken k.pcb_status base
  cur_pcb : k.cur_pcb = slotBlock base
  page_addr : (k.pcbs (slotBlock base)).page_addr = programPage base

instance (k : Kernel) : Decidable (Calling k) :=
  decidable_of_iff (k.vis_term_id = k.sched_term_id ∧ k.starting_new_shell = false ∧ k.cur_pcb ≠ NULL ∧
      (k.terminals k.sched_term_id).cur_task = k.cur_pcb ∧
      resolve_virt_addr k.toPaging PROGRAM_VIRT = (k.pcbs k.cur_pcb).page_addr ∧
      k.tss_esp0 = (k.pcbs k.cur_pcb).esp0)
    ⟨fun ⟨hhome, hshell, hnull, htask, hpage, hesp0⟩ => ⟨hhome, hshell, hnull, htask, hpage, hesp0⟩,
      fun hk => ⟨hk.home, hk.shell, hk.not_null, hk.cur_task, hk.page, hk.esp0⟩⟩

instance (k : Kernel) (base : Nat) : Decidable (Holds k base) :=
  decidable_of_iff (k.pcb_status.toNat < 2 ^ 6 ∧ Taken k.pcb_status base ∧ k.cur_pcb = slotBlock base ∧
      (k.pcbs (slotBlock base)).page_addr = programPage base)
    ⟨fun ⟨hsix, htaken, hcur, hpage⟩ => ⟨(sixSlots_iff _).mpr hsix, htaken, hcur, hpage⟩,
      fun hk => ⟨(sixSlots_iff _).mp hk.six, hk.taken, hk.cur_pcb, hk.page_addr⟩⟩

/-- The kernel is back where it was. -/
structure Restored (k k' : Kernel) : Prop where
  pcb_status : k'.pcb_status = k.pcb_status
  cur_pcb : k'.cur_pcb = k.cur_pcb
  cur_task : (k'.terminals k.sched_term_id).cur_task = (k.terminals k.sched_term_id).cur_task
  page : resolve_virt_addr k'.toPaging PROGRAM_VIRT = resolve_virt_addr k.toPaging PROGRAM_VIRT
  esp0 : k'.tss_esp0 = k.tss_esp0
  files : (k'.pcbs k.cur_pcb).io_files = (k.pcbs k.cur_pcb).io_files

/-- Each slot's process is the child of that of the next slot, and the last one's of
    that of `base`. -/
def Descends (k : Kernel) (base : Nat) : List Nat → Prop
  | [] => True
  | n :: rest => (k.pcbs (slotBlock n)).parent_task = slotBlock (rest.headD base) ∧ Descends k base rest

/-- The descendants of the process that was current in `k₀`, the running one first. -/
structure Nested (k₀ : Kernel) (base : Nat) (slots : List Nat) (k : Kernel) : Prop where
  home : k.vis_term_id = k₀.sched_term_id
  sched_term_id : k.sched_term_id = k₀.sched_term_id
  shell : k.starting_new_shell = false
  distinct : slots.Nodup
  taken : ∀ m, Taken k.pcb_status m ↔ Taken k₀.pcb_status m ∨ m ∈ slots
  free : ∀ m ∈ slots, m < 6 ∧ ¬ Taken k₀.pcb_status m
  cur_pcb : k.cur_pcb = slotBlock (slots.headD base)
  cur_task : (k.terminals k₀.sched_term_id).cur_task = k.cur_pcb
  page_addr : ∀ m ∈ base :: slots, (k.pcbs (slotBlock m)).page_addr = programPage m
  descends : Descends k base slots
  block : ∃ esp, k.pcbs (slotBlock base) = { k₀.pcbs (slotBlock base) with esp := esp }
  page : resolve_virt_addr k.toPaging PROGRAM_VIRT = programPage (slots.headD base)
  esp0 : k.tss_esp0 = (k.pcbs k.cur_pcb).esp0

section Nested

variable {fs : Image} {k₀ k k' : Kernel} {base : Nat} {slots : List Nat}

/-- At first the process has no descendants. -/
theorem nested_self (hcalling : Calling k) (hholds : Holds k base) : Nested k base [] k where
  home := hcalling.home
  sched_term_id := rfl
  shell := hcalling.shell
  distinct := List.nodup_nil
  taken m := by simp only [List.not_mem_nil, or_false]
  free m hm := absurd hm List.not_mem_nil
  cur_pcb := hholds.cur_pcb
  cur_task := hcalling.cur_task
  page_addr m hm := by
    obtain rfl := List.mem_singleton.mp hm
    exact hholds.page_addr
  descends := trivial
  block := ⟨_, rfl⟩
  page := by rw [hcalling.page, hholds.cur_pcb, hholds.page_addr, List.headD_nil]
  esp0 := hcalling.esp0

/-- Only the parents of the processes count. -/
theorem Descends.congr (hdescends : Descends k base slots)
    (hparent : ∀ m ∈ slots, (k'.pcbs (slotBlock m)).parent_task = (k.pcbs (slotBlock m)).parent_task) :
    Descends k' base slots := by
  induction slots with
  | nil => exact trivial
  | cons n rest ih =>
    refine ⟨?_, ih hdescends.2 fun m hm => hparent m (List.mem_cons_of_mem n hm)⟩
    rw [hparent n List.mem_cons_self]
    exact hdescends.1

/-- Descendants only take slots among the six. -/
theorem Nested.six (hk : Nested k₀ base slots k) (hsix : SixSlots k₀.pcb_status) : SixSlots k.pcb_status := by
  intro m hm
  obtain hold | hnew := (hk.taken m).mp hm
  · exact hsix m hold
  · exact (hk.free m hnew).1

/-- The process and its descendants have slots among the six. -/
theorem Nested.below (hk : Nested k₀ base slots k) (hholds : Holds k₀ base) {m : Nat} (hm : m ∈ base :: slots) :
    m < 6 := by
  obtain rfl | hm := List.mem_cons.mp hm
  · exact hholds.six m hholds.taken
  · exact (hk.free m hm).1

/-- The running one of them is one of them. -/
theorem headD_mem (slots : List Nat) (base : Nat) : slots.headD base ∈ base :: slots := by
  cases slots with
  | nil => exact List.mem_cons_self
  | cons n rest => exact List.mem_cons_of_mem base List.mem_cons_self

/-- They stay among them when there is one more. -/
theorem mem_pushed (n : Nat) {m : Nat} (hm : m ∈ base :: slots) : m ∈ base :: n :: slots := by
  obtain rfl | hm := List.mem_cons.mp hm
  · exact List.mem_cons_self
  · exact List.mem_cons_of_mem base (List.mem_cons_of_mem n hm)

/-- The block of a new slot is none of theirs. -/
theorem slotBlock_ne {n m : Nat} (hbelow : ∀ m ∈ base :: slots, m < 6) (hn : n < 6) (hnew : n ∉ base :: slots)
    (hm : m ∈ base :: slots) : slotBlock m ≠ slotBlock n := by
  intro heq
  have hm6 := hbelow m hm
  obtain rfl := (slotBlock_inj (by omega) (by omega)).mp heq
  exact hnew hm

/-- One more descendant. -/
theorem Nested.pushed (hk : Nested k₀ base slots k) (hholds : Holds k₀ base) {n : Nat} (hn : n < 6)
    (hfree : ¬ Taken k.pcb_status n) (hlaunched : Launched k k' n) : Nested k₀ base (n :: slots) k' := by
  obtain ⟨hfree₀, hnew⟩ := not_or.mp (mt (hk.taken n).mpr hfree)
  have hterm : startTerm k = k₀.sched_term_id := by rw [startTerm, hk.shell, if_neg Bool.false_ne_true, hk.home]
  have hapart : n ∉ base :: slots := List.not_mem_cons_of_ne_of_not_mem (fun h => hfree₀ (h ▸ hholds.taken)) hnew
  have hother (m : Nat) (hm : m ∈ base :: slots) :
      ∃ esp, k'.pcbs (slotBlock m) = { k.pcbs (slotBlock m) with esp := esp } :=
    hlaunched.other (slotBlock_ne (fun _ => hk.below hholds) hn hapart hm)
  constructor
  case home => rw [hlaunched.vis_term_id, hk.home]
  case sched_term_id => rw [hlaunched.sched_term_id, hk.sched_term_id]
  case shell => rw [hlaunched.starting_new_shell, hk.shell]
  case distinct => exact List.nodup_cons.mpr ⟨hnew, hk.distinct⟩
  case taken =>
    intro m
    rw [hlaunched.pcb_status, taken_or (by omega), hk.taken, List.mem_cons]
    tauto
  case free =>
    intro m hm
    obtain rfl | hm := List.mem_cons.mp hm
    · exact ⟨hn, hfree₀⟩
    · exact hk.free m hm
  case cur_pcb => rw [hlaunched.cur_pcb, List.headD_cons]
  case cur_task => rw [hlaunched.cur_task, hterm, if_pos rfl, hlaunched.cur_pcb]
  case page_addr =>
    intro m hm
    by_cases hmn : m = n
    · rw [hmn]
      exact hlaunched.page_addr
    · have hm' : m ∈ base :: slots := by
        obtain rfl | hm := List.mem_cons.mp hm
        · exact List.mem_cons_self
        · exact List.mem_cons_of_mem base ((List.mem_cons.mp hm).resolve_left hmn)
      obtain ⟨esp, hblock⟩ := hother m hm'
      rw [hblock]
      exact hk.page_addr m hm'
  case descends =>
    refine ⟨?_, hk.descends.congr fun m hm => ?_⟩
    · rw [hlaunched.parent_task, startParent, hk.shell, if_neg Bool.false_ne_true, hk.home, hk.cur_task, hk.cur_pcb]
    · obtain ⟨esp, hblock⟩ := hother m (List.mem_cons_of_mem base hm)
      rw [hblock]
  case block =>
    obtain ⟨esp₀, hblock₀⟩ := hk.block
    obtain ⟨esp, hblock⟩ := hother base List.mem_cons_self
    exact ⟨esp, by rw [hblock, hblock₀]⟩
  case page => exact resolve_mapProgram hn hlaunched.page_directory
  case esp0 => rw [hlaunched.tss_esp0, hlaunched.cur_pcb, hlaunched.esp0]

/-- The last descendant halts. -/
theorem Nested.popped {n : Nat} (hk : Nested k₀ base (n :: slots) k) (hholds : Holds k₀ base) {released : Kernel}
    (hreleased : Released k released) (frame : Frame) : Nested k₀ base slots (resumeParent released frame) := by
  obtain ⟨hn, hfree₀⟩ := hk.free n List.mem_cons_self
  obtain ⟨hnew, hdistinct⟩ := List.nodup_cons.mp hk.distinct
  have hcur : k.cur_pcb = slotBlock n := hk.cur_pcb
  have hparent : (k.pcbs k.cur_pcb).parent_task = slotBlock (slots.headD base) := by rw [hcur, hk.descends.1]
  have hhead : slots.headD base ∈ base :: n :: slots := mem_pushed n (headD_mem slots base)
  have hapart : n ∉ base :: slots := List.not_mem_cons_of_ne_of_not_mem (fun h => hfree₀ (h ▸ hholds.taken)) hnew
  have hother (m : Nat) (hm : m ∈ base :: slots) : released.pcbs (slotBlock m) = k.pcbs (slotBlock m) := by
    have hne := slotBlock_ne (fun _ hm => hk.below hholds (mem_pushed n hm)) hn hapart hm
    rw [hreleased.pcbs, hcur, Function.update_of_ne hne]
  constructor
  case home => exact hreleased.vis_term_id.trans hk.home
  case sched_term_id => exact hreleased.sched_term_id.trans hk.sched_term_id
  case shell => exact hreleased.starting_new_shell.trans hk.shell
  case distinct => exact hdistinct
  case taken =>
    intro m
    change Taken released.pcb_status m ↔ _
    rw [hreleased.pcb_status, hcur, haltSlot_block (by omega), taken_clear (by omega), hk.taken, List.mem_cons]
    constructor
    · rintro ⟨hne, hold | rfl | hm⟩
      · exact .inl hold
      · exact absurd rfl hne
      · exact .inr hm
    · rintro (hold | hm)
      · exact ⟨fun heq => hfree₀ (heq ▸ hold), .inl hold⟩
      · exact ⟨fun heq => hnew (heq ▸ hm), .inr (.inr hm)⟩
  case free => exact fun m hm => hk.free m (List.mem_cons_of_mem n hm)
  case cur_pcb => exact hreleased.cur_pcb.trans hparent
  case cur_task =>
    change (released.terminals k₀.sched_term_id).cur_task = released.cur_pcb
    rw [hreleased.cur_task, hk.sched_term_id, if_pos rfl, hreleased.cur_pcb]
  case page_addr =>
    intro m hm
    change (released.pcbs (slotBlock m)).page_addr = programPage m
    rw [hother m hm]
    exact hk.page_addr m (mem_pushed n hm)
  case descends =>
    refine hk.descends.2.congr fun m hm => ?_
    change (released.pcbs (slotBlock m)).parent_task = _
    rw [hother m (List.mem_cons_of_mem base hm)]
  case block =>
    obtain ⟨esp, hesp⟩ := hk.block
    exact ⟨esp, (hother base List.mem_cons_self).trans hesp⟩
  case page =>
    have hbelow := hk.below hholds hhead
    have hpage : haltPage k (k.pcbs k.cur_pcb) = programPage (slots.headD base) := by
      rw [haltPage, hparent, if_pos (slotBlock_ne_null (by omega)), hk.page_addr _ hhead]
    have hdir := hreleased.page_directory
    rw [hpage] at hdir
    exact resolve_mapProgram hbelow hdir
  case esp0 => rfl

/-- A descendant that halts goes back to its parent. -/
theorem Nested.halted {n : Nat} (hk : Nested k₀ base (n :: slots) k) (hholds : Holds k₀ base) {status : UInt8}
    {locals : Locals} {halted : Halted} (hhalt : sys_halt fs k status locals = some (halted, k')) :
    Nested k₀ base slots k' ∧ ∀ i, ∃ desc, (k'.pcbs (slotBlock n)).io_files i = closed desc := by
  have hcur : k.cur_pcb = slotBlock n := hk.cur_pcb
  obtain ⟨-, released, -, hreleased, ⟨-, frame, -, -, rfl⟩ | ⟨hnull, -⟩⟩ := sys_halt_cases hhalt
  · refine ⟨hk.popped hholds hreleased frame, fun i => ?_⟩
    change ∃ desc, (released.pcbs (slotBlock n)).io_files i = closed desc
    rw [hreleased.pcbs, hcur, Function.update_self, withFiles_io_files]
    exact ⟨_, rfl⟩
  · -- The parent is the process itself or a descendant, so there is one to go back to.
    rw [hcur, hk.descends.1] at hnull
    have hparent := hk.below hholds (mem_pushed n (headD_mem slots base))
    exact absurd hnull (slotBlock_ne_null (by omega))

/-- The calls of the descendants of a process in slot `c` leave it and its ancestors. -/
theorem Nested.run {c depth : Nat} {calls : List Call} (hholds : Holds k₀ base) (hk : Nested k₀ base [c] k)
    (hrun : run (nestStep fs) (k, 0) calls = some (k', depth)) :
    ∃ above : List Nat, above.length = depth ∧ Nested k₀ base (above ++ [c]) k' := by
  have hkeep (state : Kernel × Nat) (call : Call) (state' : Kernel × Nat)
      (hstate : ∃ above : List Nat, above.length = state.2 ∧ Nested k₀ base (above ++ [c]) state.1)
      (hstep : nestStep fs state call = some state') :
      ∃ above : List Nat, above.length = state'.2 ∧ Nested k₀ base (above ++ [c]) state'.1 := by
    obtain ⟨k, depth⟩ := state
    obtain ⟨above, hlength, hnested⟩ := hstate
    cases call with
    | execute command locals =>
      obtain ⟨k₁, hstarted, rfl⟩ := Option.map_eq_some_iff.mp hstep
      obtain ⟨⟨outcome, k₂⟩, hexecute, hentered⟩ := Option.bind_eq_some_iff.mp hstarted
      cases outcome with
      | returned value => cases hentered
      | entered entry =>
        cases hentered
        obtain ⟨n, hn, hfree, hlaunched⟩ := sys_execute_entered (hnested.six hholds.six) hexecute
        exact ⟨n :: above, by rw [List.length_cons, hlength], hnested.pushed hholds hn hfree hlaunched⟩
    | halt status locals =>
      rw [nestStep] at hstep
      split at hstep
      · cases hstep
      · rename_i hdepth
        obtain ⟨⟨halted, k₁⟩, hhalt, rfl⟩ := Option.map_eq_some_iff.mp hstep
        cases above with
        | nil => exact absurd hlength.symm hdepth
        | cons n above =>
          refine ⟨above, ?_, (hnested.halted hholds hhalt).1⟩
          rw [← hlength, List.length_cons, Nat.add_sub_cancel]
  have hstart : ∃ above : List Nat, above.length = (k, 0).2 ∧ Nested k₀ base (above ++ [c]) (k, 0).1 := ⟨[], rfl, hk⟩
  have hend := run_invariant_of_step hkeep hstart hrun
  exact hend

/-- Without descendants left, the kernel is back where it was. -/
theorem Nested.restored (hcalling : Calling k₀) (hholds : Holds k₀ base) (hk : Nested k₀ base [] k) :
    Restored k₀ k := by
  obtain ⟨esp, hblock⟩ := hk.block
  have hcur : k.cur_pcb = k₀.cur_pcb := hk.cur_pcb.trans hholds.cur_pcb.symm
  have hblock' : k.pcbs k₀.cur_pcb = { k₀.pcbs k₀.cur_pcb with esp := esp } := by
    rw [hholds.cur_pcb, hblock]
  refine ⟨status_eq_of_taken fun m => ?_, hcur, ?_, ?_, ?_, ?_⟩
  · rw [hk.taken]
    simp only [List.not_mem_nil, or_false]
  · rw [hk.cur_task, hcur, hcalling.cur_task]
  · rw [hk.page, hcalling.page, hholds.cur_pcb, hholds.page_addr, List.headD_nil]
  · rw [hk.esp0, hcur, hblock', hcalling.esp0]
  · rw [hblock']

end Nested

end lacos.syscalls
