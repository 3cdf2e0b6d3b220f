import Mathlib.Logic.Equiv.Fin.Basic
import LacOS.Pcb

open memory lacos.lib lacos.file_system

namespace lacos.pcb

/-- The blocks lie one below the other, from eight megabytes down. There is room for all 32 slots
    of the bit map. -/
theorem blockAddr_toNat {n : Nat} (hn : n ≤ 32) :
    (blockAddr (UInt32.ofNat n)).toNat = 0x800000 - 0x2000 * (n + 1) := by
  simp only [blockAddr, END_OF_KERNEL_PAGE, PCB_PLUS_STACK]
  rw [UInt32.toNat_sub, UInt32.toNat_mul, UInt32.toNat_add, UInt32.toNat_ofNat']
  simp
  omega

theorem blockAddr_ne_null {n : Nat} (hn : n ≤ 32) : blockAddr (UInt32.ofNat n) ≠ NULL := by
  intro hnull
  have hzero := congrArg UInt32.toNat hnull
  rw [blockAddr_toNat hn, UInt32.toNat_zero] at hzero
  omega

section Close

variable (k : Kernel) (i : Fin MAX_DESC)

/-- The descriptor `close_file_desc` leaves behind. -/
def closed (desc : fdesc_t) : fdesc_t := { desc with file_ops := .empty_f_ops_tab, flags := .NOT_USED }

/-- Closing a descriptor of the current process resets that descriptor, whatever it was open for.
    -/
theorem close_file_desc_eq (hcur : k.cur_pcb ≠ NULL) : close_file_desc k k.cur_pcb (UInt32.ofNat i) =
    (0, k.setDesc k.cur_pcb i (closed (k.desc k.cur_pcb i))) := by
  have hi : (UInt32.ofNat i).toNat = i := by
    rw [UInt32.toNat_ofNat']
    have hlt := i.isLt
    simp only [MAX_DESC] at hlt
    omega
  have hvalid : (UInt32.ofNat i).toNat < MAX_DESC ∧ k.cur_pcb ≠ NULL := ⟨by rw [hi]; exact i.isLt, hcur⟩
  have hindex : (⟨(UInt32.ofNat i).toNat, hvalid.1⟩ : Fin MAX_DESC) = i := Fin.ext hi
  rw [close_file_desc, dif_pos hvalid]
  simp only [hindex]
  simp [closed]

end Close

section Open

/-- A name that `open_file_desc` takes for `stdin` or `stdout`: one that begins with
    either. -/
def StandardName (m : Mem) (filename : UInt32) : Prop :=
  Begins m filename ['s', 't', 'd', 'i', 'n'] ∨ Begins m filename ['s', 't', 'd', 'o', 'u', 't']

instance (m : Mem) (filename : UInt32) : Decidable (StandardName m filename) := by
  unfold StandardName
  infer_instance

/-- The name is compared up to five characters, so that a longer one passes too. -/
theorem isstdin_iff (m : Mem) (filename : UInt32) :
    strncmp m filename stdinstr 0 5 = 0 ↔ Begins m filename ['s', 't', 'd', 'i', 'n'] :=
  strncmp_literal m filename (by decide) (by decide)

theorem isstdout_iff (m : Mem) (filename : UInt32) :
    strncmp m filename stdoutstr 0 6 = 0 ↔ Begins m filename ['s', 't', 'd', 'o', 'u', 't'] :=
  strncmp_literal m filename (by decide) (by decide)

variable {fs : Image} {k : Kernel} {blk : UInt32} {m : Mem} {filename : UInt32}

/-- The `open` functions of the files do not touch the descriptors. -/
theorem openOp_toTasks {file_ops : f_ops_table} {op : Kernel → Int × Kernel} (hop : file_ops.openOp = some op) :
    (op k).2.toTasks = k.toTasks := by
  cases file_ops with
  | empty_f_ops_tab | stdin | stdout => cases hop
  | rtc_jt =>
    obtain rfl := Option.some.inj hop
    rfl
  | dir_jt | regf_jt =>
    obtain rfl := Option.some.inj hop
    rfl

/-- A file is opened at its start. -/
theorem open_file_desc_fresh {idx : Fin MAX_DESC} {k' : Kernel}
    (hopen : open_file_desc fs k blk m filename = some ((idx.val : Int), k')) :
    (k'.desc blk idx).file_pos = 0 ∧ k'.cur_pcb = k.cur_pcb := by
  have hvalid : (-1 : Int) ≠ (idx.val : Int) := by omega
  simp only [open_file_desc] at hopen
  split at hopen
  · exact absurd (Prod.mk.inj (Option.some.inj hopen)).1 hvalid
  split at hopen
  · exact absurd (Prod.mk.inj (Option.some.inj hopen)).1 hvalid
  · rename_i free _
    split at hopen
    · obtain ⟨dentry, -, hopen⟩ := Option.bind_eq_some_iff.mp hopen
      obtain ⟨file_ops, -, hopen⟩ := Option.bind_eq_some_iff.mp hopen
      obtain ⟨op, hop, hopen⟩ := Option.map_eq_some_iff.mp hopen
      obtain ⟨hidx, rfl⟩ := Prod.mk.inj hopen
      obtain rfl : free = idx := Fin.ext (Int.ofNat.inj hidx)
      rw [Kernel.desc, openOp_toTasks hop]
      exact ⟨congrArg fdesc_t.file_pos (Kernel.desc_setDesc_same ..), rfl⟩
    · obtain ⟨hidx, rfl⟩ := Prod.mk.inj (Option.some.inj hopen)
      obtain rfl : free = idx := Fin.ext (Int.ofNat.inj hidx)
      rw [Kernel.desc_setDesc_same, Kernel.setDesc_cur_pcb]
      exact ⟨rfl, rfl⟩

/-- With all descriptors in use, opening fails and changes nothing. -/
theorem open_file_desc_full (hfull : ∀ i, (k.desc blk i).flags ≠ .NOT_USED) :
    open_file_desc fs k blk m filename = some (-1, k) := by
  have hfind : (Fin.find? fun idx => decide ((k.desc blk idx).flags = .NOT_USED)) = none := by
    rw [Fin.find?_eq_none_iff]
    intro i
    exact decide_eq_false (hfull i)
  simp only [open_file_desc, hfind, ite_self]

/-- The search finds the first descriptor that is not in use. -/
private theorem find_free {idx : Fin MAX_DESC} (hfree : (k.desc blk idx).flags = .NOT_USED)
    (hleast : ∀ j < idx, (k.desc blk j).flags ≠ .NOT_USED) :
    (Fin.find? fun idx => decide ((k.desc blk idx).flags = .NOT_USED)) = some idx := by
  rw [Fin.find?_eq_some_iff]
  exact ⟨decide_eq_true hfree, fun j hj => decide_eq_false (hleast j hj)⟩

variable {idx : Fin MAX_DESC} (hblk : blk ≠ NULL) (hfree : (k.desc blk idx).flags = .NOT_USED)
  (hleast : ∀ j < idx, (k.desc blk j).flags ≠ .NOT_USED)
include hblk hfree hleast

/-- `open_file_desc` of `stdin` and the like. -/
theorem open_file_desc_standard (hname : StandardName m filename) :
    open_file_desc fs k blk m filename = some ((idx.val : Int), k.setDesc blk idx
      { file_ops := if Begins m filename ['s', 't', 'd', 'i', 'n'] then .stdin else .stdout, inode := 0, file_pos := 0,
        flags := .IN_USE }) := by
  have hfind := find_free hfree hleast
  have hcond : ¬ (strncmp m filename stdinstr 0 5 ≠ 0 ∧ strncmp m filename stdoutstr 0 6 ≠ 0) := by
    rw [ne_eq, ne_eq, isstdin_iff, isstdout_iff]
    exact not_and_or.mpr (hname.imp not_not.mpr not_not.mpr)
  simp only [open_file_desc, hblk, hfind, if_false, hcond, isstdin_iff]

/-- `open_file_desc` of any other file: the descriptor gets the jump table of the
    file's type. -/
theorem open_file_desc_file (hname : ¬ StandardName m filename) {dentry : dentry_t}
    (hdentry : fs.namedDentry m filename = some dentry) {file_ops : f_ops_table}
    (htype : tableaux[dentry.file_type.toNat]? = some file_ops) :
    ∃ k', open_file_desc fs k blk m filename = some ((idx.val : Int), k') ∧
      k'.toTasks = (k.setDesc blk idx
        { file_ops, inode := dentry.inode_num, file_pos := 0, flags := .IN_USE }).toTasks := by
  have hfind := find_free hfree hleast
  have hcond : strncmp m filename stdinstr 0 5 ≠ 0 ∧ strncmp m filename stdoutstr 0 6 ≠ 0 := by
    rw [ne_eq, ne_eq, isstdin_iff, isstdout_iff]
    exact not_or.mp hname
  have hopen : ∃ op, file_ops.openOp = some op := by
    have hmem := List.mem_of_getElem? htype
    simp only [tableaux, List.mem_cons, List.not_mem_nil, or_false] at hmem
    rcases hmem with rfl | rfl | rfl
    · exact ⟨_, rfl⟩
    · exact ⟨_, rfl⟩
    · exact ⟨_, rfl⟩
  obtain ⟨op, hop⟩ := hopen
  refine ⟨_, ?_, openOp_toTasks hop⟩
  simp only [open_file_desc, hblk, hfind, if_false, if_pos hcond, hdentry, htype, hop, Option.bind_some,
    Option.map_some]

end Open

end lacos.pcb

namespace lacos.terminal

/-- The descriptor of `stdin` or `stdout`. -/
def standardDesc (file_ops : f_ops_table) : fdesc_t where
  file_ops := file_ops
  inode := 0
  file_pos := 0
  flags := .IN_USE

/-- In a new process `terminal_open` gets the first two descriptors. -/
theorem terminal_open_eq (fs : Image) (k : Kernel) (hcur : k.cur_pcb ≠ NULL)
    (hunused : ∀ i, (k.desc k.cur_pcb i).flags = .NOT_USED) :
    terminal_open fs k = some ((k.setDesc k.cur_pcb 0 (standardDesc .stdin)).setDesc k.cur_pcb 1
      (standardDesc .stdout)) := by
  have hfirst : pcb.open_file_desc fs k k.cur_pcb pcb.stdinstr 0 =
      some (0, k.setDesc k.cur_pcb 0 (standardDesc .stdin)) := by
    have hname : pcb.StandardName pcb.stdinstr 0 := by decide
    have hbegins : Begins pcb.stdinstr 0 ['s', 't', 'd', 'i', 'n'] := by decide
    rw [pcb.open_file_desc_standard hcur (hunused 0) (fun j hj => absurd hj (Fin.not_lt_zero j)) hname,
      if_pos hbegins]
    rfl
  have hused : ((k.setDesc k.cur_pcb 0 (standardDesc .stdin)).desc k.cur_pcb 0).flags ≠ .NOT_USED := by
    rw [Kernel.desc_setDesc_same]
    decide
  have hfree : ((k.setDesc k.cur_pcb 0 (standardDesc .stdin)).desc k.cur_pcb 1).flags = .NOT_USED := by
    rw [Kernel.desc_setDesc_other _ _ _ _ (fun h => absurd (Prod.mk.inj h).2 (by decide))]
    exact hunused 1
  have hsecond : pcb.open_file_desc fs (k.setDesc k.cur_pcb 0 (standardDesc .stdin)) k.cur_pcb pcb.stdoutstr 0 =
      some (1, (k.setDesc k.cur_pcb 0 (standardDesc .stdin)).setDesc k.cur_pcb 1 (standardDesc .stdout)) := by
    have hname : pcb.StandardName pcb.stdoutstr 0 := by decide
    have hbegins : ¬ Begins pcb.stdoutstr 0 ['s', 't', 'd', 'i', 'n'] := by decide
    have hleast (j : Fin MAX_DESC) (hj : j < 1) :
        ((k.setDesc k.cur_pcb 0 (standardDesc .stdin)).desc k.cur_pcb j).flags ≠ .NOT_USED := by
      obtain rfl : j = 0 := Fin.ext (by simpa [Fin.lt_def] using hj)
      exact hused
    rw [pcb.open_file_desc_standard hcur hfree hleast hname, if_neg hbegins]
    rfl
  rw [terminal_open, hfirst, Option.bind_some]
  simp only [Kernel.setDesc_cur_pcb, hsecond, Option.map_some]

/-- A process that has its standard files and no other. -/
def standardProcess : Kernel :=
  { blankMachine with cur_pcb := 0x7FE000 }
    |>.setDesc 0x7FE000 0 (standardDesc .stdin)
    |>.setDesc 0x7FE000 1 (standardDesc .stdout)

end lacos.terminal
