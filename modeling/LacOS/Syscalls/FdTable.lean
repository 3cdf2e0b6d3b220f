import LacOS.Base.Run
import LacOS.Syscalls.Execute.Effect
import LacOS.Syscalls.Files
import LacOS.Terminal.Read

open memory lacos.lib lacos.file_system lacos.pcb trace

namespace lacos.syscalls

/-- The descriptors of the calling process: those in use are those with a jump
    table, the first two are `stdin` and `stdout`, and no other is. -/
structure TableSound (k : Kernel) : Prop where
  current : k.cur_pcb ≠ NULL
  in_use : ∀ i, (k.desc k.cur_pcb i).flags = .IN_USE ↔ (k.desc k.cur_pcb i).file_ops ≠ .empty_f_ops_tab
  stdin : (k.desc k.cur_pcb 0).file_ops = .stdin
  stdout : (k.desc k.cur_pcb 1).file_ops = .stdout
  files : ∀ i, 2 ≤ i.val → (k.desc k.cur_pcb i).file_ops ≠ .stdin ∧ (k.desc k.cur_pcb i).file_ops ≠ .stdout

theorem flags_ne_not_used_iff {flags : status_t} : flags ≠ .NOT_USED ↔ flags = .IN_USE := by
  cases flags <;> decide

/-- `sys_close` of a file frees its slot. -/
theorem sys_close_file {k : Kernel} (hcur : k.cur_pcb ≠ NULL) {fd : Int32} {i : Fin MAX_DESC}
    (hfd : descIndex fd = some i) (hi : 2 ≤ i.val) (hops : (k.desc k.cur_pcb i).file_ops ∈ tableaux) :
    sys_close k fd = (0, k.setDesc k.cur_pcb i (closed (k.desc k.cur_pcb i))) := by
  have hop : (k.desc k.cur_pcb i).file_ops.closeOp = some fun k fd => close_file_desc k k.cur_pcb fd := by
    simp only [tableaux, List.mem_cons, List.not_mem_nil, or_false] at hops
    rcases hops with hops | hops | hops
    · rw [hops]
      rfl
    · rw [hops]
      rfl
    · rw [hops]
      rfl
  simp only [sys_close, hfd, if_neg (Nat.not_lt.mpr hi), hop]
  exact close_file_desc_eq k i hcur

section TableSound

variable {k : Kernel} (hk : TableSound k)
include hk

/-- Only jump tables and flags of the current process count. -/
theorem TableSound.congr {k' : Kernel} (hcur : k'.cur_pcb = k.cur_pcb)
    (hops : ∀ i, (k'.desc k.cur_pcb i).file_ops = (k.desc k.cur_pcb i).file_ops)
    (hflags : ∀ i, (k'.desc k.cur_pcb i).flags = (k.desc k.cur_pcb i).flags) : TableSound k' := by
  refine ⟨?_, ?_, ?_, ?_, ?_⟩
  all_goals rw [hcur]
  · exact hk.current
  · intro i
    rw [hops, hflags]
    exact hk.in_use i
  · rw [hops]
    exact hk.stdin
  · rw [hops]
    exact hk.stdout
  · intro i hi
    rw [hops]
    exact hk.files i hi

theorem TableSound.of_tasks {k' : Kernel} (htasks : k'.toTasks = k.toTasks) : TableSound k' := by
  refine hk.congr ?_ ?_ ?_
  · rw [htasks]
  · intro i
    rw [Kernel.desc, htasks]
    rfl
  · intro i
    rw [Kernel.desc, htasks]
    rfl

/-- Another descriptor in one of the slots 2 to 7. -/
theorem TableSound.setDesc {i : Fin MAX_DESC} {desc : fdesc_t} (hi : 2 ≤ i.val)
    (hdesc : desc.flags = .IN_USE ↔ desc.file_ops ≠ .empty_f_ops_tab)
    (hfile : desc.file_ops ≠ .stdin ∧ desc.file_ops ≠ .stdout) : TableSound (k.setDesc k.cur_pcb i desc) := by
  have hother (j : Fin MAX_DESC) (hj : j ≠ i) : (k.setDesc k.cur_pcb i desc).desc k.cur_pcb j = k.desc k.cur_pcb j :=
    Kernel.desc_setDesc_other _ _ _ _ fun h => hj (Prod.mk.inj h).2
  refine ⟨hk.current, ?_, ?_, ?_, ?_⟩
  all_goals rw [Kernel.setDesc_cur_pcb]
  · intro j
    by_cases hj : j = i
    · subst hj
      rw [Kernel.desc_setDesc_same]
      exact hdesc
    · rw [hother j hj]
      exact hk.in_use j
  · rw [hother 0 (by rintro rfl; exact absurd hi (by decide))]
    exact hk.stdin
  · rw [hother 1 (by rintro rfl; exact absurd hi (by decide))]
    exact hk.stdout
  · intro j hj
    by_cases hji : j = i
    · subst hji
      rw [Kernel.desc_setDesc_same]
      exact hfile
    · rw [hother j hji]
      exact hk.files j hj

/-- In a sound table the two standard files are in use. -/
theorem TableSound.standard (i : Fin MAX_DESC) (hi : i.val < 2) : (k.desc k.cur_pcb i).flags = .IN_USE := by
  rw [hk.in_use]
  obtain rfl | rfl : i = 0 ∨ i = 1 := by
    simp only [Fin.ext_iff]
    change i.val = 0 ∨ i.val = 1
    omega
  · rw [hk.stdin]
    decide
  · rw [hk.stdout]
    decide

/-- A free descriptor is none of the standard ones. -/
theorem TableSound.two_le_of_free {i : Fin MAX_DESC} (hfree : (k.desc k.cur_pcb i).flags = .NOT_USED) : 2 ≤ i.val := by
  by_contra hlt
  rw [hk.standard i (by omega)] at hfree
  cases hfree

/-- Every open slot from 2 on has a `close` function that frees it. -/
theorem TableSound.frees {fd : Int32} {i : Fin MAX_DESC} (hfd : descIndex fd = some i) (hi : 2 ≤ i.val)
    (hopen : (k.desc k.cur_pcb i).flags = .IN_USE) :
    sys_close k fd = (0, k.setDesc k.cur_pcb i (closed (k.desc k.cur_pcb i))) := by
  have hempty := (hk.in_use i).mp hopen
  obtain ⟨hstdin, hstdout⟩ := hk.files i hi
  refine sys_close_file hk.current hfd hi ?_
  cases hops : (k.desc k.cur_pcb i).file_ops with
  | empty_f_ops_tab => exact absurd hops hempty
  | stdin => exact absurd hops hstdin
  | stdout => exact absurd hops hstdout
  | rtc_jt | dir_jt | regf_jt => decide

/-- The jump table of a slot that is not open is the empty one. -/
theorem TableSound.unopened {i : Fin MAX_DESC} (hfree : (k.desc k.cur_pcb i).flags = .NOT_USED) :
    (k.desc k.cur_pcb i).file_ops = .empty_f_ops_tab := by
  by_contra hops
  rw [(hk.in_use i).mpr hops] at hfree
  cases hfree

end TableSound

/-- A descriptor that `sys_read` and the others have to refuse. -/
def Unopened (k : Kernel) (fd : Int32) : Prop :=
  ∀ i, descIndex fd = some i → (k.desc k.cur_pcb i).flags = .NOT_USED

section Refuse

variable {k : Kernel} (hk : TableSound k) {fd : Int32} (hfd : Unopened k fd)
include hk hfd

/-- A read of a descriptor that is not open fails, and changes nothing. -/
theorem sys_read_unopened (fs : Image) (m : Mem) (buf : UInt32) (nbytes : Int32) :
    sys_read fs k fd m buf nbytes = some (-1, m, k) := by
  rw [sys_read]
  cases hindex : descIndex fd with
  | none => rfl
  | some i =>
    have hops := hk.unopened (hfd i hindex)
    simp only [hops, f_ops_table.readOp, ite_self]

/-- So does a write. -/
theorem sys_write_unopened (m : Mem) (buf : UInt32) (nbytes : Int32) : sys_write k fd m buf nbytes = (-1, k) := by
  rw [sys_write]
  cases hindex : descIndex fd with
  | none => rfl
  | some i =>
    have hops := hk.unopened (hfd i hindex)
    simp only [hops, f_ops_table.writeOp, ite_self]

/-- So does closing it, and closing a standard file. -/
theorem sys_close_unopened : sys_close k fd = (-1, k) := by
  rw [sys_close]
  cases hindex : descIndex fd with
  | none => rfl
  | some i =>
    have hops := hk.unopened (hfd i hindex)
    simp only [hops, f_ops_table.closeOp, ite_self]

end Refuse

/-- `sys_open` of an existing file: the least free slot gets a descriptor, or it
    fails because there is none. -/
structure Opens (k : Kernel) (result : Int) (k' : Kernel) : Prop where
  fails : result = -1 ↔ ∀ i : Fin MAX_DESC, 2 ≤ i.val → (k.desc k.cur_pcb i).flags = .IN_USE
  unchanged : result = -1 → k' = k
  takes : result ≠ -1 → ∃ idx : Fin MAX_DESC, result = idx.val ∧ 2 ≤ idx.val ∧
    (k.desc k.cur_pcb idx).flags = .NOT_USED ∧ (∀ j < idx, (k.desc k.cur_pcb j).flags = .IN_USE) ∧
    (k'.desc k.cur_pcb idx).flags = .IN_USE ∧ ∀ j ≠ idx, k'.desc k.cur_pcb j = k.desc k.cur_pcb j

section Open

variable {fs : Image} {k : Kernel} (hk : TableSound k) {m : Mem} {filename : UInt32} {dentry : dentry_t}
  (hdentry : fs.namedDentry m filename = some dentry) (htype : dentry.file_type < 3)
include hk hdentry htype

omit hk in
/-- For a current process `sys_open` is `open_file_desc`. -/
theorem sys_open_eq : sys_open fs k m filename = open_file_desc fs k k.cur_pcb m filename := by
  have htype' : ¬ dentry.file_type ≥ 3 := UInt32.not_le.mpr htype
  simp only [sys_open, hdentry, if_neg htype']

/-- What the new descriptor is. -/
theorem sys_open_free {idx : Fin MAX_DESC} (hfree : (k.desc k.cur_pcb idx).flags = .NOT_USED)
    (hleast : ∀ j < idx, (k.desc k.cur_pcb j).flags ≠ .NOT_USED) :
    ∃ k' desc, sys_open fs k m filename = some ((idx.val : Int), k') ∧
      k'.toTasks = (k.setDesc k.cur_pcb idx desc).toTasks ∧ desc.flags = .IN_USE ∧
      desc.file_ops ≠ .empty_f_ops_tab ∧
      (¬ StandardName m filename → desc.file_ops ≠ .stdin ∧ desc.file_ops ≠ .stdout) := by
  rw [sys_open_eq hdentry htype]
  by_cases hname : StandardName m filename
  · refine ⟨_, _, open_file_desc_standard hk.current hfree hleast hname, rfl, rfl, ?_, fun h => absurd hname h⟩
    simp only
    split <;> decide
  · have hindex : dentry.file_type.toNat < tableaux.length := UInt32.lt_iff_toNat_lt.mp htype
    obtain ⟨k', hopen, htasks⟩ := open_file_desc_file hk.current hfree hleast hname hdentry
      (List.getElem?_eq_getElem hindex)
    have hmem := List.getElem_mem hindex
    refine ⟨k', _, hopen, htasks, rfl, ?_⟩
    simp only
    generalize tableaux[dentry.file_type.toNat] = file_ops at hmem ⊢
    simp only [tableaux, List.mem_cons, List.not_mem_nil, or_false] at hmem
    rcases hmem with rfl | rfl | rfl <;> exact ⟨by decide, fun _ => by decide⟩

/-- A file that exists gets the first free descriptor, if there is one. The descriptors of other
    files are left alone. -/
theorem sys_open_opens : ∃ result k', sys_open fs k m filename = some (result, k') ∧ Opens k result k' := by
  by_cases hfull : ∃ i, (k.desc k.cur_pcb i).flags = .NOT_USED
  · obtain ⟨idx, hfree, hleast⟩ := (Fin.exists_iff_exists_minimal _).mp hfull
    have hidx := hk.two_le_of_free hfree
    obtain ⟨k', desc, hopen, htasks, hflags, -, -⟩ := sys_open_free hk hdentry htype hfree hleast
    have hdesc (j : Fin MAX_DESC) : k'.desc k.cur_pcb j = (k.setDesc k.cur_pcb idx desc).desc k.cur_pcb j := by
      rw [Kernel.desc, htasks]
      rfl
    have hresult : (idx.val : Int) ≠ -1 := by omega
    refine ⟨_, k', hopen, ⟨?_, ?_, ?_⟩⟩
    · refine ⟨fun h => absurd h hresult, fun hall => ?_⟩
      rw [hall idx hidx] at hfree
      cases hfree
    · exact fun h => absurd h hresult
    · intro _
      refine ⟨idx, rfl, hidx, hfree, fun j hj => flags_ne_not_used_iff.mp (hleast j hj), ?_, ?_⟩
      · rw [hdesc, Kernel.desc_setDesc_same]
        exact hflags
      · intro j hj
        rw [hdesc, Kernel.desc_setDesc_other _ _ _ _ fun h => hj (Prod.mk.inj h).2]
  · have hall (i : Fin MAX_DESC) : (k.desc k.cur_pcb i).flags ≠ .NOT_USED := fun h => hfull ⟨i, h⟩
    refine ⟨-1, k, ?_, ⟨?_, ?_, ?_⟩⟩
    · rw [sys_open_eq hdentry htype, open_file_desc_full hall]
    · exact ⟨fun _ i _ => flags_ne_not_used_iff.mp (hall i), fun _ => rfl⟩
    · exact fun _ => rfl
    · exact fun h => absurd rfl h

end Open

/-- `sys_open` of a name that does not begin with those of the standard files. -/
theorem TableSound.opened {fs : Image} {k k' : Kernel} (hk : TableSound k) {m : Mem} {filename : UInt32} {result : Int}
    (hname : (fs.namedDentry m filename).isSome → ¬ StandardName m filename)
    (hopen : sys_open fs k m filename = some (result, k')) : TableSound k' := by
  cases hdentry : fs.namedDentry m filename with
  | none =>
    simp only [sys_open, hdentry] at hopen
    cases hopen
    exact hk
  | some dentry =>
    by_cases htype : dentry.file_type < 3
    · by_cases hfull : ∃ i, (k.desc k.cur_pcb i).flags = .NOT_USED
      · obtain ⟨idx, hfree, hleast⟩ := (Fin.exists_iff_exists_minimal _).mp hfull
        obtain ⟨k₁, desc, hopen', htasks, hflags, hempty, hfile⟩ := sys_open_free hk hdentry htype hfree hleast
        rw [hopen'] at hopen
        cases hopen
        have hset := hk.setDesc (hk.two_le_of_free hfree) ⟨fun _ => hempty, fun _ => hflags⟩
          (hfile (hname (by rw [hdentry]; rfl)))
        exact hset.of_tasks htasks
      · have hall (i : Fin MAX_DESC) : (k.desc k.cur_pcb i).flags ≠ .NOT_USED := fun h => hfull ⟨i, h⟩
        rw [sys_open_eq hdentry htype, open_file_desc_full hall] at hopen
        cases hopen
        exact hk
    · have htype' : dentry.file_type ≥ 3 := UInt32.not_lt.mp htype
      simp only [sys_open, hdentry, if_pos htype'] at hopen
      cases hopen
      exact hk

section Calls

variable {fs : Image} {k : Kernel} (hk : TableSound k)
include hk

/-- Closing leaves the table sound, for any number. -/
theorem TableSound.close (fd : Int32) : TableSound (sys_close k fd).2 := by
  cases hfd : descIndex fd with
  | none =>
    simp only [sys_close, hfd]
    exact hk
  | some i =>
    by_cases hi : 2 ≤ i.val
    · cases hflags : (k.desc k.cur_pcb i).flags with
      | NOT_USED =>
        have hunopened : Unopened k fd := by
          intro j hj
          rw [hfd] at hj
          cases hj
          exact hflags
        rw [sys_close_unopened hk hunopened]
        exact hk
      | IN_USE =>
        rw [hk.frees hfd hi hflags]
        refine hk.setDesc hi ?_ ?_
        · simp [closed]
        · simp [closed]
    · have hi' : i.val < 2 := by omega
      simp only [sys_close, hfd, if_pos hi']
      exact hk

/-- A descriptor at another position. -/
theorem TableSound.seek (i : Fin MAX_DESC) (pos : UInt32) :
    TableSound (k.setDesc k.cur_pcb i { k.desc k.cur_pcb i with file_pos := pos }) := by
  refine hk.congr rfl (fun j => ?_) (fun j => ?_)
  all_goals
    by_cases hj : j = i
    · subst hj
      rw [Kernel.desc_setDesc_same]
    · rw [Kernel.desc_setDesc_other _ _ _ _ fun h => hj (Prod.mk.inj h).2]

/-- Reading a file moves its position only. -/
theorem TableSound.read_file (fs : Image) (i : Fin MAX_DESC) (m : Mem) (buf : UInt32) (nbytes : Int32) :
    TableSound (fsys_read_file fs k i m buf nbytes).2.2 := by
  simp only [fsys_read_file]
  split
  · exact hk
  · split
    · exact hk.seek i _
    · exact hk

/-- So does reading a directory. -/
theorem TableSound.read_dir (fs : Image) (i : Fin MAX_DESC) (m : Mem) (buf : UInt32) :
    TableSound (fsys_read_dir fs k i m buf).2.2 := by
  simp only [fsys_read_dir]
  split
  · exact hk
  · exact hk.seek i _

/-- Every driver's read leaves the table sound. By cases on the jump table. -/
theorem TableSound.readOp {file_ops : f_ops_table}
    {op : Image → Kernel → Fin MAX_DESC → Mem → UInt32 → Int32 → Option (Int × Mem × Kernel)}
    (hop : file_ops.readOp = some op) {i : Fin MAX_DESC} {m m' : Mem} {buf : UInt32} {nbytes : Int32} {value : Int}
    {k' : Kernel} (hread : op fs k i m buf nbytes = some (value, m', k')) : TableSound k' := by
  cases file_ops with
  | empty_f_ops_tab => cases hop
  | stdin =>
    cases hop
    exact hk.of_tasks (terminal.terminal_read_toTasks hread)
  | stdout => cases hop
  | rtc_jt =>
    cases hop
    cases hread
    exact hk.of_tasks rfl
  | dir_jt =>
    cases hop
    have hsound := hk.read_dir fs i m buf
    rw [Option.some.inj hread] at hsound
    exact hsound
  | regf_jt =>
    cases hop
    have hsound := hk.read_file fs i m buf nbytes
    rw [Option.some.inj hread] at hsound
    exact hsound

/-- A read leaves the table sound, for any descriptor. -/
theorem TableSound.read {fd : Int32} {m m' : Mem} {buf : UInt32} {nbytes : Int32} {value : Int} {k' : Kernel}
    (hread : sys_read fs k fd m buf nbytes = some (value, m', k')) : TableSound k' := by
  rw [sys_read] at hread
  cases hfd : descIndex fd with
  | none =>
    rw [hfd] at hread
    cases hread
    exact hk
  | some i =>
    rw [hfd] at hread
    simp only at hread
    split at hread
    · cases hread
      exact hk
    · split at hread
      · cases hread
        exact hk
      · rename_i op hop
        exact hk.readOp hop hread

/-- Every driver's write leaves the table sound. -/
theorem TableSound.writeOp {file_ops : f_ops_table} {op : Kernel → Mem → UInt32 → Int32 → Int × Kernel}
    (hop : file_ops.writeOp = some op) (m : Mem) (buf : UInt32) (nbytes : Int32) :
    TableSound (op k m buf nbytes).2 := by
  cases file_ops with
  | empty_f_ops_tab => cases hop
  | stdin => cases hop
  | stdout =>
    cases hop
    refine hk.of_tasks ?_
    simp only [terminal.terminal_write, sti_toTasks, Kernel.onConsole_toTasks, cli_toTasks]
  | rtc_jt =>
    cases hop
    simp only [rtc.rtc_write]
    split
    · exact hk
    · exact hk.of_tasks rfl
  | dir_jt =>
    cases hop
    exact hk
  | regf_jt =>
    cases hop
    exact hk

/-- A write leaves the table sound, for any descriptor. -/
theorem TableSound.write (fd : Int32) (m : Mem) (buf : UInt32) (nbytes : Int32) :
    TableSound (sys_write k fd m buf nbytes).2 := by
  rw [sys_write]
  cases hfd : descIndex fd with
  | none => exact hk
  | some i =>
    simp only
    split
    · exact hk
    · split
      · exact hk
      · rename_i op hop
        exact hk.writeOp hop m buf nbytes

end Calls

/-- The law of a process's descriptors. -/
structure FdLaw (fs : Image) (k : Kernel) : Prop where
  in_use : ∀ i, (k.desc k.cur_pcb i).flags = .IN_USE ↔ (k.desc k.cur_pcb i).file_ops ≠ .empty_f_ops_tab
  standard : (k.desc k.cur_pcb 0).file_ops = .stdin ∧ (k.desc k.cur_pcb 1).file_ops = .stdout
  opens : ∀ m filename dentry, fs.namedDentry m filename = some dentry → dentry.file_type < 3 →
    ∃ result k', sys_open fs k m filename = some (result, k') ∧ Opens k result k'
  closes : ∀ fd i, descIndex fd = some i → 2 ≤ i.val → (k.desc k.cur_pcb i).flags = .IN_USE →
    ∃ k', sys_close k fd = (0, k') ∧ (k'.desc k.cur_pcb i).flags = .NOT_USED ∧
      (k'.desc k.cur_pcb i).file_ops = .empty_f_ops_tab ∧ ∀ j ≠ i, k'.desc k.cur_pcb j = k.desc k.cur_pcb j
  refuses : ∀ fd, Unopened k fd → ∀ m buf nbytes, sys_read fs k fd m buf nbytes = some (-1, m, k) ∧
    sys_write k fd m buf nbytes = (-1, k) ∧ sys_close k fd = (-1, k)

/-- A sound table obeys the law. -/
theorem TableSound.fdLaw {k : Kernel} (hk : TableSound k) (fs : Image) : FdLaw fs k where
  in_use := hk.in_use
  standard := ⟨hk.stdin, hk.stdout⟩
  opens _ _ _ hdentry htype := sys_open_opens hk hdentry htype
  closes fd i hfd hi hopen := by
    refine ⟨_, hk.frees hfd hi hopen, ?_, ?_, ?_⟩
    · rw [Kernel.desc_setDesc_same]
      rfl
    · rw [Kernel.desc_setDesc_same]
      rfl
    · intro j hj
      rw [Kernel.desc_setDesc_other _ _ _ _ fun h => hj (Prod.mk.inj h).2]
  refuses fd hfd m buf nbytes :=
    ⟨sys_read_unopened hk hfd fs m buf nbytes, sys_write_unopened hk hfd m buf nbytes, sys_close_unopened hk hfd⟩

/-- The calls of a process on its descriptors. With `others` the rest of the system
    runs and comes back to the process. -/
inductive FdCall where
  | sys_open (m : Mem) (filename : UInt32)
  | sys_close (fd : Int32)
  | sys_read (fd : Int32) (m : Mem) (buf : UInt32) (nbytes : Int32)
  | sys_write (fd : Int32) (m : Mem) (buf : UInt32) (nbytes : Int32)
  | others (k : Kernel)

def fdStep (fs : Image) (k : Kernel) : FdCall → Option Kernel
  | .sys_open m filename => (sys_open fs k m filename).map (·.2)
  | .sys_close fd => some (sys_close k fd).2
  | .sys_read fd m buf nbytes => (sys_read fs k fd m buf nbytes).map (·.2.2)
  | .sys_write fd m buf nbytes => some (sys_write k fd m buf nbytes).2
  | .others k' =>
    if k'.cur_pcb = k.cur_pcb ∧ ∀ i, k'.desc k.cur_pcb i = k.desc k.cur_pcb i then some k' else none

/-- No file is opened whose name begins with that of a standard file. -/
def PlainNames (fs : Image) (_k : Kernel) : FdCall → Prop
  | .sys_open m filename => (fs.namedDentry m filename).isSome → ¬ StandardName m filename
  | _ => True

instance (fs : Image) (k : Kernel) (call : FdCall) : Decidable (PlainNames fs k call) := by
  cases call <;> (unfold PlainNames; infer_instance)

/-- One call leaves the table sound. By cases on it; an `open` needs a name that is not a standard
    one. -/
theorem TableSound.step {fs : Image} {k k' : Kernel} (hk : TableSound k) {call : FdCall}
    (hname : PlainNames fs k call) (hstep : fdStep fs k call = some k') : TableSound k' := by
  cases call with
  | sys_open m filename =>
    obtain ⟨⟨result, k₁⟩, hopen, rfl⟩ := Option.map_eq_some_iff.mp hstep
    exact hk.opened hname hopen
  | sys_close fd =>
    cases hstep
    exact hk.close fd
  | sys_read fd m buf nbytes =>
    obtain ⟨⟨value, m', k₁⟩, hread, rfl⟩ := Option.map_eq_some_iff.mp hstep
    exact hk.read hread
  | sys_write fd m buf nbytes =>
    cases hstep
    exact hk.write fd m buf nbytes
  | others k₁ =>
    rw [fdStep] at hstep
    split at hstep
    · rename_i hsame
      cases hstep
      exact hk.congr hsame.1 (fun i => by rw [hsame.2]) (fun i => by rw [hsame.2])
    · cases hstep

/-- A new process has a sound table, if its block held no descriptor in use. -/
theorem standardFiles_sound {k : Kernel} (hcur : k.cur_pcb ≠ NULL) {io_files : Fin MAX_DESC → fdesc_t}
    (hfiles : (k.pcbs k.cur_pcb).io_files = standardFiles io_files) (hunused : ∀ i, (io_files i).flags = .NOT_USED)
    (hempty : ∀ i, (io_files i).file_ops = .empty_f_ops_tab) : TableSound k := by
  have hdesc (i : Fin MAX_DESC) : k.desc k.cur_pcb i = standardFiles io_files i := by rw [Kernel.desc, hfiles]
  have hother (i : Fin MAX_DESC) (h0 : i ≠ 0) (h1 : i ≠ 1) : standardFiles io_files i = io_files i := by
    simp [standardFiles, h0, h1]
  refine ⟨hcur, ?_, ?_, ?_, ?_⟩
  · intro i
    rw [hdesc]
    by_cases h0 : i = 0
    · subst h0
      simp [standardFiles, terminal.standardDesc]
    · by_cases h1 : i = 1
      · subst h1
        simp [standardFiles, terminal.standardDesc]
      · rw [hother i h0 h1, hunused, hempty]
        decide
  · rw [hdesc]
    rfl
  · rw [hdesc]
    rfl
  · intro i hi
    rw [hdesc, hother i (by rintro rfl; exact absurd hi (by decide)) (by rintro rfl; exact absurd hi (by decide)),
      hempty]
    decide

/-- The descriptors of a process that `sys_execute` has just started. -/
theorem sys_execute_sound {fs : Image} {k k' : Kernel} {command : CString} {locals : Locals} {entry : UInt32}
    (hexecute : sys_execute fs k command locals = some (.entered entry, k')) : TableSound k' := by
  obtain ⟨-, ⟨value, hvalue⟩, -⟩ | ⟨-, -, -, n, hn, -, hlaunched⟩ := sys_execute_cases hexecute
  · cases hvalue
  · obtain ⟨io_files, hfiles, hunused, hempty⟩ := hlaunched.files
    have hcur : k'.cur_pcb ≠ NULL := hlaunched.cur_pcb ▸ blockAddr_ne_null hn
    refine standardFiles_sound hcur ?_ hunused hempty
    rw [hlaunched.cur_pcb, hfiles]

/-- An image with two files: the executable `a` and the regular file `stdin`. -/
def stdinFile : Image where
  bytes a :=
    if a = 0 ∨ a = 4 ∨ a = 8 then 2
    else if a = 64 then 0x61
    else if 128 ≤ a ∧ a < 133 then (chars "stdin".toList).getD (a - 128).toNat 0
    else if a = 96 ∨ a = 160 then 2
    else if a = 164 then 1
    else if a = 4096 then 4
    else if 12288 ≤ a ∧ a < 12292 then magic (a - 12288)
    else 0

/-- The kernel before the first process of a terminal is started. -/
def beforeShell : Kernel := { blankMachine with starting_new_shell := true }

/-- A process that has been started by `sys_execute` makes some calls. -/
def processRuns (fs : Image) (k₀ : Kernel) (command : CString) (calls : List FdCall) :
    Option (UInt32 × Kernel × Kernel) :=
  (sys_execute fs k₀ command ⟨fun _ => 0, fun _ => 0⟩).bind fun
    | (.returned _, _) => none
    | (.entered entry, k) => (run (fdStep fs) k calls).map (entry, k, ·)

/-- A process is started and makes its calls from there. -/
theorem processRuns_eq_some {fs : Image} {k₀ k k' : Kernel} {command : CString} {calls : List FdCall} {entry : UInt32}
    (hruns : processRuns fs k₀ command calls = some (entry, k, k')) :
    sys_execute fs k₀ command ⟨fun _ => 0, fun _ => 0⟩ = some (.entered entry, k) ∧
      run (fdStep fs) k calls = some k' := by
  obtain ⟨⟨outcome, k₁⟩, hexecute, hcalls⟩ := Option.bind_eq_some_iff.mp hruns
  cases outcome with
  | returned value => cases hcalls
  | entered entry₁ =>
    obtain ⟨k₂, hrun, heq⟩ := Option.map_eq_some_iff.mp hcalls
    cases heq
    exact ⟨hexecute, hrun⟩

end lacos.syscalls
