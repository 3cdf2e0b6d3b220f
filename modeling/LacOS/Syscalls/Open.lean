import LacOS.FileSystem.NameLookup
import LacOS.Syscalls.FdTable

open memory lacos.lib lacos.file_system lacos.pcb lacos.terminal

namespace lacos.syscalls

/-- Slot `idx` is the one for directory entry `i`, opened at its start, and it can be
    closed again. -/
structure Bound (fs : Image) (k : Kernel) (idx : Fin MAX_DESC) (i : Nat) : Prop where
  file_pos : (k.desc k.cur_pcb idx).file_pos = 0
  inode : (k.desc k.cur_pcb idx).inode = (fs.dentry (UInt32.ofNat i)).inode_num
  file_ops : tableaux[(fs.dentry (UInt32.ofNat i)).file_type.toNat]? = some (k.desc k.cur_pcb idx).file_ops
  closes : ∃ k', sys_close k (Int32.ofNat idx) = (0, k') ∧ (k'.desc k.cur_pcb idx).flags = .NOT_USED

/-- A successful `sys_open` gives the slot of the first entry with that name. -/
def OpensFirst (fs : Image) (k : Kernel) (m : Mem) (filename : UInt32) (name : List UInt8) : Prop :=
  ∀ fd k', sys_open fs k m filename = some (fd, k') → 0 ≤ fd →
    ∃ (idx : Fin MAX_DESC) (i : Nat), fd = idx.val ∧ fs.First name i ∧ Bound fs k' idx i

/-- All that `sys_open` needs: a file of a known type with that name, and a free slot. -/
structure CanOpen (fs : Image) (k : Kernel) (name : List UInt8) : Prop where
  current : k.cur_pcb ≠ NULL
  file : ∃ i, fs.First name i ∧ (fs.dentry (UInt32.ofNat i)).file_type < 3
  free : ∃ idx, (k.desc k.cur_pcb idx).flags = .NOT_USED

theorem descIndex_ofNat (idx : Fin MAX_DESC) : descIndex (Int32.ofNat idx) = some idx := by
  revert idx
  decide

section Open

variable {fs : Image} {k : Kernel} {m : Mem} {filename : UInt32} {name : List UInt8}
  (htext : IsText m filename name) (hname : 0 ∉ name)
include htext hname

/-- A successful `sys_open` has found what it needs. -/
theorem canOpen_of_sys_open {fd : Int} {k' : Kernel} (hopen : sys_open fs k m filename = some (fd, k'))
    (hfd : 0 ≤ fd) : CanOpen fs k name := by
  have hfail (h : some (-1, k) = some (fd, k')) : False := by
    obtain ⟨rfl, -⟩ := Prod.mk.inj (Option.some.inj h)
    exact absurd hfd (by decide)
  obtain ⟨i, hfirst, -, hread⟩ | ⟨-, -, hread⟩ := read_dentry_by_name_cases fs htext hname (fun _ => 0) 0
  · by_cases htype : (fs.dentry (UInt32.ofNat i)).file_type < 3
    · rw [sys_open_eq hread htype] at hopen
      refine ⟨fun hnull => ?_, ⟨i, hfirst, htype⟩, ?_⟩
      · rw [open_file_desc, if_pos hnull] at hopen
        exact hfail hopen
      · by_contra hfull
        rw [open_file_desc_full (not_exists.mp hfull)] at hopen
        exact hfail hopen
    · simp only [sys_open, hread, if_pos (UInt32.not_lt.mp htype)] at hopen
      exact (hfail hopen).elim
  · simp only [sys_open, hread] at hopen
    exact (hfail hopen).elim

variable {idx : Fin MAX_DESC} (hcur : k.cur_pcb ≠ NULL) (hfree : (k.desc k.cur_pcb idx).flags = .NOT_USED)
  (hleast : ∀ j < idx, (k.desc k.cur_pcb j).flags ≠ .NOT_USED) {i : Nat} (hfirst : fs.First name i)
  (htype : (fs.dentry (UInt32.ofNat i)).file_type < 3)
include hcur hfree hleast hfirst htype

/-- A file whose name begins with that of a standard one gets the wrong jump table. -/
theorem sys_open_standard (hstandard : StandardName m filename) : ¬ OpensFirst fs k m filename name := by
  intro hopens
  have hopen := sys_open_eq (k := k) (namedDentry_of_first htext hname hfirst) htype
  rw [open_file_desc_standard hcur hfree hleast hstandard] at hopen
  obtain ⟨idx', i', hidx, -, hbound⟩ := hopens _ _ hopen (Int.natCast_nonneg _)
  obtain rfl : idx = idx' := Fin.ext (Int.ofNat.inj hidx)
  have hmem := List.mem_of_getElem? hbound.file_ops
  rw [Kernel.setDesc_cur_pcb, Kernel.desc_setDesc_same] at hmem
  simp only at hmem
  split at hmem
  · exact absurd hmem (by decide)
  · exact absurd hmem (by decide)

/-- Any other file gets its own, and can be closed unless it has one of the first two
    slots. -/
theorem sys_open_plain (hplain : ¬ StandardName m filename) :
    OpensFirst fs k m filename name ↔ 2 ≤ idx.val := by
  have hread := namedDentry_of_first htext hname hfirst
  have hindex : (fs.dentry (UInt32.ofNat i)).file_type.toNat < tableaux.length := UInt32.lt_iff_toNat_lt.mp htype
  have hops := List.getElem?_eq_getElem hindex
  obtain ⟨k', hopen, htasks⟩ := open_file_desc_file hcur hfree hleast hplain hread hops
  have hcur' : k'.cur_pcb = k.cur_pcb := by
    rw [htasks]
    rfl
  have hdesc : k'.desc k'.cur_pcb idx =
      { file_ops := tableaux[(fs.dentry (UInt32.ofNat i)).file_type.toNat]
        inode := (fs.dentry (UInt32.ofNat i)).inode_num, file_pos := 0, flags := .IN_USE } := by
    rw [hcur', Kernel.desc, htasks]
    exact Kernel.desc_setDesc_same ..
  rw [← sys_open_eq hread htype] at hopen
  constructor
  · intro hopens
    obtain ⟨idx', i', hidx, -, hbound⟩ := hopens _ _ hopen (Int.natCast_nonneg _)
    obtain rfl : idx = idx' := Fin.ext (Int.ofNat.inj hidx)
    obtain ⟨k'', hclose, -⟩ := hbound.closes
    by_contra hlow
    simp only [sys_close, descIndex_ofNat, if_pos (Nat.not_le.mp hlow)] at hclose
    exact absurd (Prod.mk.inj hclose).1 (by decide)
  · intro hidx fd k'' hopen' _
    rw [hopen] at hopen'
    obtain ⟨rfl, rfl⟩ := Prod.mk.inj (Option.some.inj hopen')
    refine ⟨idx, i, rfl, hfirst, ⟨?_, ?_, ?_, ?_⟩⟩
    · rw [hdesc]
    · rw [hdesc]
    · rw [hdesc]
      exact hops
    · have hmem : (k'.desc k'.cur_pcb idx).file_ops ∈ tableaux := by
        rw [hdesc]
        exact List.getElem_mem hindex
      refine ⟨_, sys_close_file (hcur' ▸ hcur) (descIndex_ofNat idx) hidx hmem, ?_⟩
      rw [Kernel.desc_setDesc_same]
      rfl

end Open

/-- `sys_open` gives the slot of the first entry with the name, and one that can be closed,
    exactly where the name does not begin with `stdin` or `stdout` and the process has its first
    two slots in use. The name may have any length, and other entries may bear it too. -/
theorem sys_open_first_iff (fs : Image) (k : Kernel) (m : Mem) (filename : UInt32) (name : List UInt8)
    (htext : IsText m filename name) (hname : 0 ∉ name) :
    OpensFirst fs k m filename name ↔ (CanOpen fs k name → ¬ StandardName m filename ∧
      ∀ idx : Fin MAX_DESC, idx.val < 2 → (k.desc k.cur_pcb idx).flags = .IN_USE) := by
  constructor
  · intro hopens hcan
    obtain ⟨i, hfirst, htype⟩ := hcan.file
    obtain ⟨idx, hfree, hleast⟩ := (Fin.exists_iff_exists_minimal _).mp hcan.free
    have hplain : ¬ StandardName m filename := fun hstandard =>
      sys_open_standard htext hname hcan.current hfree hleast hfirst htype hstandard hopens
    refine ⟨hplain, fun j hj => ?_⟩
    have hidx := (sys_open_plain htext hname hcan.current hfree hleast hfirst htype hplain).mp hopens
    have hlt : j < idx := Fin.lt_def.mpr (Nat.lt_of_lt_of_le hj hidx)
    exact flags_ne_not_used_iff.mp (hleast j hlt)
  · intro hcond fd k' hopen hfd
    have hcan := canOpen_of_sys_open htext hname hopen hfd
    obtain ⟨hplain, hused⟩ := hcond hcan
    obtain ⟨i, hfirst, htype⟩ := hcan.file
    obtain ⟨idx, hfree, hleast⟩ := (Fin.exists_iff_exists_minimal _).mp hcan.free
    have hidx : 2 ≤ idx.val := by
      by_contra hlow
      rw [hused idx (Nat.not_le.mp hlow)] at hfree
      cases hfree
    exact (sys_open_plain htext hname hcan.current hfree hleast hfirst htype hplain).mpr hidx fd k' hopen hfd

theorem sys_open_first_iff_plain_name :
    (sys_open stdinFile standardProcess (literal ['a']) 0).any (fun (fd, _) => fd = 2) ∧
      OpensFirst stdinFile standardProcess (literal ['a']) 0 [97] := by
  have htext : IsText (literal ['a']) 0 [97] := by
    rw [IsText]
    decide
  refine ⟨by decide +kernel, ?_⟩
  rw [sys_open_first_iff _ _ _ _ _ htext (by decide)]
  exact fun _ => ⟨by decide, by decide +kernel⟩

/-- A directory has an entry called `stdin`, but opening it gives the keyboard, in a slot
    that cannot be closed. -/
theorem stdin_file_opens_keyboard :
    (sys_open stdinFile standardProcess (literal ['s', 't', 'd', 'i', 'n']) 0).any (fun (fd, k) =>
      fd = 2 ∧ (k.desc k.cur_pcb 2).file_ops = .stdin ∧ (sys_close k 2).1 = -1) ∧
    ¬ OpensFirst stdinFile standardProcess (literal ['s', 't', 'd', 'i', 'n']) 0
      (chars ['s', 't', 'd', 'i', 'n']) := by
  have hopen : (sys_open stdinFile standardProcess (literal ['s', 't', 'd', 'i', 'n']) 0).any (fun (fd, k) =>
      fd = 2 ∧ (k.desc k.cur_pcb 2).file_ops = .stdin ∧ (sys_close k 2).1 = -1) = true := by decide +kernel
  refine ⟨hopen, fun hopens => ?_⟩
  obtain ⟨⟨fd, k⟩, hsome, hresult⟩ := (Option.any_eq_true _ _).mp hopen
  obtain ⟨rfl, hops, -⟩ := of_decide_eq_true hresult
  obtain ⟨idx, i, hidx, -, hbound⟩ := hopens _ _ hsome (by decide)
  obtain rfl : 2 = idx := Fin.ext (Int.ofNat.inj hidx)
  have hmem := List.mem_of_getElem? hbound.file_ops
  rw [hops] at hmem
  exact absurd hmem (by decide)

end lacos.syscalls
