import LacOS.Base.Run
import LacOS.FileSystem.Directory
import LacOS.Pcb.Descriptors
import LacOS.Syscalls.Chunks

open memory lacos.lib lacos.file_system lacos.pcb trace

namespace lacos.syscalls

/-- A `sys_read` of a descriptor, for what it does to the kernel. -/
def readStep (fs : Image) (fd : Int32) (k : Kernel) (call : ReadCall) : Option Kernel :=
  (sys_read fs k fd call.m call.buf call.nbytes).map (·.2.2)

/-- A directory is open at descriptor `i`, and `n` reads have been made from it. -/
structure OpenDir (fs : Image) (k : Kernel) (i : Fin MAX_DESC) (n : Nat) : Prop where
  directory : (k.desc k.cur_pcb i).file_ops = .dir_jt
  pos : (k.desc k.cur_pcb i).file_pos = UInt32.ofNat (min n fs.numEntries)

section OpenDir

variable {fs : Image} {k : Kernel} {i : Fin MAX_DESC} {n : Nat} {fd : Int32}

/-- A valid read of an open directory is one of its driver, whatever the size of the buffer. -/
theorem sys_read_directory (hdir : (k.desc k.cur_pcb i).file_ops = .dir_jt) (hfd : descIndex fd = some i)
    {call : ReadCall} (hcall : call.Valid) :
    sys_read fs k fd call.m call.buf call.nbytes = some (fsys_read_dir fs k i call.m call.buf) := by
  have hvalid : ¬ (call.buf = NULL ∨ call.nbytes < 0) := by
    rw [not_or, Int32.not_lt]
    exact hcall
  have hop : (k.desc k.cur_pcb i).file_ops.readOp = some fun fs k fd m buf _ =>
      some (fsys_read_dir fs k fd m buf) := by
    rw [hdir, f_ops_table.readOp]
  simp only [sys_read, hfd, if_neg hvalid, hop]

/-- One `sys_read` of a directory. -/
theorem OpenDir.sys_read (hopen : OpenDir fs k i n) (hfd : descIndex fd = some i) {call : ReadCall}
    (hcall : call.Valid) :
    ∃ k', syscalls.sys_read fs k fd call.m call.buf call.nbytes =
        some (((fs.listing n).1 : Int),
          fillWith call.m call.buf (fun j => (fs.listing n).2.getD j 0) FILENAME_LEN, k') ∧
      OpenDir fs k' i (n + 1) := by
  have hlt : fs.numEntries < 2 ^ 32 := (fs.word 0).toNat_lt
  have hpos : (k.desc k.cur_pcb i).file_pos.toNat = min n fs.numEntries := by
    rw [hopen.pos, UInt32.toNat_ofNat_of_lt' (Nat.lt_of_le_of_lt (Nat.min_le_right _ _) hlt)]
  rw [sys_read_directory hopen.directory hfd hcall, Image.listing]
  by_cases hentry : n < fs.numEntries
  · have hn : (k.desc k.cur_pcb i).file_pos = UInt32.ofNat n := by
      rw [hopen.pos, Nat.min_eq_left (Nat.le_of_lt hentry)]
    have hbefore : (k.desc k.cur_pcb i).file_pos < fs.word 0 := by
      rw [UInt32.lt_iff_toNat_lt, hpos]
      exact Nat.lt_of_le_of_lt (Nat.min_le_left _ _) hentry
    rw [fsys_read_dir_entry rfl _ _ hbefore, if_pos hentry, hn]
    refine ⟨_, rfl, ?_, ?_⟩
    · rw [Kernel.setDesc_cur_pcb, Kernel.desc_setDesc_same]
      exact hopen.directory
    · rw [Kernel.setDesc_cur_pcb, Kernel.desc_setDesc_same, Nat.min_eq_left hentry, Nat.succ_eq_add_one,
        UInt32.ofNat_add]
      rfl
  · have hend : fs.word 0 ≤ (k.desc k.cur_pcb i).file_pos := by
      rw [UInt32.le_iff_toNat_le, hpos, Nat.min_eq_right (Nat.not_lt.mp hentry)]
      exact Nat.le_refl _
    rw [fsys_read_dir_end rfl _ _ hend, if_neg hentry]
    refine ⟨k, rfl, hopen.directory, ?_⟩
    rw [hopen.pos, Nat.min_eq_right (Nat.not_lt.mp hentry), Nat.min_eq_right (by omega)]

/-- A sequence of `sys_read` calls on a directory. -/
theorem OpenDir.run (hopen : OpenDir fs k i n) (hfd : descIndex fd = some i) {calls : List ReadCall}
    (hcalls : ∀ call ∈ calls, call.Valid) :
    ∃ k', trace.run (readStep fs fd) k calls = some k' ∧ OpenDir fs k' i (n + calls.length) := by
  induction calls generalizing k n with
  | nil => exact ⟨k, rfl, hopen⟩
  | cons call calls ih =>
    obtain ⟨k₁, hread, hopen₁⟩ := hopen.sys_read hfd (hcalls call List.mem_cons_self)
    obtain ⟨k₂, hrun, hopen₂⟩ := ih hopen₁ fun c hc => hcalls c (List.mem_cons_of_mem _ hc)
    refine ⟨k₂, ?_, ?_⟩
    · rw [trace.run, readStep, hread]
      exact hrun
    · rw [List.length_cons, Nat.add_comm calls.length, ← Nat.add_assoc]
      exact hopen₂

/-- A directory that `sys_open` has just opened. -/
theorem openDir_of_sys_open {k₀ : Kernel} {m : Mem} {filename : UInt32}
    (hopened : sys_open fs k₀ m filename = some ((i.val : Int), k)) (hdir : (k.desc k.cur_pcb i).file_ops = .dir_jt) :
    OpenDir fs k i 0 := by
  have hvalid : (-1 : Int) ≠ (i.val : Int) := by omega
  refine ⟨hdir, ?_⟩
  rw [sys_open] at hopened
  split at hopened
  · exact absurd (Prod.mk.inj (Option.some.inj hopened)).1 hvalid
  · split at hopened
    · exact absurd (Prod.mk.inj (Option.some.inj hopened)).1 hvalid
    · obtain ⟨hpos, hcur⟩ := open_file_desc_fresh hopened
      rw [hcur, hpos, Nat.zero_min]
      rfl

end OpenDir

/-- Listing a directory and looking names up in it agree. Read after read, a freshly opened
    directory gives the names of its entries in order, each with zeros up to 32 bytes, and 0 from
    then on; the number returned is the length of the name unless a shorter name has a last byte
    that is not zero. Every name so listed leads to the first entry that bears it. Entries may
    share a name, have none, or fill all 32 bytes with it. -/
theorem directory_listing (fs : Image) (k₀ k : Kernel) (m₀ : Mem) (filename : UInt32) (i : Fin MAX_DESC)
    (hopened : sys_open fs k₀ m₀ filename = some ((i.val : Int), k)) (hdir : (k.desc k.cur_pcb i).file_ops = .dir_jt)
    (fd : Int32) (hfd : descIndex fd = some i) (calls : List ReadCall) (hcalls : ∀ call ∈ calls, call.Valid)
    (call : ReadCall) (hcall : call.Valid) :
    ∃ k' value name k'', run (readStep fs fd) k calls = some k' ∧
      sys_read fs k' fd call.m call.buf call.nbytes =
        some (value, fillWith call.m call.buf (fun j => name.getD j 0) FILENAME_LEN, k'') ∧
      (fs.numEntries ≤ calls.length → value = 0 ∧ name = []) ∧
      (calls.length < fs.numEntries →
        name = fs.name (UInt32.ofNat calls.length) ∧
        value = (if fs.lastByte (UInt32.ofNat calls.length) = 0 ∨ name.length = FILENAME_LEN then name.length
          else FILENAME_LEN : Nat) ∧
        ∀ m fname, IsText m fname name →
          ∃ first ≤ calls.length, fs.name (UInt32.ofNat first) = name ∧
            (∀ j < first, fs.name (UInt32.ofNat j) ≠ name) ∧
            fs.namedDentry m fname = some (fs.dentry (UInt32.ofNat first))) := by
  obtain ⟨k', hrun, hopen⟩ := (openDir_of_sys_open hopened hdir).run hfd hcalls
  rw [Nat.zero_add] at hopen
  obtain ⟨k'', hread, -⟩ := hopen.sys_read hfd hcall
  refine ⟨k', _, _, k'', hrun, hread, fun hend => ?_, fun hentry => ?_⟩
  · rw [Image.listing, if_neg (Nat.not_lt.mpr hend)]
    exact ⟨rfl, rfl⟩
  · rw [Image.listing, if_pos hentry]
    refine ⟨rfl, ?_, fun m fname hname => namedDentry_first hentry hname⟩
    rw [Int.natCast_inj]
    exact fs.nameCount_eq _

/-- An image with a directory of two entries, itself and a file with the longest name
    there can be. -/
def twoEntries : Image where
  bytes a :=
    if a = 0 then 2 else if a = 64 then 46 else if a = 96 then 1 else if 128 ≤ a ∧ a < 160 then 97
    else if a = 160 then 2 else 0

/-- A process with a free descriptor. -/
def freshProcess : Kernel := { blankMachine with cur_pcb := 0x7FE000 }

theorem directory_listing_two_entries :
    let call : ReadCall := ⟨fun _ => 7, 100, 32⟩
    ∃ k k' k'', sys_open twoEntries freshProcess (literal ['.']) 0 = some (0, k) ∧
      run (readStep twoEntries 0) k [call] = some k' ∧
      sys_read twoEntries k' 0 call.m call.buf call.nbytes =
        some (32, fillWith call.m call.buf (fun j => (List.replicate 32 97).getD j 0) 32, k'') := by
  intro call
  have hopen : (sys_open twoEntries freshProcess (literal ['.']) 0).any (fun r =>
      decide (r.1 = 0 ∧ (r.2.desc r.2.cur_pcb 0).file_ops = .dir_jt)) = true := by decide +kernel
  obtain ⟨⟨value, k⟩, hopened, hk⟩ := (Option.any_eq_true _ _).mp hopen
  obtain ⟨rfl, hdir⟩ := of_decide_eq_true hk
  have hcall : call.Valid := by
    rw [ReadCall.Valid]
    decide
  obtain ⟨k', value, name, k'', hrun, hread, -, hentry⟩ := directory_listing twoEntries freshProcess k
    (literal ['.']) 0 0 hopened hdir 0 (by decide) [call] (List.forall_mem_singleton.mpr hcall) call hcall
  obtain ⟨hname, hvalue, -⟩ := hentry (by decide +kernel)
  have hlongest : name = List.replicate 32 97 := hname.trans (by decide +kernel)
  have hcount : value = 32 := by
    rw [hvalue, hlongest, if_pos (.inr rfl)]
    rfl
  rw [hlongest, hcount] at hread
  exact ⟨k, k', k'', hopened, hrun, hread⟩

/-- An entry with a name of one character and another byte at its end. -/
def unpaddedEntry : Image where
  bytes a := if a = 0 then 1 else if a = 64 then 46 else if a = 95 then 1 else if a = 96 then 1 else 0

/-- The first read of this directory returns 32 for a name of length 1. -/
theorem directory_listing_unpadded :
    unpaddedEntry.numEntries = 1 ∧ unpaddedEntry.name 0 = [46] ∧
    ∃ k m' k', sys_open unpaddedEntry freshProcess (literal ['.']) 0 = some (0, k) ∧
      (k.desc k.cur_pcb 0).file_ops = .dir_jt ∧
      sys_read unpaddedEntry k 0 (fun _ => 7) 100 32 = some (32, m', k') := by
  refine ⟨by decide +kernel, by decide +kernel, ?_⟩
  have hopen : (sys_open unpaddedEntry freshProcess (literal ['.']) 0).any (fun r =>
      decide (r.1 = 0 ∧ (r.2.desc r.2.cur_pcb 0).file_ops = .dir_jt) &&
        (sys_read unpaddedEntry r.2 0 (fun _ => 7) 100 32).any (fun r' => decide (r'.1 = 32))) = true := by
    decide +kernel
  obtain ⟨⟨fd, k⟩, hopened, hk⟩ := (Option.any_eq_true _ _).mp hopen
  obtain ⟨hdir, hread⟩ := Bool.and_eq_true_iff.mp hk
  obtain ⟨rfl, hdir⟩ := of_decide_eq_true hdir
  obtain ⟨⟨value, m', k'⟩, hread, hvalue⟩ := (Option.any_eq_true _ _).mp hread
  obtain rfl := of_decide_eq_true hvalue
  exact ⟨k, m', k', hopened, hdir, hread⟩

end lacos.syscalls
