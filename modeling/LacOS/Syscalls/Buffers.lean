import LacOS.FileSystem.ReadData.Frame
import LacOS.MultiTerm.Virtual
import LacOS.Syscalls.Directory
import LacOS.Terminal.Read

open memory lacos.lib lacos.file_system lacos.keyboard lacos.terminal trace

namespace lacos.syscalls

/-- A read that keeps to its buffer: it returns no more than the size of the buffer
    and changes no byte behind it. -/
def KeepsTo (buf : UInt32) (nbytes : Nat) (m : Mem) (value : Int) (m' : Mem) : Prop :=
  value ≤ nbytes ∧ ∀ a, nbytes ≤ (a - buf).toNat → m' a = m a

/-- What there is to read fits the buffer: of a terminal, the whole line; of a
    directory, the name of the next entry, 32 bytes if the last of them is not zero,
    with zeros already in the bytes that follow the buffer up to that size. -/
def FitsBuffer (fs : Image) (k : Kernel) (i : Fin MAX_DESC) (m : Mem) (buf : UInt32) (nbytes : Nat) : Prop :=
  let desc := k.desc k.cur_pcb i
  match desc.file_ops with
  | .stdin => (line (k.terminals k.sched_term_id)).length ≤ nbytes
  | .dir_jt =>
    (desc.file_pos < fs.word 0 → (fs.name desc.file_pos).length ≤ nbytes ∧
      (fs.lastByte desc.file_pos ≠ 0 → FILENAME_LEN ≤ nbytes)) ∧
    ∀ j < FILENAME_LEN, nbytes ≤ j → m (buf + UInt32.ofNat j) = 0
  | .regf_jt | .rtc_jt | .stdout | .empty_f_ops_tab => True

section Devices

variable {buf : UInt32} {nbytes : Nat} {m : Mem}

/-- A read that fails or delivers nothing keeps to any buffer, if it leaves memory alone. -/
theorem keepsTo_unchanged {value : Int} (hvalue : value ≤ 0) : KeepsTo buf nbytes m value m :=
  ⟨by omega, fun _ _ => rfl⟩

/-- A text that fits, written with zeros up to a fixed size. -/
theorem keepsTo_text_iff {text : List UInt8} {count size : Nat} (hlength : text.length ≤ count)
    (hsize : size ≤ 2 ^ 32) :
    KeepsTo buf nbytes m count (fillWith m buf (fun j => text.getD j 0) size) ↔
      count ≤ nbytes ∧ ∀ j < size, nbytes ≤ j → m (buf + UInt32.ofNat j) = 0 := by
  rw [KeepsTo, Int.ofNat_le]
  refine and_congr_right fun hcount => ⟨fun hframe j hj hle => ?_, fun hzeros a ha => ?_⟩
  · have hbyte := hframe (buf + UInt32.ofNat j) (by rwa [offset_toNat buf (by omega)])
    rw [fillWith_inside _ _ _ hj hsize, List.getD_eq_default _ _ (by omega)] at hbyte
    exact hbyte.symm
  · by_cases hinside : (a - buf).toNat < size
    · obtain ⟨j, hj, rfl⟩ := (offset_lt_iff a buf size hsize).mp hinside
      rw [offset_toNat buf (by omega)] at ha
      rw [fillWith_inside _ _ _ hj hsize, List.getD_eq_default _ _ (by omega), hzeros j hj ha]
    · exact fillWith_outside _ (Nat.not_lt.mp hinside)

variable (buf m) (fs : Image) (k : Kernel) (i : Fin MAX_DESC)

/-- A directory read keeps to the buffer if the name fits and the zeros that pad it change
    nothing. Its size is not even looked at. -/
theorem fsys_read_dir_keepsTo_iff (nbytes : Nat) :
    KeepsTo buf nbytes m (fsys_read_dir fs k i m buf).1 (fsys_read_dir fs k i m buf).2.1 ↔
      ((k.desc k.cur_pcb i).file_pos < fs.word 0 → (fs.name (k.desc k.cur_pcb i).file_pos).length ≤ nbytes ∧
        (fs.lastByte (k.desc k.cur_pcb i).file_pos ≠ 0 → FILENAME_LEN ≤ nbytes)) ∧
        ∀ j < FILENAME_LEN, nbytes ≤ j → m (buf + UInt32.ofNat j) = 0 := by
  by_cases hpos : (k.desc k.cur_pcb i).file_pos < fs.word 0
  · rw [fsys_read_dir_entry rfl m buf hpos, keepsTo_text_iff (fs.name_length_le_nameCount _) (by decide),
      Image.nameCount_le_iff]
    simp only [hpos, forall_const]
  · rw [fsys_read_dir_end rfl m buf (UInt32.not_lt.mp hpos)]
    have hcleared : KeepsTo buf nbytes m (0 : Nat)
        (fillWith m buf (fun j => ([] : List UInt8).getD j 0) FILENAME_LEN) ↔ _ :=
      keepsTo_text_iff (Nat.le_refl 0) (by decide)
    simpa [hpos] using hcleared

/-- A regular file never delivers more than is asked for, whatever the image. -/
theorem fsys_read_file_keepsTo {nbytes : Int32} (hnbytes : 0 ≤ nbytes) :
    KeepsTo buf nbytes.toNatClampNeg m (fsys_read_file fs k i m buf nbytes).1
      (fsys_read_file fs k i m buf nbytes).2.1 := by
  have hsize : nbytes.toUInt32.toNat = nbytes.toNatClampNeg := Int32.toNat_toUInt32_of_le hnbytes
  have hlt := nbytes.toNatClampNeg_lt
  rw [← hsize]
  have hwithin := read_data_within fs (k.desc k.cur_pcb i).inode (k.desc k.cur_pcb i).file_pos m buf nbytes.toUInt32
    (by omega)
  simp only [fsys_read_file]
  split
  · exact keepsTo_unchanged (Int.le_refl 0)
  · split
    · exact hwithin
    · exact hwithin

/-- A terminal delivers the bytes asked for, but returns the length of the line. -/
theorem terminal_read_keepsTo_iff {nbytes : UInt32} {value : Int} {m' : Mem} {k' : Kernel}
    (hread : terminal_read k m buf nbytes = some (value, m', k')) :
    KeepsTo buf nbytes.toNat m value m' ↔ (line (k.terminals k.sched_term_id)).length ≤ nbytes.toNat := by
  rw [terminal_read_eq k m buf nbytes (terminal_read_ready hread)] at hread
  cases hread
  rw [KeepsTo, Int.ofNat_le]
  exact and_iff_left fun a ha => blit_outside _ _ ha

end Devices

/-- A read keeps to the buffer exactly if what there is to read fits it. Regular files and the RTC
    always do; a terminal returns the length of its line and a directory fills 32 bytes, whatever
    the size given. The descriptor need not be open, and the kernel may be in any state in which
    the call returns. -/
theorem sys_read_keepsTo_iff (fs : Image) (k k' : Kernel) (fd : Int32) (m m' : Mem) (buf : UInt32) (nbytes : Int32)
    (hnbytes : 0 ≤ nbytes) (value : Int) (hread : sys_read fs k fd m buf nbytes = some (value, m', k')) :
    KeepsTo buf nbytes.toNatClampNeg m value m' ↔
      buf = NULL ∨ ∀ i, descIndex fd = some i → FitsBuffer fs k i m buf nbytes.toNatClampNeg := by
  have hfailed (h : some (-1, m, k) = some (value, m', k')) : KeepsTo buf nbytes.toNatClampNeg m value m' := by
    cases h
    exact keepsTo_unchanged (by decide)
  rw [sys_read] at hread
  cases hfd : descIndex fd with
  | none =>
    rw [hfd] at hread
    exact iff_of_true (hfailed hread) (.inr fun i hi => absurd hi (Option.some_ne_none i).symm)
  | some i =>
    simp only [hfd, Int32.not_lt.mpr hnbytes, or_false] at hread
    by_cases hbuf : buf = NULL
    · rw [if_pos hbuf] at hread
      exact iff_of_true (hfailed hread) (.inl hbuf)
    · rw [if_neg hbuf] at hread
      have hone : (∀ j, some i = some j → FitsBuffer fs k j m buf nbytes.toNatClampNeg) ↔
          FitsBuffer fs k i m buf nbytes.toNatClampNeg := by simp
      rw [or_iff_right hbuf, hone, FitsBuffer]
      cases hops : (k.desc k.cur_pcb i).file_ops with
      | empty_f_ops_tab | stdout =>
        rw [hops] at hread
        exact iff_of_true (hfailed hread) trivial
      | stdin =>
        rw [hops] at hread
        have hterminal := terminal_read_keepsTo_iff buf m k hread
        rw [Int32.toNat_toUInt32_of_le hnbytes] at hterminal
        exact hterminal
      | rtc_jt =>
        rw [hops] at hread
        cases hread
        exact iff_of_true (keepsTo_unchanged (Int.le_refl 0)) trivial
      | dir_jt =>
        rw [hops] at hread
        have hdir := fsys_read_dir_keepsTo_iff buf m fs k i nbytes.toNatClampNeg
        rw [Option.some.inj hread] at hdir
        exact hdir
      | regf_jt =>
        rw [hops] at hread
        have hfile := fsys_read_file_keepsTo buf m fs k i hnbytes
        rw [Option.some.inj hread] at hfile
        exact iff_of_true hfile trivial

theorem sys_read_keepsTo_iff_two_entries :
    ∃ k value m' k', sys_open twoEntries freshProcess (literal ['.']) 0 = some (0, k) ∧
      sys_read twoEntries k 0 (fun _ => 0) 100 1 = some (value, m', k') ∧ KeepsTo 100 1 (fun _ => 0) value m' := by
  have hopen : (sys_open twoEntries freshProcess (literal ['.']) 0).any (fun r =>
      decide (r.1 = 0 ∧ (r.2.desc r.2.cur_pcb 0).file_ops = .dir_jt ∧ (r.2.desc r.2.cur_pcb 0).file_pos = 0) &&
        (sys_read twoEntries r.2 0 (fun _ => 0) 100 1).isSome) = true := by
    decide +kernel
  obtain ⟨⟨fd, k⟩, hopened, hk⟩ := (Option.any_eq_true _ _).mp hopen
  obtain ⟨hdesc, hread⟩ := Bool.and_eq_true_iff.mp hk
  obtain ⟨rfl, hdir, hpos⟩ := of_decide_eq_true hdesc
  obtain ⟨⟨value, m', k'⟩, hread⟩ := Option.isSome_iff_exists.mp hread
  refine ⟨k, value, m', k', hopened, hread, ?_⟩
  refine (sys_read_keepsTo_iff twoEntries k k' 0 _ m' 100 1 (by decide) value hread).mpr (.inr fun i hi => ?_)
  obtain rfl : 0 = i := Option.some.inj hi
  rw [FitsBuffer, hdir, hpos]
  exact ⟨fun _ => ⟨by decide +kernel, by decide +kernel⟩, fun _ _ _ => rfl⟩

/-- A process that reads from a terminal, where the line `ab` has been typed. -/
def lineTyped : Kernel :=
  [0x1E, 0x30, ENTER_KEY_P].foldl process_input
    ({ multi_term.fresh with cur_pcb := 0x7FE000 }.setDesc 0x7FE000 0 (standardDesc .stdin))

/-- With four bytes asked for, the second read of this directory returns 32 and fills
    32 bytes of the buffer. With one byte asked for, the terminal returns 3. -/
theorem reads_past_buffer :
    (∃ k m' k', ((sys_open twoEntries freshProcess (literal ['.']) 0).bind fun (_, k) =>
        readStep twoEntries 0 k ⟨fun _ => 0, 100, 32⟩) = some k ∧
      sys_read twoEntries k 0 (fun _ => 0) 100 4 = some (32, m', k') ∧ m' 131 = 97) ∧
    ∃ m' k', sys_read twoEntries lineTyped 0 (fun _ => 0) 100 1 = some (3, m', k') := by
  constructor
  · have hreads : (((sys_open twoEntries freshProcess (literal ['.']) 0).bind fun (_, k) =>
        readStep twoEntries 0 k ⟨fun _ => 0, 100, 32⟩).any fun k =>
          (sys_read twoEntries k 0 (fun _ => 0) 100 4).any fun r => decide (r.1 = 32 ∧ r.2.1 131 = 97)) = true := by
      decide +kernel
    obtain ⟨k, hopened, hread⟩ := (Option.any_eq_true _ _).mp hreads
    obtain ⟨⟨value, m', k'⟩, hread, hvalue⟩ := (Option.any_eq_true _ _).mp hread
    obtain ⟨rfl, hbyte⟩ := of_decide_eq_true hvalue
    exact ⟨k, m', k', hopened, hread, hbyte⟩
  · have hread : (sys_read twoEntries lineTyped 0 (fun _ => 0) 100 1).any (fun r => decide (r.1 = 3)) = true := by
      decide +kernel
    obtain ⟨⟨value, m', k'⟩, hread, hvalue⟩ := (Option.any_eq_true _ _).mp hread
    obtain rfl := of_decide_eq_true hvalue
    exact ⟨m', k', hread⟩

end lacos.syscalls
