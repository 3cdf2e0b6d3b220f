import LacOS.Pcb.Descriptors
import LacOS.Syscalls.Files
import LacOS.Terminal.Read

open memory lacos.lib lacos.file_system lacos.keyboard lacos.terminal

namespace lacos.syscalls

/-- The bytes a process sees when it looks at its buffer. -/
def buffer (m : Mem) (buf : UInt32) (nbytes : Int32) : List UInt8 :=
  (List.range nbytes.toNatClampNeg).map fun i => m (buf + UInt32.ofNat i)

/-- The descriptor `fd` of the current process is `stdin`, and the scheduled terminal has a
    line with these bytes in its key buffer. -/
structure LineTyped (k : Kernel) (fd : Int32) (bytes : Fin KEY_BUF_SIZE → UInt8) : Prop where
  stdin : ∃ i, descIndex fd = some i ∧ (k.desc k.cur_pcb i).file_ops = .stdin
  new_line : (k.terminals k.sched_term_id).new_line = true
  bytes_eq : (k.terminals k.sched_term_id).key_buf = bytes

/-- What a process gets from the keyboard depends on the key buffer only: two kernels with
    the same key buffer return the same value and leave the same bytes in the process's
    buffer. -/
def ReadsKeyBufOnly (fs : Image) (buf : UInt32) (nbytes : Int32) : Prop :=
  ∀ k₁ k₂ fd bytes m, LineTyped k₁ fd bytes → LineTyped k₂ fd bytes →
    (sys_read fs k₁ fd m buf nbytes).map (fun (value, m', _) => (value, buffer m' buf nbytes)) =
      (sys_read fs k₂ fd m buf nbytes).map (fun (value, m', _) => (value, buffer m' buf nbytes))

/-- Offset 132 from the key buffer, where `key_buf_index` begins. -/
abbrev KEY_BUF_END : Nat := 132

section KeyBuf

variable (con : Console) (t : Fin MAX_TERM_NUM) {i : Nat}

theorem key_buf_add : key_buf t + UInt32.ofNat i = termAddr t + UInt32.ofNat (KEY_BUF + i) := by
  rw [key_buf, UInt32.add_assoc, ← UInt32.ofNat_add]

/-- The three bytes between the key buffer and `key_buf_index` are padding. -/
theorem termMem_key_buf_padded (hi : i < KEY_BUF_END) : con.termMem (key_buf t + UInt32.ofNat i) =
    if h : i < KEY_BUF_SIZE then (con.terminals t).key_buf ⟨i, h⟩ else 0 := by
  rw [key_buf_add, con.termMem_at t (by simp only [KEY_BUF_END, KEY_BUF, TERM_SIZE] at *; omega)]
  split
  · rename_i h
    exact term_t.byte_key_buf _ _ h
  · simp only [KEY_BUF_END, KEY_BUF_SIZE] at *
    grind [term_t.byte]

/-- The first byte behind the key buffer and its padding belongs to `key_buf_index`. -/
theorem termMem_key_buf_index : con.termMem (key_buf t + UInt32.ofNat KEY_BUF_END) =
    wordByte (con.terminals t).key_buf_index 0 := by
  rw [key_buf_add, con.termMem_at t (by decide)]
  exact term_t.byte_key_buf_index _ _ (i := 0) (by decide)

end KeyBuf

section Read

variable {k : Kernel} {fd : Int32} {bytes : Fin KEY_BUF_SIZE → UInt8} (hline : LineTyped k fd bytes)
  {buf : UInt32} {nbytes : Int32}

/-- Equal key buffers hold equal lines. -/
theorem LineTyped.line_eq {k₂ : Kernel} (hline₂ : LineTyped k₂ fd bytes) (hline : LineTyped k fd bytes) :
    line (k.terminals k.sched_term_id) = line (k₂.terminals k₂.sched_term_id) := by
  simp only [line, hline.bytes_eq, hline₂.bytes_eq]

include hline

/-- `sys_read` of the line: its length, and as many bytes as were asked for. -/
theorem LineTyped.sys_read (fs : Image) (m : Mem) (hbuf : buf ≠ NULL) (hnbytes : 0 ≤ nbytes) :
    (sys_read fs k fd m buf nbytes).map (fun (value, m', _) => (value, buffer m' buf nbytes)) =
      some (((line (k.terminals k.sched_term_id)).length : Int),
        (List.range nbytes.toNatClampNeg).map fun i =>
          (takeLine k.toConsole k.sched_term_id).termMem (key_buf k.sched_term_id + UInt32.ofNat i)) := by
  obtain ⟨i, hfd, hops⟩ := hline.stdin
  have hvalid : ¬ (buf = NULL ∨ nbytes < 0) := not_or.mpr ⟨hbuf, Int32.not_lt.mpr hnbytes⟩
  have hsize : nbytes.toUInt32.toNat = nbytes.toNatClampNeg := Int32.toNat_toUInt32_of_le hnbytes
  have hlt := nbytes.toNatClampNeg_lt
  simp only [syscalls.sys_read, hfd, if_neg hvalid, hops, f_ops_table.readOp,
    terminal_read_eq k m buf _ hline.new_line, Option.map_some, hsize, buffer]
  congr 2
  apply List.map_congr_left
  intro j hj
  exact blit_inside _ _ _ _ (List.mem_range.mp hj) (by omega)

/-- A read with a bad buffer or size fails, and the process's buffer is as before. -/
theorem LineTyped.sys_read_invalid (fs : Image) (m : Mem) (hinvalid : buf = NULL ∨ nbytes < 0) :
    (syscalls.sys_read fs k fd m buf nbytes).map (fun (value, m', _) => (value, buffer m' buf nbytes)) =
      some (-1, buffer m buf nbytes) := by
  obtain ⟨i, hfd, -⟩ := hline.stdin
  simp only [syscalls.sys_read, hfd, if_pos hinvalid, Option.map_some]

end Read

/-- Up to 132 bytes come from the key buffer and the padding behind it, which is not used. -/
theorem readsKeyBufOnly_of_le (fs : Image) (buf : UInt32) {nbytes : Int32} (hnbytes : nbytes ≤ 132) :
    ReadsKeyBufOnly fs buf nbytes := by
  intro k₁ k₂ fd bytes m hline₁ hline₂
  by_cases hinvalid : buf = NULL ∨ nbytes < 0
  · rw [hline₁.sys_read_invalid fs m hinvalid, hline₂.sys_read_invalid fs m hinvalid]
  · obtain ⟨hbuf, hpos⟩ := not_or.mp hinvalid
    have hsize : nbytes.toNatClampNeg ≤ KEY_BUF_END := by
      have hle := Int32.le_iff_toInt_le.mp hnbytes
      have htoInt : (132 : Int32).toInt = 132 := by decide
      rw [htoInt] at hle
      simp only [Int32.toNatClampNeg, KEY_BUF_END]
      omega
    rw [hline₁.sys_read fs m hbuf (Int32.not_lt.mp hpos), hline₂.sys_read fs m hbuf (Int32.not_lt.mp hpos),
      hline₂.line_eq hline₁]
    congr 2
    apply List.map_congr_left
    intro i hi
    have hi' : i < KEY_BUF_END := Nat.lt_of_lt_of_le (List.mem_range.mp hi) hsize
    rw [termMem_key_buf_padded _ _ hi', termMem_key_buf_padded _ _ hi']
    simp only [takeLine, Console.setTerm_same, hline₁.bytes_eq, hline₂.bytes_eq]

/-- A process on a terminal where an empty line has been entered. The rest of the terminal is
    that of `term`. -/
def lineEntered (term : term_t) : Kernel :=
  { standardProcess with terminals := fun _ => { term with new_line := true, key_buf := fun _ => 0 } }

/-- The example has a line in its key buffer, whatever its terminal is like otherwise. -/
theorem lineEntered_typed (term : term_t) : LineTyped (lineEntered term) 0 fun _ => 0 :=
  ⟨⟨0, by decide, rfl⟩, rfl, rfl⟩

/-- A read of more than 132 bytes delivers `key_buf_index`. -/
theorem key_buf_index_delivered (fs : Image) {buf : UInt32} (hbuf : buf ≠ NULL) {nbytes : Int32}
    (hnbytes : 132 < nbytes) (term : term_t) (m : Mem) :
    ((sys_read fs (lineEntered term) 0 m buf nbytes).map fun (value, m', _) =>
      (value, buffer m' buf nbytes)).map (·.2[KEY_BUF_END]?) = some (some (wordByte term.key_buf_index 0)) := by
  have hlt := Int32.lt_iff_toInt_lt.mp hnbytes
  have htoInt : (132 : Int32).toInt = 132 := by decide
  rw [htoInt] at hlt
  have hpos : 0 ≤ nbytes := by
    rw [Int32.le_iff_toInt_le, Int32.toInt_zero]
    omega
  have hsize : KEY_BUF_END < nbytes.toNatClampNeg := by
    simp only [Int32.toNatClampNeg, KEY_BUF_END]
    omega
  rw [(lineEntered_typed term).sys_read fs m hbuf hpos, Option.map_some, List.getElem?_map,
    List.getElem?_range hsize, Option.map_some, termMem_key_buf_index, takeLine, Console.setTerm_same]
  rfl

end lacos.syscalls
