import LacOS.Base.Program
import LacOS.Lib.Format
import LacOS.Syscalls.Args
import LacOS.Syscalls.Directory
import LacOS.Syscalls.Open

open memory program lacos.lib lacos.file_system lacos.pcb lacos.syscalls

namespace lacos.user

/-- A running program: its memory, and the kernel that it calls. -/
structure Task where
  kernel : Kernel
  mem : Mem

/-- Where a string constant lies. -/
abbrev CONSTANT : UInt32 := 0x08048000

/-- A memory that holds a string constant of the program. -/
def constant (text : List Char) : Mem := fun a => (chars text).getD (a - CONSTANT).toNat 0

/-- The memory of the program. -/
def memory : Prog Task Mem := fun t => some (t.mem, t)

def ece391_read (fs : Image) (fd : Int) (buf : UInt32) (nbytes : Int) : Prog Task Int := fun t =>
  (sys_read fs t.kernel (Int32.ofInt fd) t.mem buf (Int32.ofInt nbytes)).map fun (value, mem, kernel) =>
    (value, ⟨kernel, mem⟩)

/-- `ece391_write` of bytes that lie in the memory `m`. -/
def ece391_write (fd : Int) (m : Mem) (buf : UInt32) (nbytes : Int) : Prog Task Int := fun t =>
  let (value, kernel) := sys_write t.kernel (Int32.ofInt fd) m buf (Int32.ofInt nbytes)
  some (value, { t with kernel })

/-- `ece391_open` of a name that lies in the memory `m`. -/
def ece391_open (fs : Image) (m : Mem) (filename : UInt32) : Prog Task Int := fun t =>
  (sys_open fs t.kernel m filename).map fun (value, kernel) => (value, { t with kernel })

def ece391_close (fd : Int) : Prog Task Int := fun t =>
  let (value, kernel) := sys_close t.kernel (Int32.ofInt fd)
  some (value, { t with kernel })

def ece391_getargs (buf : UInt32) (nbytes : Int) : Prog Task Int := fun t =>
  let (value, mem) := sys_getargs t.kernel t.mem buf (Int32.ofInt nbytes)
  some (value, { t with mem })

/-- `ece391_strlen` is the loop of `strlen`. -/
def ece391_strlen (m : Mem) (s : UInt32) : UInt32 := strlen m s

def ece391_fdputs (fd : Int) (m : Mem) (s : UInt32) : Prog Task Unit := do
  let _ ← ece391_write fd m s (toInt32 (ece391_strlen m s))

/-- `ece391_fdputs` of a string constant. -/
def fdputs_constant (fd : Int) (text : List Char) : Prog Task Unit := ece391_fdputs fd (constant text) CONSTANT

/-- The start of a program that needs an argument, with the message if there is none. -/
def withArgument (buf : UInt32) (failed : List Char) (rest : Prog Task Int) : Prog Task Int := do
  let got ← ece391_getargs buf 1024
  if got ≠ 0 then do
    fdputs_constant 1 failed
    pure 3
  else rest

/-- The opening of a file, with the message if that fails. -/
def withFile (fs : Image) (m : Mem) (filename : UInt32) (failed : List Char) (rest : Int → Prog Task Int) :
    Prog Task Int := do
  let fd ← ece391_open fs m filename
  if fd = -1 then do
    fdputs_constant 1 failed
    pure 2
  else rest fd

/-- An assignment to a byte of memory. -/
def assign (addr : UInt32) (value : UInt8) : Prog Task Unit := fun t =>
  some ((), { t with mem := store t.mem addr value })

/-- The `n` bytes at an address. -/
def bytesAt (m : Mem) (a : UInt32) (n : Nat) : List UInt8 := (List.range n).map fun i => m (a + UInt32.ofNat i)

/-- The memory with a list of bytes put at an address. -/
def putBytes (m : Mem) (a : UInt32) (l : List UInt8) : Mem := fillWith m a (fun j => l.getD j 0) l.length

/-- The kernel once bytes have been written to the current terminal. -/
def putOut (k : Kernel) (out : List UInt8) : Kernel :=
  sti ((cli k).onConsole fun con => puts con con.sched_term_id out)

/-- What a program has done to the kernel: written to its terminal, and perhaps used
    its descriptors. -/
structure Wrote (k : Kernel) (out : List UInt8) (k' : Kernel) : Prop where
  console : k'.toConsole = puts k.toConsole k.sched_term_id out
  cur_pcb : k'.cur_pcb = k.cur_pcb

/-- Given enough rounds for its loops the program ends with the status, and what it has
    written is `out`. -/
def Ends (program : Nat → Prog Task Int) (t : Task) (status : Int) (out : List UInt8) : Prop :=
  ∃ rounds, ∀ fuel > rounds, wp (program fuel) (fun value t' => value = status ∧ Wrote t.kernel out t'.kernel) t

section Wrote

variable {k k' k'' : Kernel} {out out' : List UInt8}

theorem Wrote.nothing (hconsole : k'.toConsole = k.toConsole) (hcur : k'.cur_pcb = k.cur_pcb) : Wrote k [] k' :=
  ⟨hconsole, hcur⟩

theorem Wrote.append (h : Wrote k out k') (h' : Wrote k' out' k'') : Wrote k (out ++ out') k'' := by
  refine ⟨?_, h'.cur_pcb.trans h.cur_pcb⟩
  rw [h'.console, h.console, puts_append, (prints_puts k.toConsole k.sched_term_id out).sched_term_id]

theorem Wrote.then_nothing (h : Wrote k out k') (h' : Wrote k' [] k'') : Wrote k out k'' := by
  have happend := h.append h'
  rw [List.append_nil] at happend
  exact happend

end Wrote

theorem isText_constant {text : List Char} (hlength : text.length < 2 ^ 32) :
    IsText (constant text) CONSTANT (chars text) := by
  intro j hj
  rw [chars, List.length_map] at hj
  rw [constant, offset_toNat _ (Nat.lt_of_le_of_lt hj hlength)]

theorem bytesAt_of_isText {m : Mem} {s : UInt32} {text : List UInt8} (htext : IsText m s text) :
    bytesAt m s text.length = text := by
  apply List.ext_getElem
  · rw [bytesAt, List.length_map, List.length_range]
  · intro j hj hlength
    simp only [bytesAt, List.getElem_map, List.getElem_range]
    rw [htext j (Nat.le_of_lt hlength), List.getD_eq_getElem _ _ hlength]

theorem bytesAt_putBytes (m : Mem) (a : UInt32) {l : List UInt8} (hlength : l.length ≤ 2 ^ 32) :
    bytesAt (putBytes m a l) a l.length = l := by
  apply List.ext_getElem
  · rw [bytesAt, List.length_map, List.length_range]
  · intro j hj hj'
    simp only [bytesAt, List.getElem_map, List.getElem_range]
    rw [putBytes, fillWith_inside _ _ _ hj' hlength, List.getD_eq_getElem _ _ hj']

theorem toInt_ofInt_natCast {n : Nat} (hn : n < 2 ^ 31) : (Int32.ofInt n).toInt = n :=
  Int32.toInt_ofInt_of_le (by omega) (by omega)

theorem ofInt_natCast {n : Nat} (hn : n < 2 ^ 32) : UInt32.ofInt (n : Int) = UInt32.ofNat n := by
  rw [UInt32.ofInt]
  congr 1
  omega

theorem wp_memory {t : Task} {post : Mem → Task → Prop} (hpost : post t.mem t) : wp memory post t :=
  ⟨t.mem, t, rfl, hpost⟩

section Calls

variable {t : Task} (ht : TableSound t.kernel)
include ht

/-- Writing to `stdout` puts the bytes on the program's terminal. -/
theorem write_eq {m : Mem} {buf : UInt32} (hbuf : buf ≠ NULL) {n : Nat} (hn : n < 2 ^ 31) :
    ece391_write 1 m buf n t = some ((n : Int), { t with kernel := putOut t.kernel (bytesAt m buf n) }) := by
  have hsize := toInt_ofInt_natCast hn
  have hvalid : ¬ (buf = NULL ∨ Int32.ofInt n < 0) := by
    rw [not_or, Int32.not_lt, Int32.le_iff_toInt_le, hsize]
    exact ⟨hbuf, Int.natCast_nonneg n⟩
  have hop : (t.kernel.desc t.kernel.cur_pcb 1).file_ops.writeOp =
      some fun k m buf nbytes => terminal.terminal_write k m buf nbytes.toInt := by
    rw [ht.stdout, f_ops_table.writeOp]
  have hfd : descIndex (Int32.ofInt 1) = some 1 := by decide
  simp only [ece391_write, sys_write, hfd, if_neg hvalid, hop, hsize]
  rfl

/-- `ece391_fdputs` of a text. -/
theorem fdputs_eq {m : Mem} {s : UInt32} (hs : s ≠ NULL) {text : List UInt8} (htext : IsText m s text)
    (hnonzero : 0 ∉ text) (hlength : text.length < 2 ^ 31) :
    ece391_fdputs 1 m s t = some ((), { t with kernel := putOut t.kernel text }) := by
  have hstrlen := htext.strlen_toNat hnonzero
  have hint : toInt32 (ece391_strlen m s) = text.length := by
    rw [ece391_strlen, toInt32_of_lt (by omega), hstrlen]
  have hwrite := write_eq ht hs hlength (m := m)
  rw [bytesAt_of_isText htext] at hwrite
  rw [ece391_fdputs, hint, bind_of_eq hwrite]
  rfl

theorem write_spec {m : Mem} {buf : UInt32} (hbuf : buf ≠ NULL) {n : Nat} (hn : n < 2 ^ 31) :
    wp (ece391_write 1 m buf n) (fun value t' => value = n ∧ t'.mem = t.mem ∧
      t'.kernel.toTasks = t.kernel.toTasks ∧ Wrote t.kernel (bytesAt m buf n) t'.kernel) t :=
  ⟨n, _, write_eq ht hbuf hn, rfl, rfl, rfl, rfl, rfl⟩

theorem fdputs_spec {m : Mem} {s : UInt32} (hs : s ≠ NULL) {text : List UInt8} (htext : IsText m s text)
    (hnonzero : 0 ∉ text) (hlength : text.length < 2 ^ 31) :
    wp (ece391_fdputs 1 m s) (fun _ t' => t'.mem = t.mem ∧ t'.kernel.toTasks = t.kernel.toTasks ∧
      Wrote t.kernel text t'.kernel) t :=
  ⟨(), _, fdputs_eq ht hs htext hnonzero hlength, rfl, rfl, rfl, rfl⟩

theorem fdputs_constant_spec {text : List Char} (hnonzero : 0 ∉ chars text) (hlength : text.length < 2 ^ 31) :
    wp (fdputs_constant 1 text) (fun _ t' => t'.mem = t.mem ∧ t'.kernel.toTasks = t.kernel.toTasks ∧
      Wrote t.kernel (chars text) t'.kernel) t := by
  refine fdputs_spec ht (by decide) (isText_constant (by omega)) hnonzero ?_
  rw [chars, List.length_map]
  exact hlength

/-- A message, and then the end of the program. -/
theorem message_spec {text : List Char} (hnonzero : 0 ∉ chars text) (hlength : text.length < 2 ^ 31)
    {α : Type} (a : α) : wp (do fdputs_constant 1 text; pure a)
      (fun value t' => value = a ∧ Wrote t.kernel (chars text) t'.kernel) t := by
  refine wp_bind (wp_mono (fdputs_constant_spec ht hnonzero hlength) ?_)
  rintro - t' ⟨-, -, hwrote⟩
  exact wp_pure ⟨rfl, hwrote⟩

end Calls

/-- A process that has just been started, with its argument. -/
structure Started (k : Kernel) (arg : List UInt8) : Prop where
  sound : TableSound k
  free : ∀ i : Fin MAX_DESC, 2 ≤ i.val → (k.desc k.cur_pcb i).flags = .NOT_USED
  nonzero : 0 ∉ arg
  length : arg.length < KEY_BUF_SIZE
  getargs : ∀ m buf nbytes, sys_getargs k m buf nbytes =
    if buf ≠ NULL ∧ arg ≠ [] ∧ (arg.length : Int) + 1 ≤ nbytes.toInt then (0, writeString m buf arg) else (-1, m)

theorem started_of_execute {fs : Image} {k₀ k : Kernel} {command : CString} {locals : Locals} {entry : UInt32}
    {word arg : List UInt8} (hline : CommandLine command word arg)
    (hexecute : sys_execute fs k₀ command locals = some (.entered entry, k)) : Started k arg where
  sound := sys_execute_sound hexecute
  free i hi := by
    obtain ⟨-, ⟨value, hvalue⟩, -⟩ | ⟨-, -, -, n, hn, -, hlaunched⟩ := sys_execute_cases hexecute
    · cases hvalue
    · obtain ⟨io_files, hfiles, hunused, -⟩ := hlaunched.files
      have hother : standardFiles io_files i = io_files i := by
        have h0 : i ≠ 0 := by
          rintro rfl
          exact absurd hi (by decide)
        have h1 : i ≠ 1 := by
          rintro rfl
          exact absurd hi (by decide)
        simp [standardFiles, h0, h1]
      rw [Kernel.desc, hlaunched.cur_pcb, hfiles, hother, hunused]
  nonzero := hline.parsed.2 ▸ zero_notMem_commandArg command
  length := hline.arg_length
  getargs m buf nbytes := by
    obtain ⟨-, harg⟩ := hline.parsed
    obtain ⟨blk, htail⟩ := sys_execute_tail hexecute
    have htext : IsText (k.pcbs k.cur_pcb).tail 0 arg := by
      rw [htail, ← harg]
      exact storeCommand_arg blk (harg ▸ hline.arg_length)
    exact sys_getargs_eq htext (harg ▸ zero_notMem_commandArg command) hline.arg_length m buf nbytes

/-- `ece391_getargs` gives the argument, if there is one. -/
theorem getargs_spec {t : Task} {arg : List UInt8} (hstarted : Started t.kernel arg) {buf : UInt32}
    (hbuf : buf ≠ NULL) :
    wp (ece391_getargs buf 1024) (fun value t' => t'.kernel = t.kernel ∧
      if arg = [] then value = -1 else value = 0 ∧ IsText t'.mem buf arg) t := by
  have hlength := hstarted.length
  simp only [KEY_BUF_SIZE] at hlength
  have hsize : (Int32.ofInt 1024).toInt = 1024 := by decide
  have hargs := hstarted.getargs t.mem buf (Int32.ofInt 1024)
  by_cases harg : arg = []
  · rw [if_neg fun h => h.2.1 harg] at hargs
    refine ⟨-1, t, ?_, rfl, ?_⟩
    · rw [ece391_getargs, hargs]
    · rw [if_pos harg]
  · rw [if_pos ⟨hbuf, harg, by omega⟩] at hargs
    refine ⟨0, ⟨t.kernel, writeString t.mem buf arg⟩, ?_, rfl, ?_⟩
    · rw [ece391_getargs, hargs]
    · rw [if_neg harg]
      exact ⟨rfl, isText_writeString _ _ (by omega)⟩

section Argument

variable {t : Task} {buf : UInt32} (hbuf : buf ≠ NULL) {failed : List Char} {rest : Prog Task Int}
include hbuf

theorem withArgument_none (hstarted : Started t.kernel []) (hnonzero : 0 ∉ chars failed)
    (hlength : failed.length < 2 ^ 31) : wp (withArgument buf failed rest)
      (fun value t' => value = 3 ∧ Wrote t.kernel (chars failed) t'.kernel) t := by
  refine wp_bind (wp_mono (getargs_spec hstarted hbuf) ?_)
  rintro value t' ⟨hkernel, rfl⟩
  rw [if_pos (by decide), ← hkernel]
  exact message_spec (hkernel ▸ hstarted.sound) hnonzero hlength 3

theorem withArgument_some {arg : List UInt8} (hstarted : Started t.kernel arg) (harg : arg ≠ [])
    {post : Int → Task → Prop}
    (hrest : ∀ t', t'.kernel = t.kernel → IsText t'.mem buf arg → wp rest post t') :
    wp (withArgument buf failed rest) post t := by
  refine wp_bind (wp_mono (getargs_spec hstarted hbuf) ?_)
  intro value t' h
  rw [if_neg harg] at h
  obtain ⟨hkernel, rfl, htext⟩ := h
  rw [if_neg (by decide)]
  exact hrest t' hkernel htext

end Argument

end lacos.user
