import LacOS.User.Files
import LacOS.User.Support

open memory program stream lacos.lib lacos.file_system lacos.pcb lacos.syscalls

namespace lacos.user.grep

abbrev BUFSIZE : Nat := 1024

/-- The loop that looks for the end of a line: the next newline, or the end of what has
    been read. -/
def findEnd (m : Mem) (data : UInt32) : Nat → Nat → Nat
  | 0, line_end => line_end
  | n + 1, line_end =>
    if m (data + UInt32.ofNat line_end) ≠ '\n'.toUInt8 then findEnd m data n (line_end + 1) else line_end

/-- The loop that searches a line, from `check` on. -/
def searchLine (s fname data s_len : UInt32) (line_start : Nat) : Nat → Nat → Prog Task Unit
  | 0, _ => pure ()
  | n + 1, check => do
    let m ← memory
    if m s = m (data + UInt32.ofNat check) ∧ ece391_strncmp m (data + UInt32.ofNat check) s s_len.toNat = 0 then do
      ece391_fdputs 1 m fname
      fdputs_constant 1 [':']
      ece391_fdputs 1 m (data + UInt32.ofNat line_start)
      fdputs_constant 1 ['\n']
    else searchLine s fname data s_len line_start n (check + 1)

/-- The body of the inner loop of `do_one_file`: a line is searched, or the part of one at
    the end of the buffer is moved to its front. The loop ends with the new `last`. -/
def oneLine (s fname data s_len : UInt32) (cnt : Int) (last line_start : Nat) : Prog Task (Nat ⊕ Nat) := do
  let m ← memory
  let line_end := findEnd m data (last - line_start) line_start
  if m (data + UInt32.ofNat line_end) ≠ '\n'.toUInt8 ∧ cnt ≠ 0 ∧ line_start ≠ 0 then do
    assign (data + UInt32.ofNat line_end) 0
    ece391_strcpy data (data + UInt32.ofNat line_start)
    pure (.inr (last - line_start))
  else do
    assign (data + UInt32.ofNat line_end) 0
    searchLine s fname data s_len line_start (line_end - line_start) line_start
    if line_end + 1 ≥ last then pure (.inr 0) else pure (.inl (line_end + 1))

/-- The body of the outer loop of `do_one_file`. The loop ends with whether a read failed. -/
def oneBuffer (fs : Image) (s fname data s_len : UInt32) (fd : Int) (fuel last : Nat) : Prog Task (Nat ⊕ Bool) := do
  let cnt ← ece391_read fs fd (data + UInt32.ofNat last) ((BUFSIZE - last : Nat) : Int)
  if cnt = -1 then do
    fdputs_constant 1 "file read failed\n".toList
    pure (.inr true)
  else do
    let last ← loop (oneLine s fname data s_len cnt (last + cnt.toNat)) fuel 0
    if cnt = 0 then pure (.inr false) else pure (.inl last)

/-- The array `data` of `do_one_file` starts with whatever is found there. -/
def uninitialized (data : UInt32) (found : Task → Nat → UInt8) : Prog Task Unit := fun t =>
  some ((), { t with mem := fillWith t.mem data (found t) (BUFSIZE + 1) })

def do_one_file (fs : Image) (data : UInt32) (found : Task → Nat → UInt8) (s fname : UInt32) (fuel : Nat) :
    Prog Task Int := do
  uninitialized data found
  let s_len := ece391_strlen (← memory) s
  let fd ← ece391_open fs (← memory) fname
  if fd = -1 then do
    fdputs_constant 1 "file open failed\n".toList
    pure (-1)
  else do
    let failed ← loop (oneBuffer fs s fname data s_len fd fuel) fuel 0
    if failed then pure (-1)
    else do
      let value ← ece391_close fd
      if value = -1 then do
        fdputs_constant 1 "file close failed\n".toList
        pure (-1)
      else pure 0

/-- What the loop of `main` does with a directory entry. -/
def searchFile (fs : Image) (buf search data : UInt32) (found : Task → Nat → UInt8) (fuel : Nat) (cnt : Int) :
    Prog Task (Unit ⊕ Int) := do
  let m ← memory
  if '.'.toUInt8 = m buf then pure (.inl ())
  else do
    assign (buf + UInt32.ofInt cnt) 0
    let value ← do_one_file fs data found search buf fuel
    if value ≠ 0 then pure (.inr 3) else pure (.inl ())

/-- `main` of `grep`, with its arrays at `buf` and `search`, and that of `do_one_file` at
    `data`. -/
def main (fs : Image) (buf search data : UInt32) (found : Task → Nat → UInt8) (fuel : Nat) : Prog Task Int :=
  withArgument search "could not read argument\n".toList <|
    withFile fs (constant ['.']) CONSTANT "directory open failed\n".toList fun fd =>
      readLoop fs buf 32 "directory entry read failed\n".toList (searchFile fs buf search data found fuel) fd fuel

/-- What is printed for a line. -/
def report (pattern name line : List UInt8) : List UInt8 :=
  if pattern <:+: line then name ++ (chars [':'] ++ (line ++ chars ['\n'])) else []

/-- What is printed for a file: each line that has the pattern in it, after the name of the
    file. Lines longer than the buffer count as several. -/
def reports (pattern name text : List UInt8) : List UInt8 :=
  (cut BUFSIZE '\n'.toUInt8 text).flatMap (report pattern name)

/-- The bytes of the buffer from an index on. -/
def Holds (m : Mem) (data : UInt32) (offset : Nat) (l : List UInt8) : Prop :=
  ∀ j < l.length, m (data + UInt32.ofNat (offset + j)) = l.getD j 0

section Buffer

variable {m : Mem} {data : UInt32} {offset : Nat} {l l' : List UInt8}

/-- Bytes in the buffer are there part by part. -/
theorem holds_append_iff : Holds m data offset (l ++ l') ↔ Holds m data offset l ∧ Holds m data (offset + l.length) l' := by
  constructor
  · intro hboth
    refine ⟨fun j hj => ?_, fun j hj => ?_⟩
    · rw [hboth j (by rw [List.length_append]; omega), List.getD_append _ _ _ _ hj]
    · rw [Nat.add_assoc, hboth (l.length + j) (by rw [List.length_append]; omega),
        List.getD_append_right _ _ _ _ (Nat.le_add_right _ _), Nat.add_sub_cancel_left]
  · rintro ⟨hl, hl'⟩ j hj
    rw [List.length_append] at hj
    by_cases hfirst : j < l.length
    · rw [hl j hfirst, List.getD_append _ _ _ _ hfirst]
    · have hindex : offset + j = offset + l.length + (j - l.length) := by omega
      rw [hindex, hl' (j - l.length) (by omega), List.getD_append_right _ _ _ _ (by omega)]

/-- A store elsewhere in the buffer leaves them. -/
theorem holds_store (hholds : Holds m data offset l) {i : Nat} (hi : i < offset ∨ offset + l.length ≤ i)
    (hbound : offset + l.length ≤ 2 ^ 32) (hi' : i < 2 ^ 32) (value : UInt8) :
    Holds (store m (data + UInt32.ofNat i) value) data offset l := by
  intro j hj
  rw [store_offset _ _ _ (by omega) hi', if_neg (by omega)]
  exact hholds j hj

/-- Bytes with a zero behind them are a string, which `fdputs` prints. -/
theorem isText_of_holds (hholds : Holds m data offset l) (hend : m (data + UInt32.ofNat (offset + l.length)) = 0) :
    IsText m (data + UInt32.ofNat offset) l := by
  intro j hj
  rw [UInt32.add_assoc, ← UInt32.ofNat_add]
  by_cases hlast : j = l.length
  · rw [hlast, hend, List.getD_eq_default _ _ (Nat.le_refl _)]
  · exact hholds j (by omega)

/-- A line ends at its newline, or where the buffer does. -/
theorem findEnd_eq (hholds : Holds m data offset l) (hl : '\n'.toUInt8 ∉ l) {n : Nat} (hn : l.length ≤ n)
    (hend : n = l.length ∨ m (data + UInt32.ofNat (offset + l.length)) = '\n'.toUInt8) :
    findEnd m data n offset = offset + l.length := by
  induction l generalizing offset n with
  | nil =>
    rcases hend with rfl | hend
    · rfl
    · cases n with
      | zero => rfl
      | succ n => exact if_neg (not_not.mpr hend)
  | cons c l ih =>
    obtain ⟨n, rfl⟩ : ∃ n', n = n' + 1 := ⟨n - 1, by rw [List.length_cons] at hn; omega⟩
    rw [← List.singleton_append, holds_append_iff] at hholds
    have hc : m (data + UInt32.ofNat offset) = c := hholds.1 0 Nat.zero_lt_one
    have hnewline : c ≠ '\n'.toUInt8 := fun h => hl (h ▸ List.mem_cons_self)
    have hindex : offset + (c :: l).length = offset + 1 + l.length := by
      rw [List.length_cons]
      omega
    rw [hindex] at hend ⊢
    rw [List.length_cons] at hn hend
    rw [findEnd, hc, if_pos hnewline]
    exact ih hholds.2 (fun h => hl (List.mem_cons_of_mem _ h)) (by omega) (hend.imp_left (by omega))

end Buffer

section Reports

variable {pattern : List UInt8} (hpattern : pattern ≠ []) (name : List UInt8)
include hpattern

theorem report_nil : report pattern name [] = [] := by
  rw [report, if_neg fun h => hpattern (List.infix_nil.mp h)]

/-- A line that fits the buffer. -/
theorem reports_line {line : List UInt8} (hline : '\n'.toUInt8 ∉ line) (hlength : line.length ≤ BUFSIZE) :
    reports pattern name line = report pattern name line := by
  rw [reports, cut_of_notMem hline, pieces_of_length_le (by decide) hlength]
  split
  · rename_i hempty
    rw [hempty, report_nil hpattern, List.flatMap_nil]
  · rw [List.flatMap_singleton]

theorem reports_nil : reports pattern name [] = [] := by
  rw [reports_line hpattern name List.not_mem_nil (Nat.zero_le _), report_nil hpattern]

omit hpattern in
/-- A line is reported by itself, without what follows it. -/
theorem reports_append_newline (line rest : List UInt8) : reports pattern name (line ++ '\n'.toUInt8 :: rest) =
    reports pattern name line ++ reports pattern name rest := by
  rw [reports, cut_append_sep, List.flatMap_append]
  rfl

omit hpattern in
/-- A full buffer without a newline counts as a line. -/
theorem reports_append_full {line : List UInt8} (hline : '\n'.toUInt8 ∉ line) (hlength : line.length = BUFSIZE)
    (rest : List UInt8) :
    reports pattern name (line ++ rest) = report pattern name line ++ reports pattern name rest := by
  rw [reports, cut_append_full (by decide) hline hlength, List.flatMap_cons]
  rfl

end Reports

/-- Where the arrays of a search lie: the buffer, the pattern and the name of the file. -/
structure Layout (data s fname : UInt32) (pattern name : List UInt8) : Prop where
  data_ne : data ≠ NULL
  data_fits : data.toNat + BUFSIZE + 1 ≤ 2 ^ 32
  pattern_ne : pattern ≠ []
  pattern_nonzero : 0 ∉ pattern
  pattern_apart : ∀ j ≤ pattern.length, BUFSIZE + 1 ≤ (s + UInt32.ofNat j - data).toNat
  name_nonzero : 0 ∉ name
  name_length : name.length < 2 ^ 31
  name_apart : ∀ j ≤ name.length, BUFSIZE + 1 ≤ (fname + UInt32.ofNat j - data).toNat
  fname_ne : fname ≠ NULL

end lacos.user.grep
