import Mathlib.Logic.Function.Iterate
import LacOS.Lib.Frame
import LacOS.Lib.Itoa

open memory

namespace lacos.lib

/-- Where `printf` reads its format next: at the head of its loop, or at the label
    `format_char_switch` inside a conversion. -/
inductive Point where
  | loop
  | format_char_switch (alternate : Bool)
  | returned
  deriving DecidableEq, Repr

/-- The variables of `printf`. `buf` counts from `format` and `esp` from the first
    argument. The arrays `conv_buf` of the conversions hold whatever the stack held. -/
structure Printf where
  con : Console
  buf : Nat
  esp : Nat
  conv_buf : Mem
  point : Point

/-- The string at an address. -/
def cString (m : Mem) (s : UInt32) : List UInt8 := nstring m (2 ^ 32) s

/-- `while(i < 8)`. -/
def padLoop : Nat → UInt32 → Mem → Mem
  | 0, _, m => m
  | fuel + 1, i, m => if toInt32 i < 8 then padLoop fuel (i + 1) (store m i 0x30) else m

/-- `%x`: the buffer it fills and the index from which it is printed. -/
def convX (alternate : Bool) (value : UInt32) (conv_buf : Mem) : Mem × UInt32 :=
  if alternate then
    let conv_buf := itoa_buf conv_buf value 8 16
    let starting_index := strlen conv_buf 8
    (padLoop 8 starting_index conv_buf, starting_index)
  else (itoa_buf conv_buf value 0 16, 0)

/-- `%u`. -/
def convU (value : UInt32) (conv_buf : Mem) : Mem × UInt32 := (itoa_buf conv_buf value 0 10, 0)

/-- `%d`. The negation is that of the machine. -/
def convD (value : UInt32) (conv_buf : Mem) : Mem × UInt32 :=
  if toInt32 value < 0 then (itoa_buf (store conv_buf 0 0x2D) (-value) 1 10, 0)
  else (itoa_buf conv_buf value 0 10, 0)

/-- The end of a number's conversion. -/
def Printf.putNumber (st : Printf) (conv : Mem × UInt32) : Printf :=
  { st with
    con := puts st.con st.con.sched_term_id (cString conv.1 conv.2)
    conv_buf := conv.1
    esp := st.esp + 1 }

/-- The switch on a conversion's character, other than `#`. -/
def printf_convert (m : Mem) (args : Nat → UInt32) (alternate : Bool) (c : UInt8) (st : Printf) : Printf :=
  if c = 0x25 then { st with con := putc st.con st.con.sched_term_id 0x25 }
  else if c = 0x78 then st.putNumber (convX alternate (args st.esp) st.conv_buf)
  else if c = 0x75 then st.putNumber (convU (args st.esp) st.conv_buf)
  else if c = 0x64 then st.putNumber (convD (args st.esp) st.conv_buf)
  else if c = 0x63 then
    { st with con := putc st.con st.con.sched_term_id (args st.esp).toUInt8, esp := st.esp + 1 }
  else if c = 0x73 then
    { st with con := puts st.con st.con.sched_term_id (cString m (args st.esp)), esp := st.esp + 1 }
  else st

/-- `printf` between two reads of its format. -/
def printf_step (m : Mem) (format : UInt32) (args : Nat → UInt32) (st : Printf) : Printf :=
  let c := m (format + UInt32.ofNat st.buf)
  match st.point with
  | .loop =>
    if c = 0 then { st with point := .returned }
    else if c = 0x25 then { st with buf := st.buf + 1, point := .format_char_switch false }
    else { st with con := putc st.con st.con.sched_term_id c, buf := st.buf + 1 }
  | .format_char_switch alternate =>
    if c = 0x23 then { st with buf := st.buf + 1, point := .format_char_switch true }
    else
      -- The character is not compared with zero here.
      let st := printf_convert m args alternate c st
      { st with buf := st.buf + 1, point := .loop }
  | .returned => st

/-- `printf` called on a console, with any contents of the stack. -/
def printf_entry (con : Console) (conv_buf : Mem) : Printf := ⟨con, 0, 0, conv_buf, .loop⟩

/-- `printf` after `k` steps. -/
def printf (m : Mem) (format : UInt32) (args : Nat → UInt32) (con : Console) (conv_buf : Mem) (k : Nat) : Printf :=
  (printf_step m format args)^[k] (printf_entry con conv_buf)

section Numbers

variable (value : UInt32) (conv_buf : Mem)

/-- The eight digits of `%#x`. -/
def padded : List UInt8 := List.replicate (8 - (itoa value 16).length) 0x30 ++ itoa value 16

/-- The text of `%d`. -/
def signed : List UInt8 := if toInt32 value < 0 then 0x2D :: itoa (-value) 10 else itoa value 10

/-- The string at the address of a text is the text. -/
theorem cString_of_isText {m : Mem} {s : UInt32} {text : List UInt8} (htext : IsText m s text) (hnonzero : 0 ∉ text) :
    cString m s = text :=
  nstring_of_isText htext (Nat.le_of_lt (htext.length_lt hnonzero)) hnonzero

/-- The string that `itoa` leaves in its buffer, for every radix. -/
theorem cString_itoa_buf {radix : UInt32} (hradix : 1 < radix.toNat) (hmax : radix.toNat ≤ 36) (buf : UInt32) :
    cString (itoa_buf conv_buf value buf radix) buf = itoa value radix := by
  have hlength := itoa_length_le hradix value
  rw [itoa_buf_eq hradix hmax]
  exact cString_of_isText (isText_fillWith _ _ (by omega)) (zero_notMem_itoa hradix hmax value)

/-- The conversion of `%u` leaves its numeral in the buffer. -/
theorem cString_convU : cString (convU value conv_buf).1 (convU value conv_buf).2 = itoa value 10 :=
  cString_itoa_buf value conv_buf (by decide) (by decide) 0

/-- The conversion of `%d` leaves the numeral with its sign in the buffer. -/
theorem cString_convD : cString (convD value conv_buf).1 (convD value conv_buf).2 = signed value := by
  rw [convD, signed]
  split
  · have hlength := @itoa_length_le 10 (by decide) (-value)
    have hnonzero := @zero_notMem_itoa 10 (by decide) (by decide) (-value)
    have hfill := fillWith_cons conv_buf 0 (fun i => (0x2D :: itoa (-value) 10).getD i 0)
      ((itoa (-value) 10).length + 1) (by omega)
    have hbuf : itoa_buf (store conv_buf 0 0x2D) (-value) 1 10 =
        fillWith conv_buf 0 (fun i => (0x2D :: itoa (-value) 10).getD i 0) ((itoa (-value) 10).length + 1 + 1) := by
      rw [itoa_buf_eq (by decide) (by decide), hfill]
      rfl
    rw [hbuf]
    refine cString_of_isText (isText_fillWith conv_buf 0 ?_) ?_
    · rw [List.length_cons]
      omega
    · rw [List.mem_cons, not_or]
      exact ⟨by decide, hnonzero⟩
  · exact cString_itoa_buf value conv_buf (by decide) (by decide) 0

/-- The loop that pads a hexadecimal number fills the buffer with the character for zero, from the
    end of the number to eight places. -/
theorem padLoop_eq {fuel j : Nat} (hj : j ≤ 8) (hfuel : 8 ≤ j + fuel) (m : Mem) :
    padLoop fuel (UInt32.ofNat j) m = fillWith m (UInt32.ofNat j) (fun _ => 0x30) (8 - j) := by
  induction fuel generalizing j m with
  | zero =>
    obtain rfl : j = 8 := by omega
    rw [padLoop, Nat.sub_self, fillWith_zero]
  | succ fuel ih =>
    rw [padLoop, toInt32_ofNat (by omega)]
    by_cases hlt : j < 8
    · have hnext : UInt32.ofNat j + 1 = UInt32.ofNat (j + 1) := (UInt32.ofNat_add j 1).symm
      have hcount : 8 - j = 8 - (j + 1) + 1 := by omega
      rw [if_pos (by omega), hcount, fillWith_cons _ _ _ _ (by omega), hnext]
      exact ih (by omega) (by omega) _
    · obtain rfl : j = 8 := by omega
      rw [if_neg (by omega), Nat.sub_self, fillWith_zero]

/-- A word has eight hexadecimal digits at most, so that the padding never runs over. -/
theorem itoa_hex_length : (itoa value 16).length ≤ 8 := by
  rw [itoa_eq_digits (by decide), List.length_map]
  exact numeral.length_digits_le (by decide) (by decide) value.toNat_lt

/-- Zeros written from the index that is the length of the digits end where the
    digits begin, whatever their number. -/
theorem isText_zeros {m : Mem} {text : List UInt8} (htext : IsText m 8 text) (hlength : text.length ≤ 8) :
    IsText (fillWith m (UInt32.ofNat text.length) (fun _ => 0x30) (8 - text.length)) (UInt32.ofNat text.length)
      (List.replicate (8 - text.length) 0x30 ++ text) := by
  intro j hj
  rw [List.length_append, List.length_replicate] at hj
  by_cases hzero : j < 8 - text.length
  · rw [fillWith_inside _ _ _ hzero (by omega), List.getD_append _ _ _ _ (by simpa using hzero),
      List.getD_replicate _ hzero]
  · have haddr : UInt32.ofNat text.length + UInt32.ofNat j = 8 + UInt32.ofNat (j - (8 - text.length)) := by
      have height : (8 : UInt32) = UInt32.ofNat 8 := rfl
      have hsum : text.length + j = 8 + (j - (8 - text.length)) := by omega
      rw [height, ← UInt32.ofNat_add, ← UInt32.ofNat_add, hsum]
    have houtside : 8 - text.length ≤ (UInt32.ofNat text.length + UInt32.ofNat j - UInt32.ofNat text.length).toNat := by
      rw [offset_toNat _ (by omega)]
      omega
    rw [fillWith_outside _ houtside, haddr, htext _ (by omega),
      List.getD_append_right _ _ _ _ (by simpa using hzero), List.length_replicate]

/-- With the flag of the alternate form the number is put behind the first eight places and zeros
    before it, so that the string begins eight characters before its end. -/
theorem convX_alternate : convX true value conv_buf =
    (fillWith (itoa_buf conv_buf value 8 16) (UInt32.ofNat (itoa value 16).length) (fun _ => 0x30)
      (8 - (itoa value 16).length), UInt32.ofNat (itoa value 16).length) := by
  have hlength := itoa_hex_length value
  have hstart : strlen (itoa_buf conv_buf value 8 16) 8 = UInt32.ofNat (itoa value 16).length := by
    rw [itoa_buf_eq (by decide) (by decide)]
    exact strlen_eq (isString_of_isText (isText_fillWith _ _ (by omega))
      (zero_notMem_itoa (by decide) (by decide) value) (by omega))
  rw [← padLoop_eq hlength (Nat.le_add_left 8 _), ← hstart]
  rfl

/-- The conversion of `%x` leaves the number in the buffer, padded or not as the flag says. -/
theorem cString_convX (alternate : Bool) :
    cString (convX alternate value conv_buf).1 (convX alternate value conv_buf).2 =
      if alternate then padded value else itoa value 16 := by
  cases alternate with
  | false => exact cString_itoa_buf value conv_buf (by decide) (by decide) 0
  | true =>
    have hlength := itoa_hex_length value
    have hdigits : IsText (itoa_buf conv_buf value 8 16) 8 (itoa value 16) := by
      rw [itoa_buf_eq (by decide) (by decide)]
      exact isText_fillWith _ _ (by omega)
    rw [convX_alternate, if_pos rfl]
    refine cString_of_isText (isText_zeros hdigits hlength) ?_
    rw [padded, List.mem_append, not_or]
    refine ⟨fun hzero => ?_, zero_notMem_itoa (by decide) (by decide) value⟩
    exact absurd (List.eq_of_mem_replicate hzero) (by decide)

end Numbers

/-- The text that a conversion prints. -/
def conversion (m : Mem) (alternate : Bool) (c : UInt8) (arg : UInt32) : List UInt8 :=
  if c = 0x25 then [0x25]
  else if c = 0x78 then if alternate then padded arg else itoa arg 16
  else if c = 0x75 then itoa arg 10
  else if c = 0x64 then signed arg
  else if c = 0x63 then [arg.toUInt8]
  else if c = 0x73 then cString m arg
  else []

/-- The arguments that a conversion takes. -/
def taken (c : UInt8) : Nat := if c = 0x78 ∨ c = 0x75 ∨ c = 0x64 ∨ c = 0x63 ∨ c = 0x73 then 1 else 0

/-- A number is printed as the string its conversion has left. -/
theorem Printf.putNumber_eq (st : Printf) {conv : Mem × UInt32} {text : List UInt8}
    (htext : cString conv.1 conv.2 = text) :
    st.putNumber conv =
      { st with
        con := puts st.con st.con.sched_term_id text
        esp := st.esp + 1
        conv_buf := conv.1 } := by
  rw [Printf.putNumber, htext]

/-- A conversion prints one text and takes at most one argument. -/
theorem printf_convert_eq (m : Mem) (args : Nat → UInt32) (alternate : Bool) (c : UInt8) (st : Printf) :
    ∃ conv_buf, printf_convert m args alternate c st =
      { st with
        con := puts st.con st.con.sched_term_id (conversion m alternate c (args st.esp))
        esp := st.esp + taken c
        conv_buf := conv_buf } := by
  -- The cases in the order of the source; only numbers go through `conv_buf`.
  by_cases hpercent : c = 0x25
  · exact ⟨st.conv_buf, by subst hpercent; rfl⟩
  by_cases hx : c = 0x78
  · subst hx
    exact ⟨_, st.putNumber_eq (cString_convX (args st.esp) st.conv_buf alternate)⟩
  by_cases hu : c = 0x75
  · subst hu
    exact ⟨_, st.putNumber_eq (cString_convU (args st.esp) st.conv_buf)⟩
  by_cases hd : c = 0x64
  · subst hd
    exact ⟨_, st.putNumber_eq (cString_convD (args st.esp) st.conv_buf)⟩
  by_cases hchar : c = 0x63
  · exact ⟨st.conv_buf, by subst hchar; rfl⟩
  by_cases hs : c = 0x73
  · exact ⟨st.conv_buf, by subst hs; rfl⟩
  · refine ⟨st.conv_buf, ?_⟩
    simp only [printf_convert, conversion, taken, hpercent, hx, hu, hd, hchar, hs, if_false, or_self]
    rfl

/-- Where `printf` goes on behind a character of its format. -/
def nextPoint : Point → UInt8 → Point
  | .loop, c => if c = 0x25 then .format_char_switch false else .loop
  | .format_char_switch _, c => if c = 0x23 then .format_char_switch true else .loop
  | .returned, _ => .returned

/-- The text printed at a character of the format. -/
def printed (m : Mem) (args : Nat → UInt32) (c : UInt8) (esp : Nat) : Point → List UInt8
  | .loop => if c = 0x25 then [] else [c]
  | .format_char_switch alternate => if c = 0x23 then [] else conversion m alternate c (args esp)
  | .returned => []

/-- The argument that is next behind a character of the format. -/
def nextEsp (c : UInt8) (esp : Nat) : Point → Nat
  | .format_char_switch _ => esp + taken c
  | _ => esp

/-- Printing two strings is printing them one behind the other. -/
theorem puts_append (con : Console) (t : Fin MAX_TERM_NUM) (s s' : List UInt8) :
    puts con t (s ++ s') = puts (puts con t s) t s' :=
  List.foldl_append

/-- What a format stands for. -/
def rendered (m : Mem) (args : Nat → UInt32) : Point → Nat → List UInt8 → List UInt8
  | _, _, [] => []
  | point, esp, c :: rest =>
    printed m args c esp point ++ rendered m args (nextPoint point c) (nextEsp c esp point) rest

section Steps

variable {m : Mem} {format : UInt32} {args : Nat → UInt32} {st : Printf}

/-- One step reads one character, prints what it calls for and moves on. Only the end of the
    string and the return stop it. -/
theorem printf_step_char {c : UInt8} (hread : m (format + UInt32.ofNat st.buf) = c) (hc : c ≠ 0)
    (hpoint : st.point ≠ .returned) :
    ∃ conv_buf, printf_step m format args st =
      { con := puts st.con st.con.sched_term_id (printed m args c st.esp st.point)
        buf := st.buf + 1
        esp := nextEsp c st.esp st.point
        conv_buf := conv_buf
        point := nextPoint st.point c } := by
  simp only [printf_step, hread]
  cases hst : st.point with
  | loop =>
    refine ⟨st.conv_buf, ?_⟩
    by_cases hpercent : c = 0x25
    · subst hpercent
      rfl
    · simp only [hc, hpercent, if_false, printed, nextPoint, nextEsp, ← hst]
      rfl
  | format_char_switch alternate =>
    by_cases hsharp : c = 0x23
    · subst hsharp
      exact ⟨st.conv_buf, rfl⟩
    · obtain ⟨conv_buf, hconvert⟩ := printf_convert_eq m args alternate c st
      refine ⟨conv_buf, ?_⟩
      simp only [hsharp, if_false, hconvert, printed, nextPoint, nextEsp]
  | returned => exact absurd hst hpoint

/-- Reading a character of the format does not make `printf` return, only the terminator does. -/
theorem nextPoint_ne_returned {point : Point} (c : UInt8) (hpoint : point ≠ .returned) :
    nextPoint point c ≠ .returned := by
  cases point with
  | loop =>
    rw [nextPoint]
    split <;> simp
  | format_char_switch alternate =>
    rw [nextPoint]
    split <;> simp
  | returned => exact absurd rfl hpoint

theorem foldl_nextPoint_ne_returned {point : Point} (text : List UInt8) (hpoint : point ≠ .returned) :
    text.foldl nextPoint point ≠ .returned := by
  induction text generalizing point with
  | nil => exact hpoint
  | cons c rest ih => exact ih (nextPoint_ne_returned c hpoint)

/-- A stretch of the format without a zero: one step for each character. -/
theorem printf_steps {text : List UInt8}
    (hread : ∀ j < text.length, m (format + UInt32.ofNat (st.buf + j)) = text.getD j 0) (hnonzero : 0 ∉ text)
    (hpoint : st.point ≠ .returned) :
    ∃ conv_buf esp, (printf_step m format args)^[text.length] st =
      { con := puts st.con st.con.sched_term_id (rendered m args st.point st.esp text)
        buf := st.buf + text.length
        esp := esp
        conv_buf := conv_buf
        point := text.foldl nextPoint st.point } := by
  induction text generalizing st with
  | nil => exact ⟨st.conv_buf, st.esp, rfl⟩
  | cons c rest ih =>
    have hfirst : m (format + UInt32.ofNat st.buf) = c := hread 0 (Nat.succ_pos _)
    have hc : c ≠ 0 := fun hzero => hnonzero (hzero ▸ List.mem_cons_self)
    obtain ⟨conv_buf, hstep⟩ := @printf_step_char m format args st c hfirst hc hpoint
    have hrest : ∀ j < rest.length, m (format + UInt32.ofNat (st.buf + 1 + j)) = rest.getD j 0 := by
      intro j hj
      have hnext := hread (j + 1) (Nat.succ_lt_succ hj)
      rwa [← Nat.add_assoc, Nat.add_right_comm] at hnext
    have hsched := (prints_puts st.con st.con.sched_term_id (printed m args c st.esp st.point)).sched_term_id
    rw [List.length_cons, Function.iterate_succ_apply, hstep]
    obtain ⟨conv_buf', esp', hsteps⟩ := @ih
      ⟨puts st.con st.con.sched_term_id (printed m args c st.esp st.point), st.buf + 1, nextEsp c st.esp st.point,
        conv_buf, nextPoint st.point c⟩
      hrest (fun hmem => hnonzero (List.mem_cons_of_mem c hmem)) (nextPoint_ne_returned c hpoint)
    refine ⟨conv_buf', esp', hsteps.trans ?_⟩
    simp only [hsched, rendered, puts_append, List.foldl_cons, Nat.add_right_comm _ 1, Nat.add_assoc]

/-- A step moves the format pointer on by one character at most. -/
theorem printf_step_buf_le (st : Printf) : (printf_step m format args st).buf ≤ st.buf + 1 := by
  simp only [printf_step]
  cases st.point with
  | loop =>
    simp only
    split
    · exact Nat.le_succ _
    · split
      · exact Nat.le_refl _
      · exact Nat.le_refl _
  | format_char_switch alternate =>
    obtain ⟨conv_buf, hconvert⟩ := printf_convert_eq m args alternate (m (format + UInt32.ofNat st.buf)) st
    simp only [hconvert]
    split
    · exact Nat.le_refl _
    · exact Nat.le_refl _
  | returned => exact Nat.le_succ _

/-- After the return nothing happens any more. -/
theorem printf_step_returned (hpoint : st.point = .returned) : printf_step m format args st = st := by
  simp only [printf_step, hpoint]

/-- At the terminator. -/
theorem printf_step_zero_loop (hread : m (format + UInt32.ofNat st.buf) = 0) (hpoint : st.point = .loop) :
    printf_step m format args st = { st with point := .returned } := by
  simp only [printf_step, hread, hpoint, if_true]

/-- The terminator inside a conversion is passed over like any character that stands
    for no conversion. -/
theorem printf_step_zero_switch {alternate : Bool} (hread : m (format + UInt32.ofNat st.buf) = 0)
    (hpoint : st.point = .format_char_switch alternate) :
    printf_step m format args st = { st with buf := st.buf + 1, point := .loop } := by
  simp only [printf_step, hread, hpoint]
  rfl

end Steps

/-- A format that ends inside a conversion: after a `%` and any number of `#`. -/
def Unfinished (text : List UInt8) : Prop := text.foldl nextPoint .loop ≠ .loop

/-- `printf` reads nothing behind the first `n` characters of its format and their
    terminator, and returns `n`. -/
structure StopsAtEnd (m : Mem) (format : UInt32) (args : Nat → UInt32) (con : Console) (conv_buf : Mem) (n : Nat) :
    Prop where
  reads : ∀ k, (printf m format args con conv_buf k).point ≠ .returned → (printf m format args con conv_buf k).buf ≤ n
  returns : ∃ k, (printf m format args con conv_buf k).point = .returned ∧ (printf m format args con conv_buf k).buf = n

instance : DecidablePred Unfinished := fun text => inferInstanceAs (Decidable (text.foldl nextPoint .loop ≠ .loop))

theorem printf_succ (m : Mem) (format : UInt32) (args : Nat → UInt32) (con : Console) (conv_buf : Mem) (k : Nat) :
    printf m format args con conv_buf (k + 1) = printf_step m format args (printf m format args con conv_buf k) :=
  Function.iterate_succ_apply' _ _ _

/-- In `k` steps `printf` has come through `k` characters at most. -/
theorem printf_buf_le (m : Mem) (format : UInt32) (args : Nat → UInt32) (con : Console) (conv_buf : Mem) (k : Nat) :
    (printf m format args con conv_buf k).buf ≤ k := by
  induction k with
  | zero => exact Nat.le_refl 0
  | succ k ih =>
    rw [printf_succ]
    exact Nat.le_trans (printf_step_buf_le _) (Nat.succ_le_succ ih)

/-- `printf` does nothing more once it has returned. -/
theorem printf_stays {m : Mem} {format : UInt32} {args : Nat → UInt32} {con : Console} {conv_buf : Mem} {k : Nat}
    (hreturned : (printf m format args con conv_buf k).point = .returned) {l : Nat} (hl : k ≤ l) :
    printf m format args con conv_buf l = printf m format args con conv_buf k := by
  obtain ⟨d, rfl⟩ := Nat.exists_eq_add_of_le hl
  rw [printf, Nat.add_comm, Function.iterate_add_apply]
  exact Function.iterate_fixed (printf_step_returned hreturned) d

section Format

variable {m : Mem} {format : UInt32} {text : List UInt8} (htext : IsText m format text) (hnonzero : 0 ∉ text)
  (args : Nat → UInt32) (con : Console) (conv_buf : Mem)
include htext hnonzero

/-- `printf` comes to the terminator of its format with everything before it printed. -/
theorem printf_at_end : ∃ conv_buf' esp, printf m format args con conv_buf text.length =
    { con := puts con con.sched_term_id (rendered m args .loop 0 text)
      buf := text.length
      esp := esp
      conv_buf := conv_buf'
      point := text.foldl nextPoint .loop } := by
  obtain ⟨conv_buf', esp, hsteps⟩ := @printf_steps m format args (printf_entry con conv_buf) text
    (fun j hj => by
      have hstart : (printf_entry con conv_buf).buf = 0 := rfl
      rw [hstart, Nat.zero_add]
      exact htext j (Nat.le_of_lt hj))
    hnonzero Point.noConfusion
  exact ⟨conv_buf', esp, hsteps.trans (by simp only [printf_entry, Nat.zero_add])⟩

/-- A finished format is printed as what it stands for, and its length is returned. -/
theorem printf_returns (hfinished : ¬ Unfinished text) :
    ∃ conv_buf' esp, printf m format args con conv_buf (text.length + 1) =
      { con := puts con con.sched_term_id (rendered m args .loop 0 text)
        buf := text.length
        esp := esp
        conv_buf := conv_buf'
        point := .returned } := by
  obtain ⟨conv_buf', esp, hend⟩ := printf_at_end htext hnonzero args con conv_buf
  have hterminator := htext.terminator
  have hloop : text.foldl nextPoint .loop = .loop := not_not.mp hfinished
  refine ⟨conv_buf', esp, ?_⟩
  rw [printf_succ, hend]
  exact printf_step_zero_loop hterminator hloop

/-- `printf` stops at the end of every format but those that end inside a conversion. There it
    takes the terminator for the conversion's character and goes on behind it. The arguments, the
    console and what the stack holds do not matter, and conversions that `printf` does not know
    may occur. -/
theorem printf_stops_iff : StopsAtEnd m format args con conv_buf text.length ↔ ¬ Unfinished text := by
  constructor
  · intro hstops hunfinished
    obtain ⟨conv_buf', esp, hend⟩ := printf_at_end htext hnonzero args con conv_buf
    have hterminator := htext.terminator
    have hnext : (printf m format args con conv_buf (text.length + 1)).point = .loop ∧
        (printf m format args con conv_buf (text.length + 1)).buf = text.length + 1 := by
      rw [printf_succ, hend]
      cases hpoint : text.foldl nextPoint .loop with
      | loop => exact absurd hpoint hunfinished
      | format_char_switch alternate =>
        have hpassed := @printf_step_zero_switch m format args
          ⟨puts con con.sched_term_id (rendered m args .loop 0 text), text.length, esp, conv_buf',
            .format_char_switch alternate⟩ alternate hterminator rfl
        rw [hpassed]
        exact ⟨rfl, rfl⟩
      | returned => exact absurd hpoint (foldl_nextPoint_ne_returned text Point.noConfusion)
    have hread := hstops.reads (text.length + 1) (by rw [hnext.1]; exact Point.noConfusion)
    omega
  · intro hfinished
    obtain ⟨conv_buf', esp, hend⟩ := printf_returns htext hnonzero args con conv_buf hfinished
    have hreturned : (printf m format args con conv_buf (text.length + 1)).point = .returned := by rw [hend]
    refine ⟨fun k hrunning => ?_, text.length + 1, hreturned, by rw [hend]⟩
    -- No step passes more than one character, so that it is enough to count the steps.
    have hk : k ≤ text.length := by
      by_contra hlate
      rw [printf_stays hreturned (by omega)] at hrunning
      exact hrunning hreturned
    exact Nat.le_trans (printf_buf_le _ _ _ _ _ _) hk

end Format

/-- A string literal of the source is a text in memory. -/
theorem isText_literal {s : List Char} (hlength : s.length < 2 ^ 32) : IsText (literal s) 0 (chars s) := by
  intro j hj
  rw [chars, List.length_map] at hj
  rw [literal, UInt32.zero_add, UInt32.toNat_ofNat_of_lt' (Nat.lt_of_le_of_lt hj hlength)]

/-- A conversion and a percent sign. -/
theorem printf_stops_percents : IsText (literal "%d%%".toList) 0 (chars "%d%%".toList) ∧
    StopsAtEnd (literal "%d%%".toList) 0 (fun _ => 7) blankMachine.toConsole (fun _ => 0) 4 := by
  have htext : IsText (literal "%d%%".toList) 0 (chars "%d%%".toList) := isText_literal (by decide)
  exact ⟨htext, (printf_stops_iff htext (by decide) (fun _ => 7) blankMachine.toConsole fun _ => 0).mpr (by decide)⟩

/-- With a format of one `%`, `printf` reads the byte behind the terminator. -/
theorem percent_reads_on : IsText (literal ['%', '\x00', 'A']) 0 (chars ['%']) ∧ 0 ∉ chars ['%'] ∧
    ∃ st, printf (literal ['%', '\x00', 'A']) 0 (fun _ => 0) blankMachine.toConsole (fun _ => 0) 2 = st ∧
      st.point = .loop ∧ st.buf = 2 ∧
      ¬ StopsAtEnd (literal ['%', '\x00', 'A']) 0 (fun _ => 0) blankMachine.toConsole (fun _ => 0) 1 := by
  have htext : IsText (literal ['%', '\x00', 'A']) 0 (chars ['%']) := by
    intro j hj
    have hall : ∀ j ≤ 1, literal ['%', '\x00', 'A'] (0 + UInt32.ofNat j) = (chars ['%']).getD j 0 := by decide
    exact hall j hj
  have hpoint : (printf (literal ['%', '\x00', 'A']) 0 (fun _ => 0) blankMachine.toConsole (fun _ => 0) 2).point =
    .loop := by decide +kernel
  have hbuf : (printf (literal ['%', '\x00', 'A']) 0 (fun _ => 0) blankMachine.toConsole (fun _ => 0) 2).buf =
    2 := by decide +kernel
  refine ⟨htext, by decide, _, rfl, hpoint, hbuf, fun hstops => ?_⟩
  have hread := hstops.reads 2 (by rw [hpoint]; exact Point.noConfusion)
  omega

/-- The decimal of a signed number, with a sign exactly if it is negative. -/
def IsDecimal (text : List UInt8) (n : Int) : Prop :=
  if n < 0 then ∃ digits, text = 0x2D :: digits ∧ IsNumeral 10 digits n.natAbs else IsNumeral 10 text n.natAbs

/-- In base ten `itoa` gives the decimal numeral of the number. -/
theorem itoa_decimal (value : UInt32) : IsNumeral 10 (itoa value 10) value.toNat :=
  @itoa_isNumeral 10 (by decide) (by decide) value

/-- In base sixteen `itoa` gives the hexadecimal numeral of the number. -/
theorem itoa_hexadecimal (value : UInt32) : IsNumeral 16 (itoa value 16) value.toNat :=
  @itoa_isNumeral 16 (by decide) (by decide) value

/-- The machine's negation, for `-2^31` too. -/
theorem neg_toNat {value : UInt32} (hneg : toInt32 value < 0) : (-value).toNat = (toInt32 value).natAbs := by
  have hvalue := value.toNat_lt
  rw [toInt32, BitVec.toInt_eq_toNat_cond, UInt32.toNat_toBitVec] at hneg ⊢
  rw [UInt32.toNat_neg, UInt32.size]
  split at hneg <;> omega

/-- `%d` shows the number as a signed one: a minus sign and the numeral of the negated word for
    the upper half of the words. This holds for the smallest number too. -/
theorem signed_isDecimal (value : UInt32) : IsDecimal (signed value) (toInt32 value) := by
  rw [IsDecimal, signed]
  split
  · rename_i hneg
    rw [← neg_toNat hneg]
    exact ⟨itoa (-value) 10, rfl, itoa_decimal (-value)⟩
  · rename_i hneg
    have hsame : (toInt32 value).natAbs = value.toNat := by
      have hvalue := value.toNat_lt
      rw [toInt32, BitVec.toInt_eq_toNat_cond, UInt32.toNat_toBitVec] at hneg ⊢
      omega
    rw [hsame]
    exact itoa_decimal value

/-- The alternate form of `%x` always has eight characters. -/
theorem padded_length (value : UInt32) : (padded value).length = 8 := by
  have hlength := itoa_hex_length value
  rw [padded, List.length_append, List.length_replicate]
  omega

/-- The alternate form of `%x` has hexadecimal digits only. -/
theorem padded_digits (value : UInt32) : ∀ c ∈ padded value, ∃ d < 16, c = digitChar d := by
  intro c hc
  rcases List.mem_append.mp hc with hzero | hdigit
  · exact ⟨0, by decide, List.eq_of_mem_replicate hzero⟩
  · exact (itoa_hexadecimal value).digits c hdigit

/-- Leading zeros do not change the number that is read back. -/
theorem readBack_padded (value : UInt32) : readBack 16 (padded value) = value.toNat := by
  have hzero : digitValue 0x30 = 0 := by decide
  rw [← (itoa_hexadecimal value).value, padded, readBack, List.map_append,
    List.map_replicate, hzero, numeral.value_replicate_append]
  rfl

/-- A conversion that takes its argument and prints a text. -/
structure Emits (m : Mem) (format : UInt32) (args : Nat → UInt32) (st : Printf) (text : List UInt8) : Prop where
  con : (printf_step m format args st).con = puts st.con st.con.sched_term_id text
  esp : (printf_step m format args st).esp = st.esp + 1
  buf : (printf_step m format args st).buf = st.buf + 1
  point : (printf_step m format args st).point = .loop

/-- One step behind a percent sign prints the conversion of the next argument and takes it. -/
theorem emits_conversion {m : Mem} {format : UInt32} {args : Nat → UInt32} {st : Printf} {alternate : Bool} {c : UInt8}
    (hpoint : st.point = .format_char_switch alternate) (hread : m (format + UInt32.ofNat st.buf) = c)
    (htaken : taken c = 1) : Emits m format args st (conversion m alternate c (args st.esp)) := by
  have hzero : c ≠ 0 := by
    rintro rfl
    exact absurd htaken (by decide)
  have hsharp : c ≠ 0x23 := by
    rintro rfl
    exact absurd htaken (by decide)
  obtain ⟨conv_buf, hstep⟩ := @printf_step_char m format args st c hread hzero (by rw [hpoint]; exact Point.noConfusion)
  simp only [hpoint, printed, nextEsp, nextPoint, if_neg hsharp, htaken] at hstep
  exact ⟨by rw [hstep], by rw [hstep], by rw [hstep], by rw [hstep]⟩

/-- Eight hexadecimal digits, zeros in front included. -/
structure IsPadded (text : List UInt8) (n : Nat) : Prop where
  length : text.length = 8
  digits : ∀ c ∈ text, ∃ d < 16, c = digitChar d
  value : readBack 16 text = n

/-- The alternate form of `%x` shows the number with eight digits. -/
theorem padded_isPadded (value : UInt32) : IsPadded (padded value) value.toNat :=
  ⟨padded_length value, padded_digits value, readBack_padded value⟩

/-- Every number is printed exactly, by each conversion in any format, and `itoa` writes every
    number in every radix so that it can be read back. What the buffers held before and what else
    is in the format do not matter. -/
theorem printf_numbers_exact (m : Mem) (format : UInt32) (args : Nat → UInt32) {st : Printf} {alternate : Bool}
    (hpoint : st.point = .format_char_switch alternate) :
    (m (format + UInt32.ofNat st.buf) = 0x75 →
      ∃ text, Emits m format args st text ∧ IsNumeral 10 text (args st.esp).toNat) ∧
    (m (format + UInt32.ofNat st.buf) = 0x78 → alternate = false →
      ∃ text, Emits m format args st text ∧ IsNumeral 16 text (args st.esp).toNat) ∧
    (m (format + UInt32.ofNat st.buf) = 0x64 →
      ∃ text, Emits m format args st text ∧ IsDecimal text (toInt32 (args st.esp))) ∧
    (m (format + UInt32.ofNat st.buf) = 0x78 → alternate = true →
      ∃ text, Emits m format args st text ∧ IsPadded text (args st.esp).toNat) ∧
    ∀ (memory : Mem) (value buf radix : UInt32), 2 ≤ radix.toNat → radix.toNat ≤ 36 →
      IsNumeral radix.toNat (cString (itoa_buf memory value buf radix) buf) value.toNat := by
  refine ⟨fun hu => ?_, fun hx hplain => ?_, fun hd => ?_, fun hx halternate => ?_,
    fun memory value buf radix hmin hmax => ?_⟩
  · exact ⟨_, emits_conversion hpoint hu rfl, itoa_decimal _⟩
  · subst hplain
    exact ⟨_, emits_conversion hpoint hx rfl, itoa_hexadecimal _⟩
  · exact ⟨_, emits_conversion hpoint hd rfl, signed_isDecimal _⟩
  · subst halternate
    exact ⟨_, emits_conversion hpoint hx rfl, padded_isPadded _⟩
  · rw [cString_itoa_buf value memory hmin hmax]
    exact itoa_isNumeral hmin hmax value

/-- `%d` of the smallest number, `%#x` with one digit, and a numeral with all the digits. -/
theorem printf_numbers_exact_samples :
    (∃ text, Emits (literal "%d".toList) 0 (fun _ => 0x80000000)
        ⟨blankMachine.toConsole, 1, 0, fun _ => 0, .format_char_switch false⟩ text ∧
      IsDecimal text (toInt32 0x80000000)) ∧
    (∃ text, Emits (literal "%#x".toList) 0 (fun _ => 0xE)
        ⟨blankMachine.toConsole, 2, 0, fun _ => 0, .format_char_switch true⟩ text ∧ IsPadded text 14) ∧
    IsNumeral 36 (cString (itoa_buf (fun _ => 0) 0xFFFFFFFF 0 36) 0) 4294967295 := by
  have hsmallest := @printf_numbers_exact (literal "%d".toList) 0 (fun _ => 0x80000000)
    ⟨blankMachine.toConsole, 1, 0, fun _ => 0, .format_char_switch false⟩ false rfl
  have hpadded := @printf_numbers_exact (literal "%#x".toList) 0 (fun _ => 0xE)
    ⟨blankMachine.toConsole, 2, 0, fun _ => 0, .format_char_switch true⟩ true rfl
  exact ⟨hsmallest.2.2.1 rfl, hpadded.2.2.2.1 rfl rfl, hpadded.2.2.2.2 _ _ _ 36 (by decide) (by decide)⟩

end lacos.lib
