import Mathlib.Data.List.Forall2
import LacOS.User

open memory program stream lacos.lib lacos.file_system lacos.pcb lacos.syscalls

namespace lacos.file_system

/-- What read number `n` of the directory puts into the buffer, as far as the number it
    returns goes. -/
def Image.listed (fs : Image) (n : Nat) : List UInt8 :=
  (List.range (fs.listing n).1).map fun j => (fs.listing n).2.getD j 0

/-- What a program gets that reads the directory until it is given 0: the entries from
    number `n` on, up to one without a name. -/
def Image.listedFrom (fs : Image) (n : Nat) : List (List UInt8) :=
  ((List.range' n (fs.numEntries - n)).map fs.listed).takeWhile (· ≠ [])

/-- What a program gets that opens the file of a directory entry and reads `size` bytes
    at a time, until it is given 0. -/
def Image.chunks (fs : Image) (size : Nat) (dentry : dentry_t) : List (List UInt8) :=
  if dentry.file_type = 0 then []
  else if dentry.file_type = 1 then fs.listedFrom 0
  else pieces size (fs.contents dentry.inode_num)

/-- All that a program gets from the file of a directory entry. -/
def Image.text (fs : Image) (dentry : dentry_t) : List UInt8 :=
  if dentry.file_type = 0 then []
  else if dentry.file_type = 1 then (fs.listedFrom 0).flatten
  else fs.contents dentry.inode_num

/-- The name leads to this directory entry, and it can be opened. -/
def Image.Leads (fs : Image) (name : List UInt8) (dentry : dentry_t) : Prop :=
  ∃ i, fs.First name i ∧ fs.dentry (UInt32.ofNat i) = dentry ∧ dentry.file_type < 3

/-- What the reads of a file deliver is the text of the file, however large the buffer is. -/
theorem Image.chunks_flatten (fs : Image) {size : Nat} (hsize : size ≠ 0) (dentry : dentry_t) :
    (fs.chunks size dentry).flatten = fs.text dentry := by
  rw [Image.chunks, Image.text]
  split
  · rfl
  split
  · rfl
  · exact pieces_flatten hsize _

end lacos.file_system

namespace lacos.user

/-- A name that is not taken for that of a standard file. -/
def PlainName (name : List UInt8) : Prop :=
  ¬ chars ['s', 't', 'd', 'i', 'n'] <+: name ∧ ¬ chars ['s', 't', 'd', 'o', 'u', 't'] <+: name

instance (name : List UInt8) : Decidable (PlainName name) := inferInstanceAs (Decidable (_ ∧ _))

/-- The running process has the same file at a descriptor. -/
structure SameFile (k k' : Kernel) (i : Fin MAX_DESC) : Prop where
  cur_pcb : k'.cur_pcb = k.cur_pcb
  desc : k'.desc k.cur_pcb i = k.desc k.cur_pcb i

/-- What a read does besides its result: it may change the buffer and move the position
    of its descriptor. -/
structure Fetched (t t' : Task) (i : Fin MAX_DESC) (buf : UInt32) (size : Nat) : Prop where
  wrote : Wrote t.kernel [] t'.kernel
  sound : TableSound t'.kernel
  file_ops : (t'.kernel.desc t.kernel.cur_pcb i).file_ops = (t.kernel.desc t.kernel.cur_pcb i).file_ops
  others : ∀ j ≠ i, t'.kernel.desc t.kernel.cur_pcb j = t.kernel.desc t.kernel.cur_pcb j
  mem : ∀ a, max size FILENAME_LEN ≤ (a - buf).toNat → t'.mem a = t.mem a

/-- Reads of `size` bytes from a descriptor deliver the chunks, one after the other, and
    then 0. Nothing but the file at the descriptor decides it. -/
def Yields (fs : Image) (i : Fin MAX_DESC) (size : Nat) : List (List UInt8) → Kernel → Prop
  | [], k => ∀ (t : Task) (buf : UInt32), SameFile k t.kernel i → TableSound t.kernel → buf ≠ NULL →
      wp (ece391_read fs i buf size) (fun value t' => value = 0 ∧ Fetched t t' i buf size) t
  | chunk :: chunks, k => chunk ≠ [] ∧
      ∀ (t : Task) (buf : UInt32), SameFile k t.kernel i → TableSound t.kernel → buf ≠ NULL →
      wp (ece391_read fs i buf size) (fun value t' => value = chunk.length ∧ Fetched t t' i buf size ∧
        bytesAt t'.mem buf chunk.length = chunk ∧ Yields fs i size chunks t'.kernel) t

section SameFile

variable {k k' k'' : Kernel} {i : Fin MAX_DESC}

theorem SameFile.refl : SameFile k k i := ⟨rfl, rfl⟩

/-- An open file stays the same over two changes that leave it so. -/
theorem SameFile.trans (h : SameFile k k' i) (h' : SameFile k' k'' i) : SameFile k k'' i := by
  refine ⟨h'.cur_pcb.trans h.cur_pcb, ?_⟩
  rw [← h.cur_pcb, h'.desc, h.cur_pcb, h.desc]

theorem SameFile.of_tasks (htasks : k'.toTasks = k.toTasks) : SameFile k k' i := by
  refine ⟨?_, ?_⟩
  · rw [htasks]
  · rw [Kernel.desc, htasks]
    rfl

theorem SameFile.current (h : SameFile k k' i) : k'.desc k'.cur_pcb i = k.desc k.cur_pcb i := by
  rw [h.cur_pcb, h.desc]

/-- What is still to be read does not change while something else is done. -/
theorem Yields.of_same {fs : Image} {size : Nat} {chunks : List (List UInt8)} (hyields : Yields fs i size chunks k)
    (hsame : SameFile k k' i) : Yields fs i size chunks k' := by
  cases chunks with
  | nil => exact fun t buf ht => hyields t buf (hsame.trans ht)
  | cons chunk chunks => exact ⟨hyields.1, fun t buf ht => hyields.2 t buf (hsame.trans ht)⟩

end SameFile

theorem begins_iff {m : Mem} {s : UInt32} {name : List UInt8} (htext : IsText m s name) {text : List Char}
    (hnonzero : 0 ∉ chars text) : Begins m s text ↔ chars text <+: name := by
  have hlength : (chars text).length = text.length := by rw [chars, List.length_map]
  constructor
  · intro hbegins
    have hle : text.length ≤ name.length := by
      by_contra hlong
      have hend := hbegins name.length (by omega)
      rw [htext.terminator, List.getD_eq_getElem _ _ (by omega)] at hend
      exact hnonzero (hend ▸ List.getElem_mem _)
    rw [List.prefix_iff_eq_take]
    apply List.ext_getElem
    · rw [List.length_take]
      omega
    · intro j hj hj'
      have hbyte := hbegins j (by omega)
      rw [htext j (by omega), List.getD_eq_getElem _ _ (by omega), List.getD_eq_getElem _ _ hj] at hbyte
      rw [List.getElem_take, hbyte]
  · rintro ⟨rest, rfl⟩ j hj
    rw [htext j (by rw [List.length_append]; omega), List.getD_append _ _ _ _ (by omega)]

/-- The kernel compares with the names of the standard files up to their lengths, so that plain
    names are those that begin with neither. -/
theorem standardName_iff {m : Mem} {s : UInt32} {name : List UInt8} (htext : IsText m s name) :
    ¬ StandardName m s ↔ PlainName name := by
  rw [StandardName, not_or, begins_iff htext (by decide), begins_iff htext (by decide), PlainName]

theorem descIndex_ofInt (i : Fin MAX_DESC) : descIndex (Int32.ofInt (i.val : Int)) = some i := by
  revert i
  decide

section Read

variable {fs : Image} {k k' : Kernel} {fd : Int32} {i : Fin MAX_DESC} {m m' : Mem} {buf : UInt32} {nbytes : Int32}
  {value : Int}

/-- Reading a file that is not the keyboard moves its position, and does nothing else to the
    kernel that a program can see. -/
theorem sys_read_effect (hfd : descIndex fd = some i) (hfile : (k.desc k.cur_pcb i).file_ops ≠ .stdin)
    (hread : sys_read fs k fd m buf nbytes = some (value, m', k')) : k'.toConsole = k.toConsole ∧
      ∃ pos, k'.toTasks = (k.setDesc k.cur_pcb i { k.desc k.cur_pcb i with file_pos := pos }).toTasks := by
  have hsame : k.toConsole = k.toConsole ∧
      ∃ pos, k.toTasks = (k.setDesc k.cur_pcb i { k.desc k.cur_pcb i with file_pos := pos }).toTasks :=
    ⟨rfl, (k.desc k.cur_pcb i).file_pos, by rw [Kernel.setDesc_self]⟩
  simp only [sys_read, hfd] at hread
  split at hread
  · cases hread
    exact hsame
  · split at hread
    · cases hread
      exact hsame
    · rename_i op hop
      generalize (k.desc k.cur_pcb i).file_ops = file_ops at hfile hop
      cases file_ops with
      | empty_f_ops_tab | stdout => cases hop
      | stdin => exact absurd rfl hfile
      | rtc_jt =>
        cases hop
        cases hread
        exact hsame
      | dir_jt =>
        cases hop
        obtain rfl : (fsys_read_dir fs k i m buf).2.2 = k' := by rw [Option.some.inj hread]
        simp only [fsys_read_dir]
        split
        · exact hsame
        · exact ⟨rfl, _, rfl⟩
      | regf_jt =>
        cases hop
        obtain rfl : (fsys_read_file fs k i m buf nbytes).2.2 = k' := by rw [Option.some.inj hread]
        simp only [fsys_read_file]
        split
        · exact hsame
        · split
          · exact ⟨rfl, _, rfl⟩
          · exact hsame

/-- A read of a file that is not the keyboard leaves the rest of the kernel, and memory outside of
    the buffer. -/
theorem fetched_of_sys_read (hk : TableSound k) (hfd : descIndex fd = some i)
    (hfile : (k.desc k.cur_pcb i).file_ops ≠ .stdin)
    (hread : sys_read fs k fd m buf nbytes = some (value, m', k')) {size : Nat}
    (hmem : ∀ a, max size FILENAME_LEN ≤ (a - buf).toNat → m' a = m a) : Fetched ⟨k, m⟩ ⟨k', m'⟩ i buf size := by
  obtain ⟨hconsole, pos, htasks⟩ := sys_read_effect hfd hfile hread
  have hdesc (j : Fin MAX_DESC) : k'.desc k.cur_pcb j =
      (k.setDesc k.cur_pcb i { k.desc k.cur_pcb i with file_pos := pos }).desc k.cur_pcb j := by
    rw [Kernel.desc, htasks]
    rfl
  refine ⟨.nothing hconsole ?_, hk.read hread, ?_, fun j hj => ?_, hmem⟩
  · rw [htasks]
    rfl
  · simp only [hdesc, Kernel.desc_setDesc_same]
  · simp only [hdesc]
    exact Kernel.desc_setDesc_other _ _ _ _ fun h => hj (Prod.mk.inj h).2

end Read

/-- A regular file is open, and `rest` is left of it to read. -/
def Reads (fs : Image) (k : Kernel) (i : Fin MAX_DESC) (rest : List UInt8) : Prop :=
  ∃ desc, OpenFile fs k i desc ∧ (fs.stream desc).rest = rest

section Sources

variable {fs : Image} {i : Fin MAX_DESC}

theorem Reads.of_same {k k' : Kernel} {rest : List UInt8} (hreads : Reads fs k i rest) (hsame : SameFile k k' i) :
    Reads fs k' i rest := by
  obtain ⟨desc, hopen, hrest⟩ := hreads
  exact ⟨desc, ⟨hsame.current.trans hopen.desc_eq, hopen.regular, hopen.wellFormed, hopen.pos⟩, hrest⟩

/-- What is left of the file is put into the buffer, up to the size of it. -/
theorem sys_read_file_mem {k k' : Kernel} {desc : fdesc_t} (hopen : OpenFile fs k i desc) {fd : Int32}
    (hfd : descIndex fd = some i) {m m' : Mem} {buf : UInt32} (hbuf : buf ≠ NULL) {nbytes : Int32}
    (hnbytes : 0 ≤ nbytes) {value : Int} (hread : sys_read fs k fd m buf nbytes = some (value, m', k')) :
    value = ((fs.stream desc).rest.take nbytes.toNatClampNeg).length ∧
      m' = putBytes m buf ((fs.stream desc).rest.take nbytes.toNatClampNeg) := by
  have hchunk : (fs.stream desc).rest.take nbytes.toNatClampNeg = _ := fs.stream_read desc nbytes
  have hlength : ((fs.stream desc).rest.take nbytes.toNatClampNeg).length = fs.readCount desc nbytes := by
    rw [hchunk, List.length_map, List.length_range]
  have hop : (k.desc k.cur_pcb i).file_ops.readOp = some fun fs k fd m buf nbytes =>
      some (fsys_read_file fs k fd m buf nbytes) := by
    rw [hopen.desc_eq, hopen.regular, f_ops_table.readOp]
  have hvalid : ¬ (buf = NULL ∨ nbytes < 0) := by
    rw [not_or, Int32.not_lt]
    exact ⟨hbuf, hnbytes⟩
  have hexact := fsys_read_file_eq hopen.desc_eq hopen.wellFormed hnbytes m buf
  simp only [sys_read, hfd, if_neg hvalid, hop, hexact, Option.some.injEq, Prod.mk.injEq] at hread
  obtain ⟨rfl, rfl, -⟩ := hread
  refine ⟨by rw [hlength], ?_⟩
  have hlt : fs.readCount desc nbytes < 2 ^ 31 := Nat.lt_of_le_of_lt (Nat.min_le_left _ _) nbytes.toNatClampNeg_lt
  rw [putBytes, hlength]
  refine eq_fillWith (fun j hj => ?_) fun a ha => fillWith_outside _ ha
  rw [fillWith_inside _ _ _ hj (by omega), hchunk, List.getD_eq_getElem _ _ (by simpa using hj)]
  simp

variable {t : Task} (ht : TableSound t.kernel) {buf : UInt32} (hbuf : buf ≠ NULL) {n : Nat} (hn : n < 2 ^ 31)
include ht hbuf hn

/-- A read from a regular file. -/
theorem read_file_spec {rest : List UInt8} (hreads : Reads fs t.kernel i rest) :
    wp (ece391_read fs i buf n) (fun value t' => value = (rest.take n).length ∧
      t'.mem = putBytes t.mem buf (rest.take n) ∧ Fetched t t' i buf n ∧ Reads fs t'.kernel i (rest.drop n)) t := by
  obtain ⟨desc, hopen, rfl⟩ := hreads
  have hsize : (Int32.ofInt (n : Int)).toNatClampNeg = n := by
    rw [← Int32.toNat_toInt, toInt_ofInt_natCast hn, Int.toNat_natCast]
  have hnonneg : 0 ≤ Int32.ofInt (n : Int) := by
    rw [Int32.le_iff_toInt_le, toInt_ofInt_natCast hn]
    exact Int.natCast_nonneg n
  have hfd := descIndex_ofInt i
  have hcall : ReadCall.Valid ⟨t.mem, buf, Int32.ofInt (n : Int)⟩ := ⟨hbuf, hnonneg⟩
  obtain ⟨value, m', pos, hread, -, hstream, hpos⟩ := hopen.sys_read hfd hcall
  obtain ⟨hvalue, hmem⟩ := sys_read_file_mem hopen hfd hbuf hnonneg hread
  have hstdin : (t.kernel.desc t.kernel.cur_pcb i).file_ops ≠ .stdin := by
    rw [hopen.desc_eq, hopen.regular]
    decide
  simp only [hsize] at hstream hvalue hmem
  refine ⟨value, ⟨_, m'⟩, ?_, hvalue, hmem, fetched_of_sys_read ht hfd hstdin hread fun a ha => ?_, ?_⟩
  · rw [ece391_read, hread]
    rfl
  · rw [hmem]
    refine fillWith_outside _ (Nat.le_trans ?_ (Nat.le_trans (Nat.le_max_left _ _) ha))
    exact List.length_take_le _ _
  · refine ⟨_, hopen.seek hpos, ?_⟩
    rw [hstream, Stream.read_rest]

omit ht hbuf in
/-- The reads of a regular file deliver it in pieces. -/
theorem yields_file (hpos : n ≠ 0) {k : Kernel} {rest : List UInt8} (hreads : Reads fs k i rest) :
    Yields fs i n (pieces n rest) k := by
  generalize hlength : rest.length = length
  induction length using Nat.strong_induction_on generalizing rest k with
  | _ length ih =>
    by_cases hrest : rest = []
    · subst hrest
      rw [pieces_nil]
      intro t₁ buf hsame ht₁ hbuf
      refine wp_mono (read_file_spec ht₁ hbuf hn (hreads.of_same hsame)) ?_
      rintro value t' ⟨hvalue, -, hfetched, -⟩
      rw [List.take_nil] at hvalue
      exact ⟨hvalue, hfetched⟩
    · have hfirst := List.length_pos_iff.mpr hrest
      rw [pieces_of_ne_nil hpos hrest]
      refine ⟨?_, fun t₁ buf hsame ht₁ hbuf => ?_⟩
      · rw [ne_eq, List.take_eq_nil_iff]
        exact not_or.mpr ⟨hpos, hrest⟩
      · refine wp_mono (read_file_spec ht₁ hbuf hn (hreads.of_same hsame)) ?_
        rintro value t' ⟨hvalue, hmem, hfetched, hreads'⟩
        have hbytes : bytesAt t'.mem buf (rest.take n).length = rest.take n := by
          rw [hmem]
          refine bytesAt_putBytes _ _ ?_
          rw [List.length_take]
          omega
        have hshorter : (rest.drop n).length < length := by
          rw [List.length_drop]
          omega
        exact ⟨hvalue, hfetched, hbytes, ih _ hshorter hreads' rfl⟩

end Sources

section Directory

variable {fs : Image} {i : Fin MAX_DESC}

/-- A name is listed with the length that the read returns for it. -/
theorem listed_length (n : Nat) : (fs.listed n).length = (fs.listing n).1 := by
  rw [Image.listed, List.length_map, List.length_range]

/-- No name is longer than 32 bytes. -/
theorem listing_le (n : Nat) : (fs.listing n).1 ≤ FILENAME_LEN := by
  rw [Image.listing]
  split
  · exact fs.nameCount_le _
  · exact Nat.zero_le _

/-- The entries from one on: the entry itself and those behind it, if it has a name. -/
theorem listedFrom_eq (n : Nat) :
    fs.listedFrom n = if fs.listed n = [] then [] else fs.listed n :: fs.listedFrom (n + 1) := by
  by_cases hn : n < fs.numEntries
  · obtain ⟨left, hleft⟩ : ∃ left, fs.numEntries - n = left + 1 := ⟨fs.numEntries - n - 1, by omega⟩
    have hnext : fs.numEntries - (n + 1) = left := by omega
    rw [Image.listedFrom, Image.listedFrom, hleft, hnext, List.range'_succ, List.map_cons]
    by_cases hempty : fs.listed n = []
    · rw [if_pos hempty, List.takeWhile_cons_of_neg (by simpa using hempty)]
    · rw [if_neg hempty, List.takeWhile_cons_of_pos (by simpa using hempty)]
  · have hempty : fs.listed n = [] := by
      rw [← List.length_eq_zero_iff, listed_length, Image.listing, if_neg hn]
    rw [if_pos hempty, Image.listedFrom, Nat.sub_eq_zero_of_le (Nat.not_lt.mp hn)]
    rfl

theorem openDir_of_same {k k' : Kernel} {n : Nat} (hopen : OpenDir fs k i n) (hsame : SameFile k k' i) :
    OpenDir fs k' i n :=
  ⟨hsame.current ▸ hopen.directory, hsame.current ▸ hopen.pos⟩

variable {t : Task} {size : Nat} (hsize : size < 2 ^ 31)
include hsize

/-- A read from a directory. -/
theorem read_dir_spec (ht : TableSound t.kernel) {buf : UInt32} (hbuf : buf ≠ NULL) {n : Nat} (hopen : OpenDir fs t.kernel i n) :
    wp (ece391_read fs i buf size) (fun value t' => value = (fs.listed n).length ∧
      t'.mem = fillWith t.mem buf (fun j => (fs.listing n).2.getD j 0) FILENAME_LEN ∧
      Fetched t t' i buf size ∧ OpenDir fs t'.kernel i (n + 1)) t := by
  have hnonneg : 0 ≤ Int32.ofInt (size : Int) := by
    rw [Int32.le_iff_toInt_le, toInt_ofInt_natCast hsize]
    exact Int.natCast_nonneg size
  have hcall : ReadCall.Valid ⟨t.mem, buf, Int32.ofInt (size : Int)⟩ := ⟨hbuf, hnonneg⟩
  have hfd := descIndex_ofInt i
  obtain ⟨k', hread, hopen'⟩ := hopen.sys_read hfd hcall
  have hstdin : (t.kernel.desc t.kernel.cur_pcb i).file_ops ≠ .stdin := by
    rw [hopen.directory]
    decide
  refine ⟨_, ⟨k', _⟩, ?_, by rw [listed_length], rfl, fetched_of_sys_read ht hfd hstdin hread fun a ha => ?_, hopen'⟩
  · rw [ece391_read, hread]
    rfl
  · exact fillWith_outside _ (Nat.le_trans (Nat.le_max_right _ _) ha)

/-- An entry without a name ends a directory. -/
theorem yields_nameless {k : Kernel} {n : Nat} (hopen : OpenDir fs k i n) (hempty : fs.listed n = []) :
    Yields fs i size [] k := by
  intro t₁ buf hsame ht hbuf
  refine wp_mono (read_dir_spec hsize ht hbuf (openDir_of_same hopen hsame)) ?_
  rintro value t' ⟨hvalue, -, hfetched, -⟩
  rw [hempty] at hvalue
  exact ⟨hvalue, hfetched⟩

/-- The reads of a directory deliver its names. -/
theorem yields_directory {k : Kernel} {n : Nat} (hopen : OpenDir fs k i n) :
    Yields fs i size (fs.listedFrom n) k := by
  generalize hleft : fs.numEntries - n = left
  induction left generalizing n k with
  | zero =>
    have hempty : fs.listed n = [] := by
      rw [← List.length_eq_zero_iff, listed_length, Image.listing, if_neg (by omega)]
    rw [listedFrom_eq, if_pos hempty]
    exact yields_nameless hsize hopen hempty
  | succ left ih =>
    rw [listedFrom_eq]
    split
    · rename_i hempty
      exact yields_nameless hsize hopen hempty
    · rename_i hname
      refine ⟨hname, fun t₁ buf hsame ht hbuf => ?_⟩
      refine wp_mono (read_dir_spec hsize ht hbuf (openDir_of_same hopen hsame)) ?_
      rintro value t' ⟨hvalue, hmem, hfetched, hopen'⟩
      refine ⟨hvalue, hfetched, ?_, ih hopen' (by omega)⟩
      rw [hmem, bytesAt, listed_length, Image.listed]
      apply List.map_congr_left
      intro j hj
      have hle : (fs.listing n).1 ≤ FILENAME_LEN := listing_le n
      rw [List.mem_range] at hj
      exact fillWith_inside _ _ _ (by omega) (by decide)

end Directory

section Rtc

variable {fs : Image} {i : Fin MAX_DESC} {t : Task} {size : Nat} (hsize : size < 2 ^ 31)
include hsize

/-- A read of the clock delivers nothing. -/
theorem read_rtc_spec (ht : TableSound t.kernel) {buf : UInt32} (hbuf : buf ≠ NULL)
    (hrtc : (t.kernel.desc t.kernel.cur_pcb i).file_ops = .rtc_jt) :
    wp (ece391_read fs i buf size) (fun value t' => value = 0 ∧ t'.mem = t.mem ∧ Fetched t t' i buf size) t := by
  have hvalid : ¬ (buf = NULL ∨ Int32.ofInt (size : Int) < 0) := by
    rw [not_or, Int32.not_lt, Int32.le_iff_toInt_le, toInt_ofInt_natCast hsize]
    exact ⟨hbuf, Int.natCast_nonneg size⟩
  have hop : (t.kernel.desc t.kernel.cur_pcb i).file_ops.readOp =
      some fun _ k _ m _ _ => some ((rtc.rtc_read k).1, m, (rtc.rtc_read k).2) := by
    rw [hrtc, f_ops_table.readOp]
  have hstdin : (t.kernel.desc t.kernel.cur_pcb i).file_ops ≠ .stdin := by
    rw [hrtc]
    decide
  have hfd := descIndex_ofInt i
  have hread : sys_read fs t.kernel (Int32.ofInt i) t.mem buf (Int32.ofInt size) =
      some (0, t.mem, (rtc.rtc_read t.kernel).2) := by
    simp only [sys_read, hfd, if_neg hvalid, hop]
    rfl
  refine ⟨0, ⟨(rtc.rtc_read t.kernel).2, t.mem⟩, ?_, rfl, rfl,
    fetched_of_sys_read ht hfd hstdin hread fun _ _ => rfl⟩
  rw [ece391_read, hread]
  rfl

/-- The clock delivers no bytes. -/
theorem yields_rtc {k : Kernel} (hrtc : (k.desc k.cur_pcb i).file_ops = .rtc_jt) : Yields fs i size [] k := by
  intro t₁ buf hsame ht hbuf
  refine wp_mono (read_rtc_spec hsize ht hbuf (hsame.current ▸ hrtc)) ?_
  rintro value t' ⟨hvalue, -, hfetched⟩
  exact ⟨hvalue, hfetched⟩

end Rtc

/-- A file is open that is read as a stream, and `rest` is left of it. -/
def Feeds (fs : Image) (k : Kernel) (i : Fin MAX_DESC) (rest : List UInt8) : Prop :=
  Reads fs k i rest ∨ (k.desc k.cur_pcb i).file_ops = .rtc_jt ∧ rest = []

theorem Feeds.of_same {fs : Image} {k k' : Kernel} {i : Fin MAX_DESC} {rest : List UInt8} (hfeeds : Feeds fs k i rest)
    (hsame : SameFile k k' i) : Feeds fs k' i rest := by
  rcases hfeeds with hreads | ⟨hrtc, hrest⟩
  · exact .inl (hreads.of_same hsame)
  · exact .inr ⟨hsame.current ▸ hrtc, hrest⟩

/-- A read from a stream. -/
theorem feed_spec {fs : Image} {i : Fin MAX_DESC} {t : Task} (ht : TableSound t.kernel) {buf : UInt32}
    (hbuf : buf ≠ NULL) {n : Nat} (hn : n < 2 ^ 31) {rest : List UInt8} (hfeeds : Feeds fs t.kernel i rest) :
    wp (ece391_read fs i buf n) (fun value t' => value = (rest.take n).length ∧
      t'.mem = putBytes t.mem buf (rest.take n) ∧ Fetched t t' i buf n ∧ Feeds fs t'.kernel i (rest.drop n)) t := by
  rcases hfeeds with hreads | ⟨hrtc, rfl⟩
  · refine wp_mono (read_file_spec ht hbuf hn hreads) ?_
    rintro value t' ⟨hvalue, hmem, hfetched, hreads'⟩
    exact ⟨hvalue, hmem, hfetched, .inl hreads'⟩
  · refine wp_mono (read_rtc_spec hn ht hbuf hrtc) ?_
    rintro value t' ⟨hvalue, hmem, hfetched⟩
    rw [List.take_nil, List.drop_nil]
    refine ⟨hvalue, ?_, hfetched, .inr ⟨?_, rfl⟩⟩
    · rw [hmem, putBytes, List.length_nil, fillWith_zero]
    · rw [hfetched.wrote.cur_pcb, hfetched.file_ops, hrtc]

/-- `sys_open` has given slot `idx` to directory entry `i`. -/
structure Opened (fs : Image) (k : Kernel) (name : List UInt8) (idx : Fin MAX_DESC) (i : Nat) (k' : Kernel) :
    Prop where
  can_open : CanOpen fs k name
  first : fs.First name i
  two_le : 2 ≤ idx.val
  known_type : (fs.dentry (UInt32.ofNat i)).file_type < 3
  free : (k.desc k.cur_pcb idx).flags = .NOT_USED
  bound : Bound fs k' idx i
  others : ∀ j ≠ idx, k'.desc k.cur_pcb j = k.desc k.cur_pcb j

section Open

variable {fs : Image} {m : Mem} {filename : UInt32}

/-- Opening a file writes nothing to the screen. -/
theorem sys_open_wrote {k k' : Kernel} {fd : Int} (hopen : sys_open fs k m filename = some (fd, k')) :
    Wrote k [] k' := by
  have hsame : Wrote k [] k := .nothing rfl rfl
  simp only [sys_open] at hopen
  split at hopen
  · cases hopen
    exact hsame
  split at hopen
  · cases hopen
    exact hsame
  simp only [open_file_desc] at hopen
  split at hopen
  · cases hopen
    exact hsame
  split at hopen
  · cases hopen
    exact hsame
  split at hopen
  · obtain ⟨dentry, -, hopen⟩ := Option.bind_eq_some_iff.mp hopen
    obtain ⟨file_ops, -, hopen⟩ := Option.bind_eq_some_iff.mp hopen
    obtain ⟨op, hop, hopen⟩ := Option.map_eq_some_iff.mp hopen
    obtain ⟨-, rfl⟩ := Prod.mk.inj hopen
    cases file_ops with
    | empty_f_ops_tab | stdin | stdout => cases hop
    | rtc_jt | dir_jt | regf_jt =>
      obtain rfl := Option.some.inj hop
      exact .nothing rfl rfl
  · cases hopen
    exact .nothing rfl rfl

variable {t : Task} (ht : TableSound t.kernel) {name : List UInt8} (htext : IsText m filename name)
  (hname : 0 ∉ name) (hplain : PlainName name)
include ht htext hname hplain

/-- Opening a file: it gets a slot, or there is no such file, or no slot. -/
theorem open_spec : wp (ece391_open fs m filename) (fun fd t' => t'.mem = t.mem ∧ Wrote t.kernel [] t'.kernel ∧
    TableSound t'.kernel ∧ ((fd = -1 ∧ ¬ CanOpen fs t.kernel name) ∨
      ∃ idx i, fd = idx.val ∧ Opened fs t.kernel name idx i t'.kernel)) t := by
  have hstandard := (standardName_iff htext).mpr hplain
  have hresult {fd : Int} {k' : Kernel} (hopen : sys_open fs t.kernel m filename = some (fd, k')) :
      ece391_open fs m filename t = some (fd, ⟨k', t.mem⟩) := by
    rw [ece391_open, hopen]
    rfl
  by_cases hcan : CanOpen fs t.kernel name
  · obtain ⟨i, hfirst, htype⟩ := hcan.file
    have hread := namedDentry_of_first htext hname hfirst
    obtain ⟨result, k', hopen, hopens⟩ := sys_open_opens ht hread htype
    have hsuccess : result ≠ -1 := by
      rw [ne_eq, hopens.fails]
      obtain ⟨idx, hfree⟩ := hcan.free
      intro hall
      rw [hall idx (ht.two_le_of_free hfree)] at hfree
      cases hfree
    obtain ⟨idx, rfl, hidx, hfree, hleast, -, hothers⟩ := hopens.takes hsuccess
    have hunused : ∀ j < idx, (t.kernel.desc t.kernel.cur_pcb j).flags ≠ .NOT_USED :=
      fun j hj => flags_ne_not_used_iff.mpr (hleast j hj)
    have hfirst' := (sys_open_plain htext hname ht.current hfree hunused hfirst htype hstandard).mpr hidx
    obtain ⟨idx', i', hsame, hfirst'', hbound⟩ := hfirst' _ _ hopen (Int.natCast_nonneg _)
    obtain rfl : idx = idx' := Fin.ext (Int.ofNat.inj hsame)
    obtain rfl := hfirst.unique hfirst''
    exact ⟨_, _, hresult hopen, rfl, sys_open_wrote hopen, ht.opened (fun _ => hstandard) hopen,
      .inr ⟨idx, i, rfl, hcan, hfirst, hidx, htype, hfree, hbound, hothers⟩⟩
  · have hfail : sys_open fs t.kernel m filename = some (-1, t.kernel) := by
      obtain ⟨i, hfirst, -, hread⟩ | ⟨-, -, hread⟩ := read_dentry_by_name_cases fs htext hname (fun _ => 0) 0
      · by_cases htype : (fs.dentry (UInt32.ofNat i)).file_type < 3
        · have hfull (j : Fin MAX_DESC) : (t.kernel.desc t.kernel.cur_pcb j).flags ≠ .NOT_USED :=
            fun hfree => hcan ⟨ht.current, ⟨i, hfirst, htype⟩, ⟨j, hfree⟩⟩
          rw [sys_open_eq hread htype, open_file_desc_full hfull]
        · simp only [sys_open, hread, if_pos (UInt32.not_lt.mp htype)]
      · simp only [sys_open, hread]
    exact ⟨_, _, hresult hfail, rfl, .nothing rfl rfl, ht, .inl ⟨rfl, hcan⟩⟩

end Open

/-- A new process has free descriptors, so that a name can be opened if it leads to an entry of a
    known type. -/
theorem canOpen_iff {fs : Image} {k : Kernel} {arg name : List UInt8} (hstarted : Started k arg) :
    CanOpen fs k name ↔ ∃ dentry, fs.Leads name dentry := by
  constructor
  · intro hcan
    obtain ⟨i, hfirst, htype⟩ := hcan.file
    exact ⟨_, i, hfirst, rfl, htype⟩
  · rintro ⟨dentry, i, hfirst, rfl, htype⟩
    exact ⟨hstarted.sound.current, ⟨i, hfirst, htype⟩, 2, hstarted.free 2 (by decide)⟩

section WithFile

variable {fs : Image} {t : Task} {arg : List UInt8} (hstarted : Started t.kernel arg) {m : Mem} {filename : UInt32}
  {name : List UInt8} (htext : IsText m filename name) (hname : 0 ∉ name) (hplain : PlainName name)
  {failed : List Char} {rest : Int → Prog Task Int}
include hstarted htext hname hplain

/-- Without such a file the program says so and ends with 2. What it would do with the file does
    not matter. -/
theorem withFile_none (hnone : ¬ ∃ dentry, fs.Leads name dentry) (hnonzero : 0 ∉ chars failed)
    (hlength : failed.length < 2 ^ 31) : wp (withFile fs m filename failed rest)
      (fun value t' => value = 2 ∧ Wrote t.kernel (chars failed) t'.kernel) t := by
  refine wp_bind (wp_mono (open_spec hstarted.sound htext hname hplain) ?_)
  rintro fd t' ⟨-, hopen, ht', ⟨rfl, -⟩ | ⟨idx, i, -, hopened⟩⟩
  · rw [if_pos rfl]
    refine wp_mono (message_spec ht' hnonzero hlength 2) fun value t'' ⟨hvalue, hwrote⟩ => ⟨hvalue, ?_⟩
    exact hopen.append hwrote
  · exact absurd ((canOpen_iff hstarted).mp hopened.can_open) hnone

/-- With a file the program goes on as it does with any descriptor opened at the start of it. -/
theorem withFile_some {i : Nat} (hfirst : fs.First name i) (htype : (fs.dentry (UInt32.ofNat i)).file_type < 3)
    {status : Int} {out : List UInt8}
    (hrest : ∀ (idx : Fin MAX_DESC) t', t'.mem = t.mem → TableSound t'.kernel → t'.kernel.cur_pcb = t.kernel.cur_pcb →
      Opened fs t.kernel name idx i t'.kernel →
      wp (rest idx) (fun value t'' => value = status ∧ Wrote t'.kernel out t''.kernel) t') :
    wp (withFile fs m filename failed rest)
      (fun value t' => value = status ∧ Wrote t.kernel out t'.kernel) t := by
  refine wp_bind (wp_mono (open_spec hstarted.sound htext hname hplain) ?_)
  rintro fd t' ⟨hmem, hopen, ht', ⟨-, hcannot⟩ | ⟨idx, i', rfl, hopened⟩⟩
  · exact absurd ((canOpen_iff hstarted).mpr ⟨_, i, hfirst, rfl, htype⟩) hcannot
  · obtain rfl := hopened.first.unique hfirst
    have hfd : ¬ (idx.val : Int) = -1 := by omega
    rw [if_neg hfd]
    refine wp_mono (hrest idx t' hmem ht' hopen.cur_pcb hopened) fun value t'' ⟨hvalue, hwrote⟩ => ⟨hvalue, ?_⟩
    exact hopen.append hwrote

end WithFile

section Opened

variable {fs : Image} {k k' : Kernel} {name : List UInt8} {idx : Fin MAX_DESC} {i : Nat}
  (hopened : Opened fs k name idx i k')
include hopened

/-- The three types of entries that can be opened. -/
theorem Opened.file_type_cases : (fs.dentry (UInt32.ofNat i)).file_type = 0 ∨
    (fs.dentry (UInt32.ofNat i)).file_type = 1 ∨ (fs.dentry (UInt32.ofNat i)).file_type = 2 := by
  have htype := UInt32.lt_iff_toNat_lt.mp hopened.known_type
  have hthree : (3 : UInt32).toNat = 3 := rfl
  obtain h | h | h : (fs.dentry (UInt32.ofNat i)).file_type.toNat = 0 ∨
      (fs.dentry (UInt32.ofNat i)).file_type.toNat = 1 ∨ (fs.dentry (UInt32.ofNat i)).file_type.toNat = 2 := by omega
  · exact .inl (UInt32.toNat_inj.mp h)
  · exact .inr (.inl (UInt32.toNat_inj.mp h))
  · exact .inr (.inr (UInt32.toNat_inj.mp h))

theorem Opened.rtc (htype : (fs.dentry (UInt32.ofNat i)).file_type = 0) :
    (k'.desc k'.cur_pcb idx).file_ops = .rtc_jt := by
  have hops := hopened.bound.file_ops
  rw [htype] at hops
  exact (Option.some.inj hops).symm

/-- A directory is opened at its first entry. -/
theorem Opened.openDir (htype : (fs.dentry (UInt32.ofNat i)).file_type = 1) : OpenDir fs k' idx 0 := by
  have hops := hopened.bound.file_ops
  rw [htype] at hops
  refine ⟨(Option.some.inj hops).symm, ?_⟩
  rw [hopened.bound.file_pos, Nat.zero_min]
  rfl

/-- A regular file just opened is read from its start. -/
theorem Opened.reads (htype : (fs.dentry (UInt32.ofNat i)).file_type = 2)
    (hwf : fs.WellFormed (fs.dentry (UInt32.ofNat i)).inode_num) :
    Reads fs k' idx (fs.contents (fs.dentry (UInt32.ofNat i)).inode_num) := by
  have hops := hopened.bound.file_ops
  rw [htype] at hops
  refine ⟨_, ⟨rfl, (Option.some.inj hops).symm, ?_, ?_⟩, ?_⟩
  · rw [hopened.bound.inode]
    exact hwf
  · rw [hopened.bound.file_pos]
    exact UInt32.zero_le
  · rw [Stream.rest, Image.stream, hopened.bound.file_pos, hopened.bound.inode]
    rfl

/-- A file that has been opened yields its text in chunks. Only a regular file must be well
    formed. -/
theorem Opened.yields
    (hwf : (fs.dentry (UInt32.ofNat i)).file_type = 2 → fs.WellFormed (fs.dentry (UInt32.ofNat i)).inode_num)
    {size : Nat} (hsize : size < 2 ^ 31) (hpos : size ≠ 0) :
    Yields fs idx size (fs.chunks size (fs.dentry (UInt32.ofNat i))) k' := by
  rw [Image.chunks]
  rcases hopened.file_type_cases with htype | htype | htype
  · rw [if_pos htype]
    exact yields_rtc hsize (hopened.rtc htype)
  · rw [htype]
    exact yields_directory hsize (hopened.openDir htype)
  · rw [htype]
    exact yields_file hsize hpos (hopened.reads htype (hwf htype))

end Opened

/-- No chunk of a directory is longer than a name. -/
theorem listedFrom_length_le {fs : Image} {n : Nat} {chunk : List UInt8} (hchunk : chunk ∈ fs.listedFrom n) :
    chunk.length ≤ FILENAME_LEN := by
  obtain ⟨n, -, rfl⟩ := List.mem_map.mp ((List.takeWhile_sublist _).mem hchunk)
  rw [listed_length]
  exact listing_le n

theorem chunks_length_le (fs : Image) (size : Nat) (dentry : dentry_t) {chunk : List UInt8}
    (hchunk : chunk ∈ fs.chunks size dentry) : chunk.length ≤ max size FILENAME_LEN := by
  rw [Image.chunks] at hchunk
  split at hchunk
  · exact absurd hchunk List.not_mem_nil
  split at hchunk
  · exact Nat.le_trans (listedFrom_length_le hchunk) (Nat.le_max_right _ _)
  · exact Nat.le_trans (pieces_length_le hchunk) (Nat.le_max_left _ _)

/-- The loop that reads a descriptor to its end: `handle` is what is done with the bytes of
    each read, `failed` the message if a read fails. -/
def readLoop (fs : Image) (buf : UInt32) (size : Nat) (failed : List Char) (handle : Int → Prog Task (Unit ⊕ Int))
    (fd : Int) (fuel : Nat) : Prog Task Int :=
  loop (fun _ : Unit => do
    let cnt ← ece391_read fs fd buf size
    if cnt = 0 then pure (.inr 0)
    else if cnt = -1 then do
      fdputs_constant 1 failed
      pure (.inr 3)
    else handle cnt) fuel ()

section ReadLoop

variable {fs : Image} {buf : UInt32} {size : Nat} {handle : Int → Prog Task (Unit ⊕ Int)} {idx : Fin MAX_DESC}

/-- The bytes of a read are handled: `out` is written for them, and the descriptor and an
    invariant are kept. -/
def Handles (inv : Task → Prop) (buf : UInt32) (handle : Int → Prog Task (Unit ⊕ Int)) (idx : Fin MAX_DESC)
    (chunk out : List UInt8) : Prop :=
  ∀ s : Task, TableSound s.kernel → inv s → bytesAt s.mem buf chunk.length = chunk →
    wp (handle chunk.length) (fun next s' => next = .inl () ∧ TableSound s'.kernel ∧ inv s' ∧
      Wrote s.kernel out s'.kernel ∧ SameFile s.kernel s'.kernel idx) s

/-- The loop handles what the descriptor yields, read by read. -/
theorem readLoop_spec (hbuf : buf ≠ NULL) (failed : List Char) {inv : Task → Prop}
    (hinv : ∀ s s', TableSound s.kernel → inv s → Fetched s s' idx buf size → inv s') {chunks outs : List (List UInt8)}
    (hhandles : List.Forall₂ (Handles inv buf handle idx) chunks outs) {t : Task} (ht : TableSound t.kernel)
    (hstart : inv t) (hyields : Yields fs idx size chunks t.kernel) {fuel : Nat} (hfuel : chunks.length < fuel) :
    wp (readLoop fs buf size failed handle idx fuel)
      (fun code t' => code = 0 ∧ Wrote t.kernel outs.flatten t'.kernel) t := by
  refine wp_loop (fun n _ s => ∃ done left chunks, outs = done ++ left ∧ n = chunks.length ∧
    List.Forall₂ (Handles inv buf handle idx) chunks left ∧ TableSound s.kernel ∧ inv s ∧
    Wrote t.kernel done.flatten s.kernel ∧ Yields fs idx size chunks s.kernel) ?_ hfuel
    ⟨[], outs, chunks, rfl, rfl, hhandles, ht, hstart, .nothing rfl rfl, hyields⟩
  rintro n ⟨⟩ s ⟨done, left, chunks, rfl, rfl, hleft, hs, hkept, hdone, hyields⟩
  cases hleft with
  | nil =>
    refine wp_bind (wp_mono (hyields s buf .refl hs hbuf) ?_)
    rintro value s' ⟨rfl, hfetched⟩
    rw [List.append_nil]
    exact wp_pure ⟨rfl, hdone.then_nothing hfetched.wrote⟩
  | @cons chunk out chunks left hhandle hrest =>
    obtain ⟨hchunk, hyields⟩ := hyields
    refine wp_bind (wp_mono (hyields s buf .refl hs hbuf) ?_)
    rintro value s' ⟨rfl, hfetched, hbytes, hyields'⟩
    have hpositive := List.length_pos_iff.mpr hchunk
    have hzero : ¬ (chunk.length : Int) = 0 := by omega
    have hfail : ¬ (chunk.length : Int) = -1 := by omega
    rw [if_neg hzero, if_neg hfail]
    refine wp_mono (hhandle s' hfetched.sound (hinv s s' hs hkept hfetched) hbytes) ?_
    rintro next s'' ⟨rfl, hs'', hkept', hwrote, hsame⟩
    refine ⟨chunks.length, Nat.lt_succ_self _, done ++ [out], left, chunks, ?_, rfl, hrest, hs'', hkept', ?_,
      hyields'.of_same hsame⟩
    · rw [List.append_assoc, List.singleton_append]
    · rw [List.flatten_append, List.flatten_singleton]
      exact (hdone.then_nothing hfetched.wrote).append hwrote

end ReadLoop

end lacos.user
