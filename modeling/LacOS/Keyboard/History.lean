import LacOS.Keyboard.Buffer

open memory lacos.lib

namespace lacos.keyboard

/-- What a terminal keeps of its input. -/
@[ext] structure InputState where
  key_buf : Fin KEY_BUF_SIZE → UInt8
  key_buf_index : UInt32
  new_line : Bool
  hist_buf : Fin (10 * KEY_BUF_SIZE) → UInt8
  hist_buf_index : UInt32
  cur_hist_index : UInt32

def inputState (term : term_t) : InputState where
  key_buf := term.key_buf
  key_buf_index := term.key_buf_index
  new_line := term.new_line
  hist_buf := term.hist_buf
  hist_buf_index := term.hist_buf_index
  cur_hist_index := term.cur_hist_index

/-- Byte `j` of the command before the next free entry of the history. Before the
    first entry lies the key buffer, from its twelfth character on. -/
def previous (term : term_t) (j : Nat) : UInt8 :=
  term.byte 0 (KEY_BUF + 11 + KEY_BUF_SIZE * term.hist_buf_index.toNat + j)

/-- The command is the beginning of the one before it. -/
def Repeats (term : term_t) (command : List UInt8) : Prop :=
  ∀ k < command.length, (∀ j < k, previous term j ≠ 0) → previous term k = command.getD k 0

instance (term : term_t) (command : List UInt8) : Decidable (Repeats term command) := by
  unfold Repeats
  infer_instance

/-- The terminal with a command added to its history, unless that is full, the
    command is empty or it only repeats the one before. -/
def record (term : term_t) (command : List UInt8) : term_t :=
  if term.hist_buf_index ≥ HIST_COM_NUM then term
  else if command ≠ [] ∧ ¬ Repeats term command then
    { term with
      hist_buf := fun i =>
        if KEY_BUF_SIZE * term.hist_buf_index.toNat ≤ i.val ∧
          i.val < KEY_BUF_SIZE * term.hist_buf_index.toNat + command.length then
          command.getD (i.val - KEY_BUF_SIZE * term.hist_buf_index.toNat) 0
        else term.hist_buf i
      hist_buf_index := term.hist_buf_index + 1
      cur_hist_index := term.hist_buf_index + 1 }
  else { term with cur_hist_index := term.hist_buf_index }

@[simp] theorem record_key_buf (term : term_t) (command : List UInt8) :
    (record term command).key_buf = term.key_buf := by
  unfold record
  split
  · rfl
  · split <;> rfl

@[simp] theorem record_key_buf_index (term : term_t) (command : List UInt8) :
    (record term command).key_buf_index = term.key_buf_index := by
  unfold record
  split
  · rfl
  · split <;> rfl

@[simp] theorem record_new_line (term : term_t) (command : List UInt8) :
    (record term command).new_line = term.new_line := by
  unfold record
  split
  · rfl
  · split <;> rfl

@[simp] theorem line_record (term : term_t) (command : List UInt8) : line (record term command) = line term := by
  simp only [line, record_key_buf]

/-- An empty command is not recorded, but makes the next entry the current one. -/
theorem record_nil (term : term_t) : record term [] =
    if term.hist_buf_index ≥ HIST_COM_NUM then term else { term with cur_hist_index := term.hist_buf_index } := by
  simp [record]

section History

variable (con : Console) (t u : Fin MAX_TERM_NUM)

/-- The entry before one, by its place in the structure. Before the first entry this is inside the
    key buffer. -/
theorem hist_buf_previous (index : UInt32) (k : Nat) : hist_buf t (index - 1) + UInt32.ofNat k =
    termAddr t + UInt32.ofNat (KEY_BUF + 11 + KEY_BUF_SIZE * index.toNat + k) := by
  simp only [hist_buf, UInt32.ofNat_add, UInt32.ofNat_mul, UInt32.ofNat_toNat, KEY_BUF, HIST_BUF, KEY_BUF_SIZE]
  grind

/-- The entry before another one does not end where its first byte is. -/
theorem hist_buf_previous_succ (index : UInt32) : hist_buf t (index - 1) + 1 ≠ hist_buf t index := by
  simp only [hist_buf, KEY_BUF_SIZE]
  grind

variable {con t} in
theorem index_toNat_lt (hindex : (con.terminals t).hist_buf_index < HIST_COM_NUM) :
    (con.terminals t).hist_buf_index.toNat < 10 := by
  rwa [UInt32.lt_iff_toNat_lt] at hindex

/-- What `add_to_history` compares a command with. -/
theorem termMem_previous (hindex : (con.terminals t).hist_buf_index < HIST_COM_NUM) {k : Nat}
    (hk : k < KEY_BUF_SIZE) : con.termMem (hist_buf t ((con.terminals t).hist_buf_index - 1) + UInt32.ofNat k) =
      previous (con.terminals t) k := by
  have hlt := index_toNat_lt hindex
  simp only [KEY_BUF_SIZE] at hk
  rw [hist_buf_previous, con.termMem_at t (by simp only [KEY_BUF, KEY_BUF_SIZE, TERM_SIZE]; omega), previous,
    term_t.byte_saved _ _ 0 (by simp only [KEY_BUF, KEY_BUF_SIZE]; omega)]

theorem line_byte {k : Nat} (hk : k < (line (con.terminals u)).length) :
    con.termMem (key_buf u + UInt32.ofNat k) = (line (con.terminals u))[k] := by
  rw [key_buf_add, line_getElem _ hk, ← con.termMem_key_buf]

/-- `strlen` on a key buffer gives the length of the line. -/
theorem strlen_line : (strlen con.termMem (key_buf u)).toNat = (line (con.terminals u)).length := by
  have hstring := line_isString con u
  rw [strlen_eq hstring, UInt32.toNat_ofNat_of_lt' hstring.1]

/-- The size of the command is that of the line without its newline. For an empty line this would
    be -1. -/
theorem command_size (hline : line (con.terminals u) ≠ []) :
    (strlen con.termMem (key_buf u) - 1).toNat = (line (con.terminals u)).dropLast.length := by
  have hle := line_length_le (con.terminals u)
  have hpos := List.length_pos_iff.mpr hline
  rw [UInt32.toNat_sub, strlen_line, List.length_dropLast]
  simp only [KEY_BUF_SIZE] at hle
  simp
  omega

/-- The bytes of the command are those of the line without its last. -/
theorem command_byte {k : Nat} (hk : k < (line (con.terminals u)).dropLast.length) :
    con.termMem (key_buf u + UInt32.ofNat k) = (line (con.terminals u)).dropLast.getD k 0 := by
  have hlen : k < (line (con.terminals u)).length := by
    rw [List.length_dropLast] at hk
    omega
  rw [line_byte con u hlen, List.getD_eq_getElem?_getD, List.getElem?_eq_getElem hk, Option.getD_some,
    List.getElem_dropLast]

/-- The comparison of `add_to_history`, for a line that is not empty. -/
theorem strncmp_previous (hindex : (con.terminals t).hist_buf_index < HIST_COM_NUM)
    (hline : line (con.terminals u) ≠ []) :
    strncmp con.termMem (hist_buf t ((con.terminals t).hist_buf_index - 1)) con.termMem (key_buf u)
      (strlen con.termMem (key_buf u) - 1) = 0 ↔ Repeats (con.terminals t) (line (con.terminals u)).dropLast := by
  have hle := line_length_le (con.terminals u)
  rw [strncmp_eq_zero_iff, command_size con u hline]
  refine forall₂_congr fun k hk => ?_
  have hlen : k < KEY_BUF_SIZE := by
    rw [List.length_dropLast] at hk
    omega
  rw [termMem_previous con t hindex hlen, command_byte con u hk]
  refine imp_congr_left (forall₂_congr fun j hj => ?_)
  rw [termMem_previous con t hindex (by omega)]

/-- The address of an entry of the history, as an offset into the terminal. -/
theorem hist_buf_add (index : UInt32) (k : Nat) : hist_buf t index + UInt32.ofNat k =
    termAddr t + UInt32.ofNat (HIST_BUF + (KEY_BUF_SIZE * index.toNat + k)) := by
  simp only [hist_buf, UInt32.ofNat_add, UInt32.ofNat_mul, UInt32.ofNat_toNat, HIST_BUF, KEY_BUF_SIZE]
  grind

theorem key_buf_toNat : (key_buf t).toNat = TERM_SIZE * t + KEY_BUF := termAddr_toNat t (by decide)

/-- The ten entries by their addresses. An index beyond them leads out of the history. -/
theorem hist_buf_toNat {index : UInt32} (hindex : index.toNat < 10) :
    (hist_buf t index).toNat = TERM_SIZE * t + (HIST_BUF + KEY_BUF_SIZE * index.toNat) := by
  have haddr := hist_buf_add t index 0
  rw [Nat.add_zero, show UInt32.ofNat 0 = 0 from rfl, UInt32.add_zero] at haddr
  rw [haddr, termAddr_toNat t]
  simp only [TERM_SIZE, HIST_BUF, KEY_BUF_SIZE]
  omega

/-- A command is shorter than an entry of the history. -/
theorem command_length_le : (line (con.terminals u)).dropLast.length ≤ 128 := by
  have hmax := line_length_le (con.terminals u)
  simp only [KEY_BUF_SIZE] at hmax
  rw [List.length_dropLast]
  omega

/-- The copy of `add_to_history` as one block: the entry does not begin inside the line that is
    copied, whichever terminals the two belong to. -/
theorem strncpy_line_eq_blit {index : UInt32} (hten : index.toNat < 10) (hline : line (con.terminals u) ≠ []) :
    strncpy con.termMem (hist_buf t index) (key_buf u) (strlen con.termMem (key_buf u) - 1) =
      blit con.termMem (hist_buf t index) con.termMem (key_buf u) (line (con.terminals u)).dropLast.length := by
  have hsize := command_size con u hline
  have hle := command_length_le con u
  have hdest := hist_buf_toNat t hten
  have hsrc := key_buf_toNat u
  have ht := t.isLt
  have hu := u.isLt
  rw [← hsize]
  apply strncpy_eq_blit
  · intro k hk
    rw [hsize, List.length_dropLast] at hk
    exact (line_isString con u).2.2 k (by omega)
  · rw [hsize, ← Nat.not_lt]
    simp only [TERM_SIZE, KEY_BUF, HIST_BUF, KEY_BUF_SIZE, MAX_TERM_NUM] at *
    rw [sub_toNat_lt_iff _ _ (by omega), hdest, hsrc]
    by_cases horder : u.val ≤ t.val <;> omega

/-- The history after that copy, byte by byte. -/
theorem blit_line_entry {index : UInt32} (hten : index.toNat < 10) (i : Fin (10 * KEY_BUF_SIZE)) :
    blit con.termMem (hist_buf t index) con.termMem (key_buf u) (line (con.terminals u)).dropLast.length
        (termAddr t + UInt32.ofNat (HIST_BUF + i)) =
      if KEY_BUF_SIZE * index.toNat ≤ i.val ∧
        i.val < KEY_BUF_SIZE * index.toNat + (line (con.terminals u)).dropLast.length then
        (line (con.terminals u)).dropLast.getD (i.val - KEY_BUF_SIZE * index.toNat) 0
      else (con.terminals t).hist_buf i := by
  have hle := command_length_le con u
  have hdest := hist_buf_toNat t hten
  have ht := t.isLt
  have hi := i.isLt
  split
  · rename_i hinside
    obtain ⟨k, hk⟩ := Nat.exists_eq_add_of_le hinside.1
    have hlt : k < (line (con.terminals u)).dropLast.length := by omega
    rw [hk, ← hist_buf_add, blit_inside _ _ _ _ hlt (by omega), command_byte con u hlt, Nat.add_sub_cancel_left]
  · rename_i hinside
    rw [blit_outside, con.termMem_hist_buf]
    have hat := termAddr_toNat t (i := HIST_BUF + i.val)
      (by simp only [HIST_BUF, KEY_BUF_SIZE, TERM_SIZE] at hi ⊢; omega)
    simp only [TERM_SIZE, HIST_BUF, KEY_BUF_SIZE, MAX_TERM_NUM] at *
    rw [← Nat.not_lt, sub_toNat_lt_iff _ _ (by omega), hat, hdest]
    omega

/-- The copy of `add_to_history`: the line without its newline goes into the free
    entry. -/
theorem strncpy_line {index : UInt32} (hindex : index < HIST_COM_NUM) (hline : line (con.terminals u) ≠ []) :
    con.setTermMem (strncpy con.termMem (hist_buf t index) (key_buf u)
      (strlen con.termMem (key_buf u) - 1)) = con.setTerm t { con.terminals t with
        hist_buf := fun i =>
          if KEY_BUF_SIZE * index.toNat ≤ i.val ∧
            i.val < KEY_BUF_SIZE * index.toNat + (line (con.terminals u)).dropLast.length then
            (line (con.terminals u)).dropLast.getD (i.val - KEY_BUF_SIZE * index.toNat) 0
          else (con.terminals t).hist_buf i } := by
  have hten : index.toNat < 10 := by rwa [UInt32.lt_iff_toNat_lt] at hindex
  have hle := command_length_le con u
  have hdest := hist_buf_toNat t hten
  have ht := t.isLt
  have hbase : (termAddr t + UInt32.ofNat HIST_BUF).toNat = TERM_SIZE * t + HIST_BUF :=
    termAddr_toNat t (by decide)
  rw [strncpy_line_eq_blit con t u hten hline, con.setTermMem_hist_buf t]
  · simp only [blit_line_entry con t u hten]
  · intro a ha
    apply blit_outside
    simp only [TERM_SIZE, HIST_BUF, KEY_BUF_SIZE, MAX_TERM_NUM] at *
    rw [← Nat.not_lt, sub_toNat_lt_iff _ _ (by omega)] at ha ⊢
    omega

theorem strlen_eq_line : strlen con.termMem (key_buf u) = UInt32.ofNat (line (con.terminals u)).length :=
  strlen_eq (line_isString con u)

/-- `add_to_history` would fill memory with zeros: there is no line, so the size of
    the command is -1, and it differs from the one before. -/
def Wipes (term : term_t) (delivered : List UInt8) : Prop :=
  delivered = [] ∧ term.hist_buf_index < HIST_COM_NUM ∧ previous term 0 ≠ 0

instance (term : term_t) (delivered : List UInt8) : Decidable (Wipes term delivered) := by
  unfold Wipes
  infer_instance

/-- `add_to_history` of a terminal's line, on the visible terminal. -/
theorem add_to_history_eq (hwipes : ¬ Wipes (con.terminals con.vis_term_id) (line (con.terminals u))) :
    add_to_history con (key_buf u) = con.setTerm con.vis_term_id
      (record (con.terminals con.vis_term_id) (line (con.terminals u)).dropLast) := by
  generalize hvis : con.vis_term_id = t at *
  by_cases hfull : (con.terminals t).hist_buf_index ≥ HIST_COM_NUM
  · simp only [add_to_history, hvis, record, hfull, if_true, Console.setTerm_self]
  · have hindex : (con.terminals t).hist_buf_index < HIST_COM_NUM := by
      rw [UInt32.lt_iff_toNat_lt]
      rw [ge_iff_le, UInt32.le_iff_toNat_le] at hfull
      omega
    simp only [add_to_history, hvis, record, hfull, if_false]
    by_cases hline : line (con.terminals u) = []
    · have hzero : previous (con.terminals t) 0 = 0 := by
        by_contra hne
        exact hwipes ⟨hline, hindex, hne⟩
      have hcmp : strncmp con.termMem (hist_buf t ((con.terminals t).hist_buf_index - 1)) con.termMem (key_buf u)
          (strlen con.termMem (key_buf u) - 1) = 0 := by
        have hfirst := termMem_previous con t hindex (k := 0) (by decide)
        have hend := (line_isString con u).2.1
        rw [hline, List.length_nil] at hend
        rw [strncmp_eq_zero_iff]
        intro k _ hbody
        cases k with
        | zero => rw [hfirst, hzero, hend]
        | succ k => exact absurd (hfirst.trans hzero) (hbody 0 (by omega))
      simp [hline, hcmp]
    · have hcmp := strncmp_previous con t u hindex hline
      have hsize := command_size con u hline
      have hempty : strlen con.termMem (key_buf u) - 1 ≠ 0 ↔ (line (con.terminals u)).dropLast ≠ [] := by
        rw [ne_eq, ne_eq, ← List.length_eq_zero_iff, ← hsize, ← UInt32.toNat_inj]
        rfl
      simp only [hempty, ne_eq, hcmp]
      split
      · have hkeys : line ((con.setTerm t { con.terminals t with
            hist_buf_index := (con.terminals t).hist_buf_index + 1 }).terminals u) = line (con.terminals u) := by
          by_cases hu : u = t
          · rw [hu, Console.setTerm_same]
            rfl
          · rw [Console.setTerm_other _ _ _ hu]
        have hcopy := strncpy_line (con.setTerm t { con.terminals t with
          hist_buf_index := (con.terminals t).hist_buf_index + 1 }) t u hindex (by rwa [hkeys])
        rw [strlen_eq_line, hkeys] at hcopy
        rw [strlen_eq_line, hcopy]
        simp only [Console.setTerm_same, Console.setTerm_setTerm]
      · rfl

/-- The first byte of the entry before the free one is in the key buffer or in the
    history. -/
theorem previous_zero (term : term_t) (hindex : term.hist_buf_index < HIST_COM_NUM) :
    (∃ i : Fin KEY_BUF_SIZE, KEY_BUF + i.val = KEY_BUF + 11 + KEY_BUF_SIZE * term.hist_buf_index.toNat ∧
      previous term 0 = term.key_buf i) ∨
    ∃ i : Fin (10 * KEY_BUF_SIZE), HIST_BUF + i.val = KEY_BUF + 11 + KEY_BUF_SIZE * term.hist_buf_index.toNat ∧
      previous term 0 = term.hist_buf i := by
  have hlt : term.hist_buf_index.toNat < 10 := by rwa [UInt32.lt_iff_toNat_lt] at hindex
  by_cases hfirst : term.hist_buf_index.toNat = 0
  · left
    refine ⟨⟨11, by decide⟩, by rw [hfirst, Nat.mul_zero, Nat.add_zero], ?_⟩
    rw [previous, hfirst]
    exact term.byte_key_buf 0 (by decide)
  · right
    have hrow : KEY_BUF_SIZE * (term.hist_buf_index.toNat - 1) < 10 * KEY_BUF_SIZE := by
      simp only [KEY_BUF_SIZE]
      omega
    have hoff : KEY_BUF + 11 + KEY_BUF_SIZE * term.hist_buf_index.toNat =
        HIST_BUF + KEY_BUF_SIZE * (term.hist_buf_index.toNat - 1) := by
      simp only [KEY_BUF, HIST_BUF, KEY_BUF_SIZE]
      omega
    refine ⟨⟨KEY_BUF_SIZE * (term.hist_buf_index.toNat - 1), hrow⟩, hoff.symm, ?_⟩
    rw [previous, hoff]
    exact term.byte_hist_buf 0 hrow

/-- Without a line, and with an entry before the free one, `add_to_history` fills
    all of memory but one byte with zeros. -/
theorem add_to_history_wipes (hwipes : Wipes (con.terminals con.vis_term_id) (line (con.terminals u))) :
    ∃ m, add_to_history con (key_buf u) =
        ((con.setTermMem m).setTerm con.vis_term_id { (con.setTermMem m).terminals con.vis_term_id with
          cur_hist_index := ((con.setTermMem m).terminals con.vis_term_id).hist_buf_index }) ∧
      ∀ a, a + 1 ≠ hist_buf con.vis_term_id (con.terminals con.vis_term_id).hist_buf_index → m a = 0 := by
  generalize hvis : con.vis_term_id = t at *
  obtain ⟨hline, hindex, hprev⟩ := hwipes
  have hroom : ¬ (con.terminals t).hist_buf_index ≥ HIST_COM_NUM := by simpa using hindex
  have hempty (con' : Console) (hkeys : line (con'.terminals u) = []) : con'.termMem (key_buf u) = 0 := by
    have hend := (line_isString con' u).2.1
    rwa [hkeys, List.length_nil, show UInt32.ofNat 0 = 0 from rfl, UInt32.add_zero] at hend
  have hsize : strlen con.termMem (key_buf u) - 1 = 0xFFFFFFFF := by
    rw [strlen_eq_line, hline]
    rfl
  have hcmp : strncmp con.termMem (hist_buf t ((con.terminals t).hist_buf_index - 1)) con.termMem (key_buf u)
      0xFFFFFFFF ≠ 0 := by
    intro hzero
    rw [strncmp_eq_zero_iff] at hzero
    have hfirst := hzero 0 (by decide) (by omega)
    rw [termMem_previous con t hindex (by decide), show UInt32.ofNat 0 = 0 from rfl, UInt32.add_zero,
      hempty con hline] at hfirst
    exact hprev hfirst
  obtain ⟨con', hcon'⟩ : ∃ con', con' = con.setTerm t { con.terminals t with
    hist_buf_index := (con.terminals t).hist_buf_index + 1 } := ⟨_, rfl⟩
  have hkeys : line (con'.terminals u) = [] := by
    rw [hcon']
    by_cases hu : u = t
    · rw [hu, Console.setTerm_same]
      rw [hu] at hline
      exact hline
    · rw [Console.setTerm_other _ _ _ hu]
      exact hline
  have hset (m : Mem) : con'.setTermMem m = con.setTermMem m := by
    have hesp (v : Fin MAX_TERM_NUM) : (con'.terminals v).esp = (con.terminals v).esp := by
      rw [hcon']
      by_cases hv : v = t
      · rw [hv, Console.setTerm_same]
      · rw [Console.setTerm_other _ _ _ hv]
    simp only [Console.setTermMem, hesp]
    rw [hcon']
    rfl
  refine ⟨fillWith con'.termMem (hist_buf t (con.terminals t).hist_buf_index) (fun _ => 0) 0xFFFFFFFF, ?_, ?_⟩
  · simp only [add_to_history, hvis, hroom, if_false, hsize]
    rw [if_pos ⟨by decide, hcmp⟩, ← hcon', strncpy_of_empty _ _ _ _ (hempty con' hkeys), hset]
    rfl
  · intro a ha
    refine if_pos ?_
    have hlast : a - hist_buf t (con.terminals t).hist_buf_index ≠ 0xFFFFFFFF := by grind
    have hlt := (a - hist_buf t (con.terminals t).hist_buf_index).toNat_lt
    have hne : (a - hist_buf t (con.terminals t).hist_buf_index).toNat ≠ 0xFFFFFFFF := fun h =>
      hlast (UInt32.toNat_inj.mp h)
    omega

end History

end lacos.keyboard
