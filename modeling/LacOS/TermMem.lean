import LacOS.State

open memory

namespace lacos

/-- The size of a `term_t`, and the offsets of its two buffers. -/
abbrev TERM_SIZE : Nat := 1464
abbrev KEY_BUF : Nat := 12
abbrev HIST_BUF : Nat := 152

/-- The address of a terminal, as an offset into the `terminals` array. -/
def termAddr (t : Fin MAX_TERM_NUM) : UInt32 := UInt32.ofNat (TERM_SIZE * t)

/-- Byte `i` of a `term_t`. The padding of an object with static storage is zero;
    the bytes of `esp` and `ebp` are given by `saved`. -/
def term_t.byte (term : term_t) (saved : UInt8) (i : Nat) : UInt8 :=
  if i = 0 then term.term_id
  else if i = 1 then term.curs_r
  else if i = 2 then term.curs_c
  else if i = 3 then term.scrn_c
  else if i = 4 then term.scrn_r
  else if i < 8 then 0
  else if i < 12 then wordByte term.vid_mem (i - 8)
  else if h : i - 12 < KEY_BUF_SIZE then term.key_buf ⟨i - 12, h⟩
  else if i < 144 then 0
  else if i < 148 then wordByte term.key_buf_index (i - 144)
  else if i < 152 then wordByte (if term.new_line then 1 else 0) (i - 148)
  else if h : i - 152 < 10 * KEY_BUF_SIZE then term.hist_buf ⟨i - 152, h⟩
  else if i < 1444 then 0
  else if i < 1448 then wordByte term.hist_buf_index (i - 1444)
  else if i < 1452 then wordByte term.cur_hist_index (i - 1448)
  else if i < 1460 then saved
  else wordByte term.cur_task (i - 1460)

/-- The `term_t` that bytes stand for. -/
def term_t.ofMem (m : Mem) (addr : UInt32) (esp : Context) : term_t where
  term_id := m addr
  curs_r := m (addr + 1)
  curs_c := m (addr + 2)
  scrn_c := m (addr + 3)
  scrn_r := m (addr + 4)
  vid_mem := load32 m (addr + 8)
  key_buf i := m (addr + UInt32.ofNat (KEY_BUF + i))
  key_buf_index := load32 m (addr + 144)
  new_line := load32 m (addr + 148) ≠ 0
  hist_buf i := m (addr + UInt32.ofNat (HIST_BUF + i))
  hist_buf_index := load32 m (addr + 1444)
  cur_hist_index := load32 m (addr + 1448)
  esp := esp
  cur_task := load32 m (addr + 1460)

/-- The `terminals` array and what lies around it, as bytes. -/
def Console.termMem (con : Console) : Mem := fun a =>
  if h : a.toNat / TERM_SIZE < MAX_TERM_NUM then
    (con.terminals ⟨a.toNat / TERM_SIZE, h⟩).byte (con.around a) (a.toNat % TERM_SIZE)
  else con.around a

/-- The bytes that no field of a terminal stands for. -/
def OutsideFields (a : UInt32) : Prop :=
  MAX_TERM_NUM ≤ a.toNat / TERM_SIZE ∨ 1452 ≤ a.toNat % TERM_SIZE ∧ a.toNat % TERM_SIZE < 1460

instance (a : UInt32) : Decidable (OutsideFields a) := by
  unfold OutsideFields
  infer_instance

/-- Write bytes back to the terminals. What a stack pointer saved in a terminal
    refers to is not followed. -/
def Console.setTermMem (con : Console) (m : Mem) : Console :=
  { con with
    terminals := fun t => term_t.ofMem m (termAddr t) (con.terminals t).esp
    around := fun a => if OutsideFields a then m a else con.around a }

/-- The structures of the three terminals lie one behind the other. -/
theorem termAddr_toNat (t : Fin MAX_TERM_NUM) {i : Nat} (hi : i < TERM_SIZE) :
    (termAddr t + UInt32.ofNat i).toNat = TERM_SIZE * t + i := by
  have ht := t.isLt
  simp only [TERM_SIZE, MAX_TERM_NUM] at hi ht
  simp only [termAddr, UInt32.toNat_add, UInt32.toNat_ofNat', TERM_SIZE]
  omega

/-- A byte of a terminal's structure, as memory shows it. -/
theorem Console.termMem_at (con : Console) (t : Fin MAX_TERM_NUM) {i : Nat} (hi : i < TERM_SIZE) :
    con.termMem (termAddr t + UInt32.ofNat i) =
      (con.terminals t).byte (con.around (termAddr t + UInt32.ofNat i)) i := by
  have hdiv : (TERM_SIZE * t.val + i) / TERM_SIZE = t := by
    rw [Nat.mul_add_div (by decide), Nat.div_eq_of_lt hi, Nat.add_zero]
  have hmod : (TERM_SIZE * t.val + i) % TERM_SIZE = i := by
    rw [Nat.mul_add_mod, Nat.mod_eq_of_lt hi]
  simp only [Console.termMem, termAddr_toNat t hi, hdiv, hmod, Fin.is_lt, dif_pos, Fin.eta]

section Fields

variable (term : term_t) (saved : UInt8) {i : Nat}

theorem term_t.byte_vid_mem (hi : i < 4) : term.byte saved (8 + i) = wordByte term.vid_mem i := by
  grind [term_t.byte]

/-- The key buffer lies as an array in the structure of its terminal. -/
theorem term_t.byte_key_buf (hi : i < KEY_BUF_SIZE) : term.byte saved (KEY_BUF + i) = term.key_buf ⟨i, hi⟩ := by
  grind [term_t.byte]

theorem term_t.byte_key_buf_index (hi : i < 4) : term.byte saved (144 + i) = wordByte term.key_buf_index i := by
  grind [term_t.byte]

theorem term_t.byte_new_line (hi : i < 4) :
    term.byte saved (148 + i) = wordByte (if term.new_line then 1 else 0) i := by
  grind [term_t.byte]

/-- The ten entries of the history lie one behind the other. -/
theorem term_t.byte_hist_buf (hi : i < 10 * KEY_BUF_SIZE) :
    term.byte saved (HIST_BUF + i) = term.hist_buf ⟨i, hi⟩ := by
  grind [term_t.byte]

theorem term_t.byte_hist_buf_index (hi : i < 4) :
    term.byte saved (1444 + i) = wordByte term.hist_buf_index i := by
  grind [term_t.byte]

theorem term_t.byte_cur_hist_index (hi : i < 4) :
    term.byte saved (1448 + i) = wordByte term.cur_hist_index i := by
  grind [term_t.byte]

/-- The saved stack pointers are not modelled as bytes; they are what memory held there. -/
theorem term_t.byte_esp (hlow : 1452 ≤ i) (hhigh : i < 1460) : term.byte saved i = saved := by
  obtain ⟨j, rfl⟩ := Nat.exists_eq_add_of_le hlow
  grind [term_t.byte]

theorem term_t.byte_saved (saved' : UInt8) (hi : i < 1452) : term.byte saved i = term.byte saved' i := by
  simp only [term_t.byte, hi, if_true]

theorem term_t.byte_cur_task : term.byte saved (1460 + i) = wordByte term.cur_task i := by
  grind [term_t.byte]

end Fields

/-- Offset `i` of a terminal is not in its key buffer, its history or its saved
    stack pointers. -/
def OffBuffers (i : Nat) : Prop :=
  ¬ (KEY_BUF ≤ i ∧ i < KEY_BUF + KEY_BUF_SIZE) ∧ ¬ (HIST_BUF ≤ i ∧ i < HIST_BUF + 10 * KEY_BUF_SIZE) ∧
    ¬ (1452 ≤ i ∧ i < 1460)

private theorem load_word {m : Mem} {addr w : UInt32} {f : Nat → UInt8} {off : Nat}
    (hbytes : ∀ i < TERM_SIZE, OffBuffers i → m (addr + UInt32.ofNat i) = f i)
    (hword : ∀ i < 4, f (off + i) = wordByte w i) (hoff : ∀ i < 4, off + i < TERM_SIZE ∧ OffBuffers (off + i)) :
    load32 m (addr + UInt32.ofNat off) = w := by
  apply load32_wordByte
  intro i hi
  obtain ⟨hsize, hbuffers⟩ := hoff i hi
  rw [UInt32.add_assoc, ← UInt32.ofNat_add, hbytes _ hsize hbuffers, hword i hi]

/-- Bytes that agree with a terminal off its buffers stand for that terminal with
    other contents of the buffers. -/
theorem term_t.ofMem_eq (term : term_t) (saved : Nat → UInt8) (m : Mem) (addr : UInt32)
    (hbytes : ∀ i < TERM_SIZE, OffBuffers i → m (addr + UInt32.ofNat i) = term.byte (saved i) i) :
    term_t.ofMem m addr term.esp =
      { term with
        key_buf := fun i => m (addr + UInt32.ofNat (KEY_BUF + i))
        hist_buf := fun i => m (addr + UInt32.ofNat (HIST_BUF + i)) } := by
  have hoff (off : Nat) (hlow : off + 4 ≤ TERM_SIZE) (hoff : off = 8 ∨ off = 144 ∨ off = 148 ∨ off = 1444 ∨
      off = 1448 ∨ off = 1460) (i : Nat) (hi : i < 4) : off + i < TERM_SIZE ∧ OffBuffers (off + i) := by
    simp only [OffBuffers, KEY_BUF, KEY_BUF_SIZE, HIST_BUF, TERM_SIZE] at hlow ⊢
    omega
  have hbyte (i : Nat) (hi : i < 5) : m (addr + UInt32.ofNat i) = term.byte (saved i) i := by
    apply hbytes i
    · simp only [TERM_SIZE]
      omega
    · simp only [OffBuffers, KEY_BUF, KEY_BUF_SIZE, HIST_BUF]
      omega
  have hvid := load_word hbytes (fun i hi => term.byte_vid_mem _ hi) (hoff 8 (by decide) (by decide))
  have hkey := load_word hbytes (fun i hi => term.byte_key_buf_index _ hi) (hoff 144 (by decide) (by decide))
  have hline := load_word hbytes (fun i hi => term.byte_new_line _ hi) (hoff 148 (by decide) (by decide))
  have hhist := load_word hbytes (fun i hi => term.byte_hist_buf_index _ hi) (hoff 1444 (by decide) (by decide))
  have hcur := load_word hbytes (fun i hi => term.byte_cur_hist_index _ hi) (hoff 1448 (by decide) (by decide))
  have htask := load_word hbytes (fun i _ => term.byte_cur_task _) (hoff 1460 (by decide) (by decide))
  apply term_t.ext
  · simpa [term_t.byte, term_t.ofMem] using hbyte 0 (by omega)
  · exact hbyte 1 (by omega)
  · exact hbyte 2 (by omega)
  · exact hbyte 3 (by omega)
  · exact hbyte 4 (by omega)
  · exact hvid
  · rfl
  · exact hkey
  · change decide (load32 m (addr + UInt32.ofNat 148) ≠ 0) = term.new_line
    rw [hline]
    cases term.new_line <;> rfl
  · rfl
  · exact hhist
  · exact hcur
  · rfl
  · exact htask

private theorem key_buf_offset (i : Fin KEY_BUF_SIZE) :
    KEY_BUF + i.val < TERM_SIZE ∧ ¬ (1452 ≤ KEY_BUF + i.val ∧ KEY_BUF + i.val < 1460) := by
  have hi := i.isLt
  simp only [KEY_BUF, KEY_BUF_SIZE, TERM_SIZE] at *
  omega

private theorem hist_buf_offset (i : Fin (10 * KEY_BUF_SIZE)) :
    HIST_BUF + i.val < TERM_SIZE ∧ ¬ (1452 ≤ HIST_BUF + i.val ∧ HIST_BUF + i.val < 1460) := by
  have hi := i.isLt
  simp only [HIST_BUF, KEY_BUF_SIZE, TERM_SIZE] at *
  omega

/-- The bytes of the key buffer, at their addresses. -/
theorem Console.termMem_key_buf (con : Console) (t : Fin MAX_TERM_NUM) (i : Fin KEY_BUF_SIZE) :
    con.termMem (termAddr t + UInt32.ofNat (KEY_BUF + i)) = (con.terminals t).key_buf i := by
  rw [con.termMem_at t (key_buf_offset i).1, term_t.byte_key_buf]

/-- The bytes of the history, at their addresses. -/
theorem Console.termMem_hist_buf (con : Console) (t : Fin MAX_TERM_NUM) (i : Fin (10 * KEY_BUF_SIZE)) :
    con.termMem (termAddr t + UInt32.ofNat (HIST_BUF + i)) = (con.terminals t).hist_buf i := by
  rw [con.termMem_at t (hist_buf_offset i).1, term_t.byte_hist_buf]

/-- The address is in the key buffer or the history of terminal `t`. -/
def InBuffers (t : Fin MAX_TERM_NUM) (a : UInt32) : Prop :=
  (a - (termAddr t + UInt32.ofNat KEY_BUF)).toNat < KEY_BUF_SIZE ∨
    (a - (termAddr t + UInt32.ofNat HIST_BUF)).toNat < 10 * KEY_BUF_SIZE

/-- The addresses of the two buffers of a terminal as numbers. -/
theorem inBuffers_iff_toNat (t : Fin MAX_TERM_NUM) (a : UInt32) : InBuffers t a ↔
    TERM_SIZE * t + KEY_BUF ≤ a.toNat ∧ a.toNat < TERM_SIZE * t + KEY_BUF + KEY_BUF_SIZE ∨
      TERM_SIZE * t + HIST_BUF ≤ a.toNat ∧ a.toNat < TERM_SIZE * t + HIST_BUF + 10 * KEY_BUF_SIZE := by
  have hkey := termAddr_toNat t (i := KEY_BUF) (by decide)
  have hhist := termAddr_toNat t (i := HIST_BUF) (by decide)
  have ht := t.isLt
  unfold InBuffers
  simp only [TERM_SIZE, MAX_TERM_NUM, KEY_BUF, HIST_BUF, KEY_BUF_SIZE] at *
  rw [sub_toNat_lt_iff _ _ (by rw [hkey]; omega), sub_toNat_lt_iff _ _ (by rw [hhist]; omega), hkey, hhist]

/-- A byte of a structure belongs to the buffers of its own terminal or to none. -/
theorem inBuffers_iff (t u : Fin MAX_TERM_NUM) {i : Nat} (hi : i < TERM_SIZE) (hsaved : ¬ (1452 ≤ i ∧ i < 1460)) :
    InBuffers t (termAddr u + UInt32.ofNat i) ↔ u = t ∧ ¬ OffBuffers i := by
  rw [inBuffers_iff_toNat, termAddr_toNat u hi]
  have ht := t.isLt
  have hu := u.isLt
  simp only [OffBuffers, TERM_SIZE, MAX_TERM_NUM, KEY_BUF, HIST_BUF, KEY_BUF_SIZE] at *
  omega

/-- Where no field of a terminal stands, memory is what it is around the terminals. -/
theorem Console.termMem_of_outsideFields (con : Console) {a : UInt32} (ha : OutsideFields a) :
    con.termMem a = con.around a := by
  unfold Console.termMem
  split
  · obtain hpast | ⟨hlow, hhigh⟩ := ha
    · omega
    · exact term_t.byte_esp _ _ hlow hhigh
  · rfl

/-- A byte that no field stands for is in no buffer. -/
theorem not_inBuffers_of_outsideFields (t : Fin MAX_TERM_NUM) {a : UInt32} (ha : OutsideFields a) :
    ¬ InBuffers t a := by
  rw [inBuffers_iff_toNat]
  have ht := t.isLt
  simp only [OutsideFields, TERM_SIZE, MAX_TERM_NUM, KEY_BUF, HIST_BUF, KEY_BUF_SIZE] at *
  omega

/-- Bytes that differ only in the buffers of one terminal. -/
theorem Console.setTermMem_eq (con : Console) (t : Fin MAX_TERM_NUM) (m : Mem)
    (hsame : ∀ a, ¬ InBuffers t a → m a = con.termMem a) :
    con.setTermMem m = con.setTerm t
      { con.terminals t with
        key_buf := fun i => m (termAddr t + UInt32.ofNat (KEY_BUF + i))
        hist_buf := fun i => m (termAddr t + UInt32.ofNat (HIST_BUF + i)) } := by
  have hbyte (u : Fin MAX_TERM_NUM) (i : Nat) (hi : i < TERM_SIZE) (hoff : u = t → OffBuffers i)
      (hsaved : ¬ (1452 ≤ i ∧ i < 1460)) : m (termAddr u + UInt32.ofNat i) =
        (con.terminals u).byte (con.around (termAddr u + UInt32.ofNat i)) i := by
    rw [← con.termMem_at u hi]
    apply hsame
    rw [inBuffers_iff t u hi hsaved]
    exact fun h => h.2 (hoff h.1)
  apply Console.ext
  · funext u
    have hof := term_t.ofMem_eq (con.terminals u) (fun i => con.around (termAddr u + UInt32.ofNat i)) m
      (termAddr u) fun i hi hoff => hbyte u i hi (fun _ => hoff) hoff.2.2
    by_cases hu : u = t
    · subst hu
      rw [Console.setTerm_same]
      exact hof
    · rw [Console.setTerm_other _ _ _ hu]
      have hkey (i : Fin KEY_BUF_SIZE) : m (termAddr u + UInt32.ofNat (KEY_BUF + i)) =
          (con.terminals u).key_buf i := by
        rw [hbyte u _ (key_buf_offset i).1 (fun h => absurd h hu) (key_buf_offset i).2, term_t.byte_key_buf]
      have hhist (i : Fin (10 * KEY_BUF_SIZE)) : m (termAddr u + UInt32.ofNat (HIST_BUF + i)) =
          (con.terminals u).hist_buf i := by
        rw [hbyte u _ (hist_buf_offset i).1 (fun h => absurd h hu) (hist_buf_offset i).2, term_t.byte_hist_buf]
      simp only [hkey, hhist] at hof
      exact hof
  · funext a
    change (if OutsideFields a then m a else con.around a) = con.around a
    split
    · rename_i ha
      rw [hsame a (not_inBuffers_of_outsideFields t ha), con.termMem_of_outsideFields ha]
    · rfl
  all_goals rfl

/-- Bytes that differ only in the key buffer of one terminal. -/
theorem Console.setTermMem_key_buf (con : Console) (t : Fin MAX_TERM_NUM) (m : Mem)
    (hsame : ∀ a, KEY_BUF_SIZE ≤ (a - (termAddr t + UInt32.ofNat KEY_BUF)).toNat → m a = con.termMem a) :
    con.setTermMem m = con.setTerm t
      { con.terminals t with key_buf := fun i => m (termAddr t + UInt32.ofNat (KEY_BUF + i)) } := by
  have hhist (i : Fin (10 * KEY_BUF_SIZE)) : m (termAddr t + UInt32.ofNat (HIST_BUF + i)) =
      (con.terminals t).hist_buf i := by
    rw [← con.termMem_hist_buf t i]
    apply hsame
    have hoff := (hist_buf_offset i).1
    have hat := termAddr_toNat t hoff
    have hkey := termAddr_toNat t (i := KEY_BUF) (by decide)
    have ht := t.isLt
    simp only [KEY_BUF, HIST_BUF, KEY_BUF_SIZE, TERM_SIZE, MAX_TERM_NUM] at *
    rw [← Nat.not_lt, sub_toNat_lt_iff _ _ (by omega), hat, hkey]
    omega
  rw [con.setTermMem_eq t m fun a ha => hsame a (Nat.not_lt.mp fun h => ha (Or.inl h))]
  simp only [hhist]

/-- Bytes that differ only in the history of one terminal. -/
theorem Console.setTermMem_hist_buf (con : Console) (t : Fin MAX_TERM_NUM) (m : Mem)
    (hsame : ∀ a, 10 * KEY_BUF_SIZE ≤ (a - (termAddr t + UInt32.ofNat HIST_BUF)).toNat → m a = con.termMem a) :
    con.setTermMem m = con.setTerm t
      { con.terminals t with hist_buf := fun i => m (termAddr t + UInt32.ofNat (HIST_BUF + i)) } := by
  have hkeys (i : Fin KEY_BUF_SIZE) : m (termAddr t + UInt32.ofNat (KEY_BUF + i)) =
      (con.terminals t).key_buf i := by
    rw [← con.termMem_key_buf t i]
    apply hsame
    have hi := i.isLt
    have hoff := (key_buf_offset i).1
    have hat := termAddr_toNat t hoff
    have hhist := termAddr_toNat t (i := HIST_BUF) (by decide)
    have ht := t.isLt
    simp only [KEY_BUF, HIST_BUF, KEY_BUF_SIZE, TERM_SIZE, MAX_TERM_NUM] at *
    rw [← Nat.not_lt, sub_toNat_lt_iff _ _ (by omega), hat, hhist]
    omega
  rw [con.setTermMem_eq t m fun a ha => hsame a (Nat.not_lt.mp fun h => ha (Or.inr h))]
  simp only [hkeys]

end lacos
