import LacOS.Base.Capped
import LacOS.Base.Run
import LacOS.Keyboard.Input
import LacOS.Lib.Frame
import LacOS.MultiTerm.Virtual
import LacOS.Terminal.Read

open memory capped lacos.lib lacos.keyboard trace

namespace lacos.terminal

/-- Somebody at the keyboard: the modifier keys held, what has been typed since the
    last Enter, and the lines completed so far. -/
structure Typist where
  kbd : Keyboard
  line : List UInt8
  completed : List (List UInt8)

/-- Backspace takes the last character back, Enter completes the line, cut to 127
    characters, and any other key adds the character it types. -/
def Typist.press (s : Typist) (c : UInt8) : Typist :=
  if c = BACKSPACE_P then { s with line := s.line.dropLast }
  else if c = ENTER_KEY_P then { s with line := [], completed := s.completed ++ [s.line.take 127 ++ [10]] }
  else { s with kbd := modifiers s.kbd c, line := s.line ++ (typed s.kbd c).toList }

/-- A line as the driver keeps it: no more than 128 characters. -/
abbrev EditedLine := Capped UInt8 128

/-- The key buffer begins with the line. -/
structure Holds (term : term_t) (l : EditedLine) : Prop where
  index : term.key_buf_index.toNat = l.val.length
  body : ∀ i : Fin KEY_BUF_SIZE, i.val < l.val.length → term.key_buf i = l.val.getD i 0

/-- An index of zero stands for the empty line, whatever the key buffer holds. -/
theorem holds_nil {term : term_t} (hindex : term.key_buf_index.toNat = 0) : Holds term (ofList []) :=
  ⟨hindex, fun _ hi => absurd hi (Nat.not_lt_zero _)⟩

section Holds

variable {term : term_t} {l : EditedLine} (hholds : Holds term l)
include hholds

/-- The index of a line is in the key buffer. -/
theorem Holds.index_lt : term.key_buf_index.toNat < KEY_BUF_SIZE := by
  rw [hholds.index]
  exact Nat.lt_succ_of_le l.property

/-- Only the key buffer and its index count. -/
theorem Holds.congr {term' : term_t} (hkeys : term'.key_buf = term.key_buf)
    (hindex : term'.key_buf_index = term.key_buf_index) : Holds term' l := by
  refine ⟨?_, ?_⟩
  · rw [hindex]
    exact hholds.index
  · rw [hkeys]
    exact hholds.body

/-- As long as the driver has room for a character, the line has. -/
theorem Holds.push_val (c : UInt8) (hroom : term.key_buf_index.toNat ≠ KEY_BUF_SIZE - 1) :
    (push l c).val = l.val ++ [c] := by
  have hle := l.property
  rw [hholds.index] at hroom
  simp only [KEY_BUF_SIZE] at hroom
  exact push_of_lt c (by omega)

/-- The driver adds a character where the line ends. -/
theorem Holds.addChar (c : UInt8) (hroom : term.key_buf_index.toNat ≠ KEY_BUF_SIZE - 1) :
    Holds (keyboard.addChar term c) (push l c) := by
  have hindex := hholds.index
  have hpush := hholds.push_val c hroom
  refine ⟨?_, fun i hi => ?_⟩
  · rw [addChar_index term c hholds.index_lt, hindex, hpush, List.length_append, List.length_singleton]
  · change (if i.val = term.key_buf_index.toNat then c else term.key_buf i) = _
    rw [hpush, List.length_append, List.length_singleton] at hi
    rw [hpush, getD_snoc, hindex]
    split
    · rfl
    · exact hholds.body i (by omega)

/-- Backspace. -/
theorem Holds.eraseLast (hempty : term.key_buf_index ≠ 0) : Holds (keyboard.eraseLast term) (pop l) := by
  have hindex := hholds.index
  have hlength : (pop l).val.length = l.val.length - 1 := List.length_dropLast
  refine ⟨?_, fun i hi => ?_⟩
  · rw [eraseLast_index hempty, hindex, hlength]
  · change (if i.val = term.key_buf_index.toNat - 1 then 0 else term.key_buf i) = l.val.dropLast.getD i 0
    rw [if_neg (by omega), hholds.body i (by omega), List.getD_eq_getElem?_getD, List.getD_eq_getElem?_getD,
      List.getElem?_dropLast, if_pos (by omega)]

/-- Enter makes a line of what the buffer holds. -/
theorem Holds.endLine (hnonzero : ∀ c ∈ l.val, c ≠ 0) :
    line (keyboard.endLine term) = l.val.take 127 ++ [10] := by
  have hindex := hholds.index
  have hle := l.property
  obtain ⟨last, hlast⟩ : ∃ last, last = if term.key_buf_index.toNat < KEY_BUF_SIZE - 1 then
    term.key_buf_index.toNat else KEY_BUF_SIZE - 2 := ⟨_, rfl⟩
  have htake : (l.val.take 127).length = last := by
    rw [List.length_take, hlast]
    simp only [KEY_BUF_SIZE]
    split <;> omega
  have hsize : last + 1 < KEY_BUF_SIZE := by
    rw [← htake, List.length_take]
    simp only [KEY_BUF_SIZE]
    omega
  have hkey (i : Fin KEY_BUF_SIZE) : (keyboard.endLine term).key_buf i =
      if i.val = last + 1 then 0 else if i.val = last then 10 else term.key_buf i := by
    simp only [keyboard.endLine, setKey, ← hlast]
  have hlength : (l.val.take 127 ++ [10]).length = last + 1 := by
    rw [List.length_append, htake, List.length_singleton]
  refine line_eq _ (by rw [hlength]; exact hsize) ?_ ?_ ?_
  · intro c hc
    rcases List.mem_append.mp hc with hold | hnew
    · exact hnonzero c (List.mem_of_mem_take hold)
    · rw [List.mem_singleton.mp hnew]
      decide
  · intro i hi
    rw [hlength] at hi
    rw [hkey, if_neg (by simp only; omega)]
    split
    · rename_i hat
      change i = last at hat
      rw [List.getElem_append_right (by omega), List.getElem_singleton]
    · rename_i hat
      change ¬ i = last at hat
      have hbefore : i < (l.val.take 127).length := by omega
      rw [List.getElem_append_left hbefore, List.getElem_take, hholds.body]
      · rw [List.length_take] at hbefore
        simp [List.getD_eq_getElem?_getD, List.getElem?_eq_getElem (show i < l.val.length by omega)]
      · rw [List.length_take] at hbefore
        simp only
        omega
  · rw [hkey, if_pos hlength]

end Holds

/-- The line that waits to be read, if there is one. -/
def waiting (term : term_t) : List (List UInt8) :=
  if term.new_line then [line term] else []

/-- The scheduled terminal is visible and holds the line being typed; the lines
    returned and the one that waits are the lines completed. -/
structure InOrder (con : Console) (l : List UInt8) (returned completed : List (List UInt8)) : Prop where
  visible : con.vis_term_id = con.sched_term_id
  nonzero : ∀ c ∈ l, c ≠ 0
  holds : Holds (con.terminals con.sched_term_id) (ofList l)
  nothing_typed : (con.terminals con.sched_term_id).new_line = true → l = []
  line_ne_nil : (con.terminals con.sched_term_id).new_line = true → line (con.terminals con.sched_term_id) ≠ []
  line_length : (con.terminals con.sched_term_id).new_line = true →
    (line (con.terminals con.sched_term_id)).length ≤ 128
  lines : returned ++ waiting (con.terminals con.sched_term_id) = completed

section InOrder

variable {con : Console} {l : List UInt8} {returned completed : List (List UInt8)}
  (hcon : InOrder con l returned completed)
include hcon

/-- Printing does not concern the lines. -/
theorem InOrder.prints {con' : Console} (hprints : Prints con con') : InOrder con' l returned completed := by
  obtain ⟨scrn_r, scrn_c, curs_r, curs_c, hterm⟩ := hprints.terminals con.sched_term_id
  rw [← hprints.sched_term_id] at hterm
  refine ⟨?_, hcon.nonzero, ?_, ?_, ?_, ?_, ?_⟩
  · rw [hprints.vis_term_id, hprints.sched_term_id]
    exact hcon.visible
  all_goals rw [hterm, hprints.sched_term_id]
  · exact hcon.holds.congr rfl rfl
  · exact hcon.nothing_typed
  · exact hcon.line_ne_nil
  · exact hcon.line_length
  · exact hcon.lines

theorem InOrder.nonzero_snoc {c : UInt8} (hc : c ≠ 0) : ∀ d ∈ l ++ [c], d ≠ 0 := by
  intro d hd
  rcases List.mem_append.mp hd with hold | hnew
  · exact hcon.nonzero d hold
  · rw [List.mem_singleton.mp hnew]
    exact hc

/-- Editing the line while none waits. -/
theorem InOrder.edit {term : term_t} {l' : List UInt8} (hready : (con.terminals con.sched_term_id).new_line = false)
    (hline : term.new_line = false) (hholds : Holds term (ofList l')) (hnonzero : ∀ c ∈ l', c ≠ 0) :
    InOrder (con.setTerm con.sched_term_id term) l' returned completed := by
  have hlines := hcon.lines
  rw [waiting, if_neg (by simp [hready])] at hlines
  refine ⟨hcon.visible, hnonzero, ?_, ?_, ?_, ?_, ?_⟩
  all_goals rw [Console.setTerm_sched_term_id, Console.setTerm_same]
  · exact hholds
  · simp [hline]
  · simp [hline]
  · simp [hline]
  · rw [waiting, if_neg (by simp [hline])]
    exact hlines

/-- Backspace takes the last character back. No character must have been refused before. -/
theorem InOrder.backspace (hshort : l.length ≤ 128) : InOrder (keyBackspace con) l.dropLast returned completed := by
  have hindex := hcon.holds.index
  change _ = (l.take 128).length at hindex
  rw [List.length_take] at hindex
  by_cases hempty : (con.terminals con.sched_term_id).key_buf_index = 0
  · have hnil : l = [] := by
      rw [hempty] at hindex
      exact List.length_eq_zero_iff.mp (by simp at hindex; omega)
    rw [hnil] at hcon ⊢
    simp only [keyBackspace, hcon.visible, hempty, ne_eq, not_true, if_false]
    exact hcon
  · have hready : (con.terminals con.sched_term_id).new_line = false := by
      by_contra hline
      rw [hcon.nothing_typed (by simpa using hline)] at hindex
      exact hempty (UInt32.toNat_inj.mp hindex)
    have herased := hcon.holds.eraseLast hempty
    rw [pop_ofList hshort] at herased
    rw [keyBackspace_eq con (by rwa [hcon.visible]) (by rw [hcon.visible]; exact hcon.holds.index_lt), hcon.visible]
    refine InOrder.prints (hcon.edit hready ?_ ?_ ?_) (prints_putc _ _ 8)
    · split <;> exact hready
    · split
      · exact herased.congr rfl rfl
      · exact herased
    · exact fun c hc => hcon.nonzero c (List.dropLast_subset l hc)

/-- A character is added to the line, if none waits to be read. -/
theorem InOrder.putKey {c : UInt8} (hc : c ≠ 0)
    (hready : (con.terminals con.sched_term_id).new_line = false)
    (hroom : (con.terminals con.sched_term_id).key_buf_index.toNat ≠ KEY_BUF_SIZE - 1) :
    InOrder (keyboard.putKey con c) (l ++ [c]) returned completed := by
  have hadded := hcon.holds.addChar c hroom
  rw [← ofList_snoc] at hadded
  have hline : (addChar (con.terminals con.sched_term_id) c).new_line = false := hready
  rw [putKey_eq con c (by rw [hcon.visible]; exact hcon.holds.index_lt), hcon.visible]
  exact InOrder.prints (hcon.edit hready hline hadded (hcon.nonzero_snoc hc)) (prints_putc _ _ c)

/-- A character the full buffer refuses. -/
theorem InOrder.refuse {c : UInt8} (hc : c ≠ 0)
    (hready : (con.terminals con.sched_term_id).new_line = false)
    (hfull : (con.terminals con.sched_term_id).key_buf_index.toNat = KEY_BUF_SIZE - 1) :
    InOrder con (l ++ [c]) returned completed := by
  refine ⟨hcon.visible, hcon.nonzero_snoc hc, ?_, ?_, hcon.line_ne_nil, hcon.line_length, hcon.lines⟩
  · rw [ofList_snoc, push_of_full c (hcon.holds.index.symm.trans hfull)]
    exact hcon.holds
  intro hline
  rw [hready] at hline
  cases hline

/-- Enter completes the line, cut to 127 characters, if none waits to be read. -/
theorem InOrder.enter (hready : (con.terminals con.sched_term_id).new_line = false) :
    InOrder (keyEnter con) [] returned (completed ++ [l.take 127 ++ [10]]) := by
  have hlines := hcon.lines
  rw [waiting, if_neg (by simp [hready]), List.append_nil] at hlines
  have hended := hcon.holds.endLine fun c hc => hcon.nonzero c (List.mem_of_mem_take hc)
  change _ = (l.take 128).take 127 ++ [10] at hended
  rw [List.take_take] at hended
  have hprints := prints_putc (con.setTerm con.sched_term_id (endLine (con.terminals con.sched_term_id)))
    con.sched_term_id 10
  obtain ⟨scrn_r, scrn_c, curs_r, curs_c, hterm⟩ := hprints.terminals con.sched_term_id
  rw [Console.setTerm_same] at hterm
  have hsched := hprints.sched_term_id
  have hvis := hprints.vis_term_id
  rw [keyEnter_eq, hcon.visible]
  simp only [hterm]
  have hline : line { (endLine (con.terminals con.sched_term_id)).atPos scrn_r scrn_c curs_r curs_c with
      key_buf_index := 0, new_line := true } = l.take 127 ++ [10] := hended
  refine ⟨?_, List.forall_mem_nil _, ?_, ?_, ?_, ?_, ?_⟩
  · rw [Console.setTerm_vis_term_id, Console.setTerm_sched_term_id, hsched, hvis]
    exact hcon.visible
  all_goals rw [Console.setTerm_sched_term_id, hsched, Console.setTerm_sched_term_id, Console.setTerm_same]
  · exact holds_nil rfl
  · exact fun _ => rfl
  · intro _
    rw [hline]
    simp
  · intro _
    rw [hline, List.length_append, List.length_take, List.length_singleton]
    omega
  · rw [waiting, if_pos rfl, hline, hlines]

/-- A read returns the line that waits and leaves the one that is typed. -/
theorem InOrder.read (hready : (con.terminals con.sched_term_id).new_line = true) :
    InOrder (afterRead con) l (returned ++ [line (con.terminals con.sched_term_id)]) completed := by
  have hlines := hcon.lines
  rw [waiting, if_pos hready] at hlines
  have hwipes : ¬ Wipes ((takeLine con con.sched_term_id).terminals con.vis_term_id)
      (line (con.terminals con.sched_term_id)) := fun hwipes => hcon.line_ne_nil hready hwipes.1
  have hnil := hcon.nothing_typed hready
  have hsched : (takeLine con con.sched_term_id).sched_term_id = con.sched_term_id := rfl
  rw [afterRead_eq con hwipes, hcon.visible]
  have htaken : ((takeLine con con.sched_term_id).terminals con.sched_term_id).new_line = false := by
    rw [takeLine, Console.setTerm_same]
  refine ⟨hcon.visible, hcon.nonzero, ?_, ?_, ?_, ?_, ?_⟩
  all_goals rw [Console.setTerm_sched_term_id, hsched, Console.setTerm_same]
  · rw [hnil]
    exact holds_nil (congrArg UInt32.toNat (clearLine_key_buf_index _))
  · simp [htaken]
  · simp [htaken]
  · simp [htaken]
  · rw [waiting, if_neg (by simp [htaken]), List.append_nil]
    exact hlines

end InOrder

/-- A terminal somebody types at, and the lines its reads have returned. -/
structure Session where
  kernel : Kernel
  typist : Typist
  returned : List (List UInt8)

inductive LineEvent where
  | key (c : UInt8)
  | read (m : Mem) (buf nbytes : UInt32)

/-- A key event other than CTRL and the keys that recall commands or switch terminals,
    or a `terminal_read` with room for a line. -/
def Session.step (s : Session) : LineEvent → Option Session
  | .key c =>
    if c = CTRL_KEY_P ∨ c ∈ navigationKeys then none
    else some { s with kernel := process_input s.kernel c, typist := s.typist.press c }
  | .read m buf nbytes =>
    if nbytes.toNat < 128 then none
    else (terminal_read s.kernel m buf nbytes).map fun (n, m', k) =>
      { s with
        kernel := k
        returned := s.returned ++ [(List.range n.toNat).map fun i => m' (buf + UInt32.ofNat i)] }

/-- Nothing has been typed or read yet. -/
def Session.start (k : Kernel) : Session where
  kernel := k
  typist := { kbd := k.toKeyboard, line := [], completed := [] }
  returned := []

def Session.term (s : Session) : term_t := s.kernel.terminals s.kernel.sched_term_id

/-- No Enter and no character while a line waits to be read, and no Backspace while
    characters of the line have been refused. -/
def NoTypeAhead (s : Session) : LineEvent → Prop
  | .key c =>
    (s.term.new_line = true → c ≠ ENTER_KEY_P ∧ typed s.typist.kbd c = none) ∧
      (c = BACKSPACE_P → s.typist.line.length ≤ 128)
  | .read _ _ _ => True

instance (s : Session) (ev : LineEvent) : Decidable (NoTypeAhead s ev) := by
  cases ev <;> (unfold NoTypeAhead; infer_instance)

/-- The typist's view of the modifier keys is the driver's, and the lines are in order. -/
structure Sound (s : Session) : Prop where
  ctrl : s.kernel.ctrl = false
  kbd : s.typist.kbd = s.kernel.toKeyboard
  inOrder : InOrder s.kernel.toConsole s.typist.line s.returned s.typist.completed

/-- A session begins with an empty line. What the key buffer and the screen hold does not matter.
    -/
theorem start_sound (k : Kernel) (hvisible : k.vis_term_id = k.sched_term_id) (hctrl : k.ctrl = false)
    (hindex : (k.terminals k.sched_term_id).key_buf_index = 0)
    (hready : (k.terminals k.sched_term_id).new_line = false) : Sound (Session.start k) := by
  refine ⟨hctrl, rfl, hvisible, List.forall_mem_nil _, holds_nil (congrArg UInt32.toNat hindex), ?_, ?_, ?_, ?_⟩
  · exact fun _ => rfl
  · simp [Session.start, hready]
  · simp [Session.start, hready]
  · simp [Session.start, waiting, hready]

section Sound

variable {s : Session} (hs : Sound s)
include hs

/-- A key other than the excluded ones keeps typist and driver in step. By cases on the key. -/
theorem Sound.press {c : UInt8} (hctrl : c ≠ CTRL_KEY_P) (hkey : c ∉ navigationKeys)
    (hguard : NoTypeAhead s (.key c)) :
    Sound { s with kernel := process_input s.kernel c, typist := s.typist.press c } := by
  obtain ⟨hwaits, hshort⟩ := hguard
  have hkbd := process_input_toKeyboard s.kernel c hkey hs.ctrl
  have hcon := process_input_toConsole s.kernel c hkey
  have hready (hchar : c = ENTER_KEY_P ∨ typed s.typist.kbd c ≠ none) : s.term.new_line = false := by
    by_contra hline
    obtain ⟨henter, htyped⟩ := hwaits (by simpa using hline)
    rcases hchar with h | h
    · exact henter h
    · exact h htyped
  refine ⟨?_, ?_, ?_⟩
  · change (process_input s.kernel c).toKeyboard.ctrl = false
    rw [hkbd, modifiers_ctrl _ hctrl hs.ctrl]
  · change (s.typist.press c).kbd = (process_input s.kernel c).toKeyboard
    rw [hkbd, Typist.press]
    split
    · rename_i h
      rw [h]
      exact hs.kbd
    · split
      · rename_i h
        rw [h]
        exact hs.kbd
      · rw [← hs.kbd]
  · change InOrder (process_input s.kernel c).toConsole (s.typist.press c).line s.returned (s.typist.press c).completed
    rw [hcon, Typist.press]
    by_cases hback : c = BACKSPACE_P
    · simp only [hback, if_true]
      exact hs.inOrder.backspace (hshort hback)
    by_cases henter : c = ENTER_KEY_P
    · rw [if_neg hback, if_pos henter, if_neg hback, if_pos henter]
      exact hs.inOrder.enter (hready (.inl henter))
    have hclear : ¬ (c = L_KEY_P ∧ s.kernel.ctrl = true) := fun h => absurd (hs.ctrl.symm.trans h.2) (by decide)
    rw [if_neg hback, if_neg henter, if_neg hclear, if_neg hback, if_neg henter, ← hs.kbd, hs.inOrder.visible]
    cases htyped : typed s.typist.kbd c with
    | none =>
      rw [Option.elim_none, ite_self, Option.toList_none, List.append_nil]
      exact hs.inOrder
    | some ch =>
      have hfree := hready (.inr (by simp [htyped]))
      rw [Option.elim_some, Option.toList_some]
      split
      · rename_i hfull
        exact hs.inOrder.refuse (typed_ne_zero htyped) hfree hfull
      · rename_i hroom
        exact hs.inOrder.putKey (typed_ne_zero htyped) hfree hroom

/-- A read takes the line that waits. -/
theorem Sound.read {s' : Session} {m : Mem} {buf nbytes : UInt32}
    (hstep : s.step (.read m buf nbytes) = some s') : Sound s' := by
  rw [Session.step] at hstep
  split at hstep
  · cases hstep
  rename_i hbytes
  cases hline : s.term.new_line with
  | false =>
    have hblocked : terminal_read s.kernel m buf nbytes = none := by
      rw [terminal_read, if_neg (by simpa [Session.term] using hline)]
    rw [hblocked] at hstep
    cases hstep
  | true =>
    have hlength := hs.inOrder.line_length hline
    have hdelivered := blit_line s.kernel.toConsole s.kernel.sched_term_id m buf nbytes (by omega)
    rw [terminal_read_eq s.kernel m buf nbytes hline, Option.map_some, Option.some.injEq] at hstep
    subst hstep
    refine ⟨hs.ctrl, hs.kbd, ?_⟩
    simp only [Int.toNat_natCast, hdelivered]
    exact hs.inOrder.read hline

/-- One event keeps typist and driver in step. -/
theorem Sound.step {s' : Session} {ev : LineEvent} (hguard : NoTypeAhead s ev) (hstep : s.step ev = some s') :
    Sound s' := by
  cases ev with
  | key c =>
    rw [Session.step] at hstep
    split at hstep
    · cases hstep
    · rename_i hkey
      obtain ⟨hctrl, hnav⟩ := not_or.mp hkey
      cases hstep
      exact hs.press hctrl hnav hguard
  | read m buf nbytes => exact hs.read hstep

end Sound

/-- As long as nobody types ahead, the lines returned are the lines completed, in order, but for
    the one that waits. The key buffer need not be clear at the start, and a line may have more
    characters than the buffer takes. -/
theorem lines_delivered (k : Kernel) (hvisible : k.vis_term_id = k.sched_term_id) (hctrl : k.ctrl = false)
    (hindex : (k.terminals k.sched_term_id).key_buf_index = 0)
    (hready : (k.terminals k.sched_term_id).new_line = false) (evs : List LineEvent) (s : Session)
    (hguard : Guarded Session.step NoTypeAhead (Session.start k) evs)
    (hrun : run Session.step (Session.start k) evs = some s) :
    s.returned ++ waiting s.term = s.typist.completed := by
  have hsound := run_invariant (fun s ev s' hs hguard hstep => Sound.step hs hguard hstep)
    (start_sound k hvisible hctrl hindex hready) hguard hrun
  exact hsound.inOrder.lines

theorem lines_delivered_one_line :
    let evs := [.key 0x1E, .key ENTER_KEY_P, .read (fun _ => 0) 0 128]
    ∃ s, run Session.step (Session.start multi_term.fresh) evs = some s ∧ s.returned = [[0x61, 0x0A]] ∧
      s.returned ++ waiting s.term = s.typist.completed := by
  intro evs
  have hreturned : (run Session.step (Session.start multi_term.fresh) evs).map (·.returned) = some [[0x61, 0x0A]] := by
    decide +kernel
  obtain ⟨s, hs, hs'⟩ := Option.map_eq_some_iff.mp hreturned
  exact ⟨s, hs, hs', lines_delivered multi_term.fresh (by decide +kernel) (by decide +kernel) (by decide +kernel)
    (by decide +kernel) evs s (by decide +kernel) hs⟩

/-- The line `a` is complete when `b` is typed, and the read returns `b`. -/
theorem typing_ahead_overwrites :
    ∃ s, run Session.step (Session.start multi_term.fresh)
        [.key 0x1E, .key ENTER_KEY_P, .key 0x30, .read (fun _ => 0) 0 128] = some s ∧
      s.typist.completed = [[0x61, 0x0A]] ∧ s.returned = [[0x62, 0x0A]] := by
  have hran : (run Session.step (Session.start multi_term.fresh)
      [.key 0x1E, .key ENTER_KEY_P, .key 0x30, .read (fun _ => 0) 0 128]).map (fun s =>
        (s.typist.completed, s.returned)) = some ([[0x61, 0x0A]], [[0x62, 0x0A]]) := by
    decide +kernel
  obtain ⟨s, hs, hs'⟩ := Option.map_eq_some_iff.mp hran
  obtain ⟨hcompleted, hreturned⟩ := Prod.mk.inj hs'
  exact ⟨s, hs, hcompleted, hreturned⟩

end lacos.terminal
