import LacOS.Keyboard.Erase
import LacOS.Keyboard.Modifiers
import LacOS.Terminal.Lines

open memory capped lacos.lib lacos.keyboard

namespace lacos.terminal

/-- Backspace drops the last character, and a key that types adds one if there is room. -/
def edit (kbd : Keyboard) (l : EditedLine) (c : UInt8) : EditedLine :=
  if c = BACKSPACE_P then pop l else (typed kbd c).elim l (push l)

def edits : Keyboard → EditedLine → List UInt8 → EditedLine
  | _, l, [] => l
  | kbd, l, c :: codes => edits (modifiers kbd c) (edit kbd l c) codes

/-- Codes of one line: neither Enter, nor the navigation keys, nor Ctrl+L. -/
def WithinLine : Keyboard → List UInt8 → Prop
  | _, [] => True
  | kbd, c :: codes =>
    (c ≠ ENTER_KEY_P ∧ c ∉ navigationKeys ∧ ¬(c = L_KEY_P ∧ kbd.ctrl = true)) ∧ WithinLine (modifiers kbd c) codes

instance decidableWithinLine : (kbd : Keyboard) → (codes : List UInt8) → Decidable (WithinLine kbd codes)
  | _, [] => isTrue trivial
  | kbd, c :: codes =>
    have := decidableWithinLine (modifiers kbd c) codes
    inferInstanceAs (Decidable (_ ∧ _))

/-- The key buffer holds the line and zeros behind it. -/
structure HoldsLine (term : term_t) (l : EditedLine) : Prop extends Holds term l where
  blank : ∀ i : Fin KEY_BUF_SIZE, l.val.length ≤ i.val → term.key_buf i = 0

/-- The zeros behind a line have to be shown besides. -/
theorem Holds.holdsLine {term : term_t} {l : EditedLine} (hholds : Holds term l)
    (hstores : Stores term.key_buf 0 l.val) : HoldsLine term l :=
  ⟨hholds, fun i hi => (hstores i).trans (List.getD_eq_default _ _ hi)⟩

section HoldsLine

variable {term : term_t} {l : EditedLine} (hholds : HoldsLine term l)
include hholds

theorem HoldsLine.stores : Stores term.key_buf 0 l.val := by
  intro i
  rcases Nat.lt_or_ge i.val l.val.length with hbody | hblank
  · exact hholds.body i hbody
  · rw [hholds.blank i hblank, List.getD_eq_default _ _ hblank]

theorem HoldsLine.prints {con con' : Console} {t : Fin MAX_TERM_NUM} (hprints : Prints con con')
    (hterm : con.terminals t = term) : HoldsLine (con'.terminals t) l := by
  obtain ⟨scrn_r, scrn_c, curs_r, curs_c, hat⟩ := hprints.terminals t
  rw [hat, hterm]
  exact ⟨hholds.toHolds.congr rfl rfl, hholds.blank⟩

/-- Erasing the last character puts a zero in its place. -/
theorem HoldsLine.eraseLast (hempty : term.key_buf_index ≠ 0) : HoldsLine (eraseLast term) (pop l) := by
  refine (hholds.toHolds.eraseLast hempty).holdsLine ?_
  have hdropped := hholds.stores.dropLast
  rwa [← hholds.index] at hdropped

/-- A character is put behind the line, where a zero was. -/
theorem HoldsLine.addChar (c : UInt8) (hroom : term.key_buf_index.toNat ≠ KEY_BUF_SIZE - 1) :
    HoldsLine (addChar term c) (push l c) := by
  refine (hholds.toHolds.addChar c hroom).holdsLine ?_
  have hadded := hholds.stores.append c
  rwa [← hholds.index, ← hholds.push_val c hroom] at hadded

/-- Enter. -/
theorem HoldsLine.endLine : Stores (endLine term).key_buf 0 (l.val.take 127 ++ [10]) := by
  refine hholds.stores.terminate 10 l.property ?_
  rw [hholds.index]
  have hle := l.property
  simp only [KEY_BUF_SIZE]
  split <;> omega

end HoldsLine

/-- While a line is typed that began in the state `start`. -/
structure Typing (start k : Kernel) (kbd : Keyboard) (l : EditedLine) : Prop where
  vis_term_id : k.vis_term_id = start.vis_term_id
  sched_term_id : k.sched_term_id = start.sched_term_id
  flags : k.toKeyboard = { kbd with rtc_loop := k.rtc_loop }
  nonzero : ∀ c ∈ l.val, c ≠ 0
  holds : HoldsLine (k.terminals start.vis_term_id) l

/-- Typing can begin on a terminal with an empty key buffer, if the driver has the same modifier
    keys down. -/
theorem typing_start {k : Kernel} {kbd : Keyboard} (hflags : k.toKeyboard = { kbd with rtc_loop := k.rtc_loop })
    (hkeys : ∀ i, (k.terminals k.vis_term_id).key_buf i = 0)
    (hindex : (k.terminals k.vis_term_id).key_buf_index = 0) : Typing k k kbd empty :=
  ⟨rfl, rfl, hflags, List.forall_mem_nil _, (holds_nil (congrArg UInt32.toNat hindex)).holdsLine hkeys⟩

/-- `modifiers` does not look at `rtc_loop`. -/
theorem modifiers_rtc_loop (kbd : Keyboard) (rtc_loop : Bool) (c : UInt8) :
    modifiers { kbd with rtc_loop } c = { modifiers kbd c with rtc_loop } := by
  by_cases hmod : c ∈ modifierCodes
  · simp only [modifierCodes, List.mem_cons, List.not_mem_nil, or_false] at hmod
    rcases hmod with rfl | rfl | rfl | rfl | rfl | rfl | rfl | rfl
    all_goals rfl
  · rw [modifiers_other _ hmod, modifiers_other _ hmod]

section Typing

variable {start k : Kernel} {kbd : Keyboard} {l : EditedLine} (hk : Typing start k kbd l)
include hk

/-- What a key types depends on the modifier keys only. -/
theorem Typing.typed (c : UInt8) : typed k.toKeyboard c = keyboard.typed kbd c := by
  rw [hk.flags]
  rfl

/-- No key puts a zero into the line. -/
theorem Typing.nonzero_edit (c : UInt8) : ∀ d ∈ (edit kbd l c).val, d ≠ 0 := by
  rw [edit]
  split
  · exact fun d hd => hk.nonzero d (List.dropLast_subset _ hd)
  · cases htyped : keyboard.typed kbd c with
    | none => exact hk.nonzero
    | some ch =>
      rw [Option.elim_some, push]
      split
      · intro d hd
        rcases List.mem_append.mp hd with hold | hnew
        · exact hk.nonzero d hold
        · rw [List.mem_singleton.mp hnew]
          exact typed_ne_zero htyped
      · exact hk.nonzero

/-- A code that leaves the line in the key buffer as `edit` does. -/
theorem Typing.next {c : UInt8} {term : term_t}
    (hprints : Prints (k.toConsole.setTerm start.vis_term_id term) (process_input k c).toConsole)
    (hholds : HoldsLine term (edit kbd l c)) :
    Typing start (process_input k c) (modifiers kbd c) (edit kbd l c) := by
  obtain ⟨rtc_loop, hflags⟩ := process_input_flags k c
  refine ⟨hprints.vis_term_id.trans hk.vis_term_id, hprints.sched_term_id.trans hk.sched_term_id, ?_,
    hk.nonzero_edit c, hholds.prints hprints (Console.setTerm_same _ _ _)⟩
  rw [hflags, hk.flags, modifiers_rtc_loop]

/-- A key that does nothing to the console and nothing to the line is one that the line allows. -/
theorem Typing.unchanged {c : UInt8} (hcon : (process_input k c).toConsole = k.toConsole)
    (hedit : edit kbd l c = l) : Typing start (process_input k c) (modifiers kbd c) (edit kbd l c) := by
  have hprints : Prints (k.toConsole.setTerm start.vis_term_id (k.terminals start.vis_term_id))
      (process_input k c).toConsole := by
    rw [hcon, Console.setTerm_self]
    exact Prints.refl _
  refine hk.next hprints ?_
  rw [hedit]
  exact hk.holds

/-- Backspace drops the last character, or nothing from an empty line. -/
theorem Typing.backspace : Typing start (process_input k BACKSPACE_P) (modifiers kbd BACKSPACE_P)
    (edit kbd l BACKSPACE_P) := by
  have hcon := process_input_toConsole k BACKSPACE_P (by decide)
  rw [if_pos rfl] at hcon
  have hindex := hk.holds.index
  by_cases hempty : (k.terminals start.vis_term_id).key_buf_index = 0
  · rw [hempty] at hindex
    refine hk.unchanged ?_ (pop_of_nil (List.length_eq_zero_iff.mp hindex.symm))
    rw [hcon, keyBackspace, hk.vis_term_id, hempty]
    rfl
  · have hprints := prints_keyBackspace k.toConsole (by rwa [hk.vis_term_id])
      (by rw [hk.vis_term_id]; exact hk.holds.index_lt)
    rw [← hcon, hk.vis_term_id] at hprints
    exact hk.next hprints (hk.holds.eraseLast hempty)

/-- One code of the line. -/
theorem Typing.key {c : UInt8} (henter : c ≠ ENTER_KEY_P) (hnav : c ∉ navigationKeys)
    (hclear : ¬(c = L_KEY_P ∧ kbd.ctrl = true)) :
    Typing start (process_input k c) (modifiers kbd c) (edit kbd l c) := by
  by_cases hback : c = BACKSPACE_P
  · rw [hback]
    exact hk.backspace
  have hctrl : k.ctrl = kbd.ctrl := by rw [hk.flags]
  have hcon := process_input_toConsole k c hnav
  rw [if_neg hback, if_neg henter, hctrl, if_neg hclear, hk.typed, hk.vis_term_id] at hcon
  have hedit : edit kbd l c = (keyboard.typed kbd c).elim l (push l) := if_neg hback
  cases htyped : keyboard.typed kbd c with
  | none =>
    rw [htyped] at hcon hedit
    exact hk.unchanged (hcon.trans (ite_self _)) hedit
  | some ch =>
    rw [htyped] at hcon hedit
    by_cases hfull : (k.terminals start.vis_term_id).key_buf_index.toNat = KEY_BUF_SIZE - 1
    · rw [if_pos hfull] at hcon
      exact hk.unchanged hcon (hedit.trans (push_of_full ch (hk.holds.index.symm.trans hfull)))
    · have hprints := prints_putKey k.toConsole ch (by rw [hk.vis_term_id]; exact hk.holds.index_lt)
      rw [if_neg hfull] at hcon
      rw [Option.elim_some] at hcon hedit
      rw [← hcon, hk.vis_term_id] at hprints
      refine hk.next hprints ?_
      rw [hedit]
      exact hk.holds.addChar ch hfull

end Typing

/-- All codes of a line. -/
theorem Typing.inputs {start k : Kernel} {kbd : Keyboard} {l : EditedLine} (hk : Typing start k kbd l)
    {codes : List UInt8} (hcodes : WithinLine kbd codes) :
    Typing start (inputs k codes) (codes.foldl modifiers kbd) (edits kbd l codes) := by
  induction codes generalizing k kbd l with
  | nil => exact hk
  | cons c codes ih =>
    obtain ⟨⟨henter, hnav, hclear⟩, hrest⟩ := hcodes
    exact ih (hk.key henter hnav hclear) hrest

/-- A list of characters with zeros behind it is a line. -/
theorem line_of_stores {term : term_t} {l : List UInt8} (hkeys : Stores term.key_buf 0 l)
    (hlength : l.length < KEY_BUF_SIZE) (hnonzero : ∀ c ∈ l, c ≠ 0) : line term = l := by
  refine line_eq term hlength hnonzero (fun i hi => ?_) ?_
  · rw [hkeys, List.getD_eq_getElem _ _ hi]
  · rw [hkeys, List.getD_eq_default _ _ (Nat.le_refl _)]

/-- Enter has ended the line `l`, which waits to be read. -/
structure Entered (start k : Kernel) (l : List UInt8) : Prop where
  vis_term_id : k.vis_term_id = start.vis_term_id
  sched_term_id : k.sched_term_id = start.sched_term_id
  new_line : (k.terminals start.vis_term_id).new_line = true
  key_buf : Stores (k.terminals start.vis_term_id).key_buf 0 l
  line : line (k.terminals start.vis_term_id) = l

/-- Enter ends the line, which is cut to 127 characters to have room for the newline. -/
theorem Typing.enter {start k : Kernel} {kbd : Keyboard} {l : EditedLine} (hk : Typing start k kbd l) :
    Entered start (process_input k ENTER_KEY_P) (l.val.take 127 ++ [10]) := by
  have hcon : (process_input k ENTER_KEY_P).toConsole = keyEnter k.toConsole := rfl
  have hprints := prints_putc (k.toConsole.setTerm start.vis_term_id
    (endLine (k.terminals start.vis_term_id))) start.vis_term_id 10
  obtain ⟨scrn_r, scrn_c, curs_r, curs_c, hterm⟩ := hprints.terminals start.vis_term_id
  rw [Console.setTerm_same] at hterm
  rw [keyEnter_eq, hk.vis_term_id] at hcon
  have hkeys : Stores ((process_input k ENTER_KEY_P).terminals start.vis_term_id).key_buf 0
      (l.val.take 127 ++ [10]) := by
    rw [hcon, Console.setTerm_same, hterm]
    exact hk.holds.endLine
  refine ⟨?_, ?_, ?_, hkeys, line_of_stores hkeys ?_ ?_⟩
  · rw [hcon, Console.setTerm_vis_term_id, hprints.vis_term_id]
    exact hk.vis_term_id
  · rw [hcon, Console.setTerm_sched_term_id, hprints.sched_term_id]
    exact hk.sched_term_id
  · rw [hcon, Console.setTerm_same]
  · rw [List.length_append, List.length_take, List.length_singleton]
    simp only [KEY_BUF_SIZE]
    omega
  · intro c hc
    rcases List.mem_append.mp hc with hold | hnew
    · exact hk.nonzero c (List.mem_of_mem_take hold)
    · rw [List.mem_singleton.mp hnew]
      decide

/-- The read delivers the line and leaves the key buffer empty. -/
theorem Entered.read {start k : Kernel} {l : List UInt8} (hk : Entered start k l)
    (hvisible : start.vis_term_id = start.sched_term_id) (hnil : l ≠ []) (m : Mem) {buf nbytes : UInt32}
    (hbytes : l.length ≤ nbytes.toNat) :
    ∃ m' k', terminal_read k m buf nbytes = some ((l.length : Int), m', k') ∧
      (List.range l.length).map (fun i => m' (buf + UInt32.ofNat i)) = l ∧
      (∀ i, (k'.terminals start.vis_term_id).key_buf i = 0) ∧
      (k'.terminals start.vis_term_id).key_buf_index = 0 := by
  have hsched : k.sched_term_id = start.vis_term_id := hk.sched_term_id.trans hvisible.symm
  have hread := terminal_read_eq k m buf nbytes (by rw [hsched]; exact hk.new_line)
  have hbytes' := blit_line k.toConsole start.vis_term_id m buf nbytes (by rwa [hk.line])
  have hafter := afterRead_eq k.toConsole fun hwipes => hnil (by
    have hempty := hwipes.1
    rwa [hsched, hk.line] at hempty)
  rw [hsched, hk.line] at hread
  rw [hk.line] at hbytes'
  rw [hk.vis_term_id, hsched, hk.line] at hafter
  have hkeys : ((takeLine k.toConsole start.vis_term_id).terminals start.vis_term_id).key_buf =
      (k.terminals start.vis_term_id).key_buf := by
    rw [takeLine, Console.setTerm_same]
  refine ⟨_, _, hread, hbytes', fun i => ?_, ?_⟩
  · rw [sti_toConsole, Kernel.onConsole_toConsole, cli_toConsole, hafter, Console.setTerm_same]
    simp only [clearLine, line_record, record_key_buf, takeLine_line, hk.line, hkeys]
    exact hk.key_buf.clear i
  · rw [sti_toConsole, Kernel.onConsole_toConsole, cli_toConsole, hafter, Console.setTerm_same]
    rfl

/-- The line editor: from an empty key buffer of the terminal that is visible and scheduled, the
    buffer is at every moment the line typed so far. Enter makes it a line of at most 127
    characters and a newline, and the next read delivers that line and leaves the buffer empty.
    Modifier keys may be held or pressed on the way, and the history may hold anything. -/
theorem line_editor (k : Kernel) (hvisible : k.vis_term_id = k.sched_term_id)
    (hkeys : ∀ i, (k.terminals k.vis_term_id).key_buf i = 0)
    (hindex : (k.terminals k.vis_term_id).key_buf_index = 0) (codes : List UInt8)
    (hcodes : WithinLine k.toKeyboard codes) :
    let l := edits k.toKeyboard empty codes
    let entered := process_input (inputs k codes) ENTER_KEY_P
    HoldsLine ((inputs k codes).terminals k.vis_term_id) l ∧
      Stores (entered.terminals k.vis_term_id).key_buf 0 (l.val.take 127 ++ [10]) ∧
      ∀ (m : Mem) (buf nbytes : UInt32), (l.val.take 127 ++ [10]).length ≤ nbytes.toNat →
        ∃ m' k', terminal_read entered m buf nbytes = some (((l.val.take 127 ++ [10]).length : Int), m', k') ∧
          (List.range (l.val.take 127 ++ [10]).length).map (fun i => m' (buf + UInt32.ofNat i)) =
            l.val.take 127 ++ [10] ∧
          (∀ i, (k'.terminals k.vis_term_id).key_buf i = 0) ∧
          (k'.terminals k.vis_term_id).key_buf_index = 0 := by
  intro l entered
  have hstart : Typing k k k.toKeyboard empty := typing_start rfl hkeys hindex
  have htyped : Typing k (inputs k codes) (codes.foldl modifiers k.toKeyboard) l := hstart.inputs hcodes
  have hentered : Entered k entered (l.val.take 127 ++ [10]) := htyped.enter
  refine ⟨htyped.holds, hentered.key_buf, fun m buf nbytes hbytes => ?_⟩
  exact hentered.read hvisible (by simp) m hbytes

/-- Shift and a letter, a letter taken back by Backspace, and a letter. -/
theorem line_editor_capital :
    let codes := [L_SHIFT_P, 0x1E, L_SHIFT_R, 0x30, BACKSPACE_P, 0x2E]
    (edits multi_term.fresh.toKeyboard empty codes).val = [0x41, 0x63] ∧
      ∃ m' k', terminal_read (process_input (inputs multi_term.fresh codes) ENTER_KEY_P) (fun _ => 0) 0 128 =
        some (3, m', k') ∧ (List.range 3).map (fun i => m' (0 + UInt32.ofNat i)) = [0x41, 0x63, 10] := by
  intro codes
  obtain ⟨-, -, hread⟩ := line_editor multi_term.fresh (by decide +kernel) (by decide +kernel) (by decide +kernel)
    codes (by decide +kernel)
  have hline : (edits multi_term.fresh.toKeyboard empty codes).val = [0x41, 0x63] := by decide +kernel
  rw [hline] at hread
  obtain ⟨m', k', hread, hbytes, -, -⟩ := hread (fun _ => 0) 0 128 (by decide)
  exact ⟨hline, m', k', hread, hbytes⟩

end lacos.terminal
