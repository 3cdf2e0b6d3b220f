import LacOS.Keyboard.Input
import LacOS.Lib.Tape

open memory layout lacos.lib

namespace lacos.keyboard

/-- The keys that do something to a line other than typing, or may do so after them. -/
def lineKeys : List UInt8 := [BACKSPACE_P, ENTER_KEY_P, CTRL_KEY_P] ++ navigationKeys

/-- The characters that a sequence of keys types. -/
def echoed : Keyboard → List UInt8 → List UInt8
  | _, [] => []
  | kbd, c :: codes => (typed kbd c).toList ++ echoed (modifiers kbd c) codes

def inputs (k : Kernel) (codes : List UInt8) : Kernel := codes.foldl process_input k

/-- How often `putc` scrolls for a key that types, which is once or not at all. -/
def scrollsOn (k : Kernel) (c : UInt8) : Nat :=
  match typed k.toKeyboard c with
  | none => 0
  | some ch =>
    if (k.terminals k.vis_term_id).key_buf_index.toNat = KEY_BUF_SIZE - 1 then 0
    else if NUM_ROWS ≤ ((beforeScroll k.toConsole k.vis_term_id ch).terminals k.vis_term_id).scrn_r.toNat then 1
    else 0

def scrolls (k : Kernel) : List UInt8 → Nat
  | [] => 0
  | c :: codes => scrollsOn k c + scrolls (process_input k c) codes

/-- A byte of the key buffer, by an index that need not be one of its own. -/
def keyAt (term : term_t) (i : Nat) : UInt8 := if h : i < KEY_BUF_SIZE then term.key_buf ⟨i, h⟩ else 0

/-- The visible screen and the rows that have not come up yet, which will be blank. -/
def original (k : Kernel) (q : Nat) : UInt8 × UInt8 :=
  if q < 2000 then (screen k.toConsole k.vis_term_id).glyph q else (0x20, k.color)

def startPos (k : Kernel) : Nat := (screen k.toConsole k.vis_term_id).pos

/-- The control characters of a key map stand at Backspace and Enter. -/
theorem key_maps_printable : ∀ map ∈ [caps_shift_key_map, shift_key_map, caps_key_map, reg_key_map],
    ∀ ch ∈ (map.set BACKSPACE_P.toNat 0).set ENTER_KEY_P.toNat 0, ch ∉ [8, 10, 13] := by
  decide +kernel

/-- No key but Backspace and Enter types a character that moves the position by other than one. -/
theorem get_keymap_printable (kbd : Keyboard) {c : UInt8} (hback : c ≠ BACKSPACE_P) (henter : c ≠ ENTER_KEY_P) :
    get_keymap kbd c ∉ [8, 10, 13] := by
  have hmap : ∃ map ∈ [caps_shift_key_map, shift_key_map, caps_key_map, reg_key_map],
      get_keymap kbd c = map.getD c.toNat 0 := by
    unfold get_keymap
    repeat' split
    · exact ⟨_, by simp, rfl⟩
    · exact ⟨_, by simp, rfl⟩
    · exact ⟨_, by simp, rfl⟩
    · exact ⟨_, by simp, rfl⟩
  obtain ⟨map, hmem, hget⟩ := hmap
  have hset : map.getD c.toNat 0 = ((map.set BACKSPACE_P.toNat 0).set ENTER_KEY_P.toNat 0).getD c.toNat 0 := by
    rw [List.getD_eq_getElem?_getD, List.getD_eq_getElem?_getD,
      List.getElem?_set_ne (fun h => henter (UInt8.toNat_inj.mp h).symm),
      List.getElem?_set_ne (fun h => hback (UInt8.toNat_inj.mp h).symm)]
  rw [hget, hset]
  generalize hlist : (map.set BACKSPACE_P.toNat 0).set ENTER_KEY_P.toNat 0 = l
  rcases Nat.lt_or_ge c.toNat l.length with hlt | hge
  · rw [List.getD_eq_getElem _ _ hlt]
    exact key_maps_printable map hmem _ (hlist ▸ List.getElem_mem hlt)
  · rw [List.getD_eq_default _ _ hge]
    decide

/-- No key types a control character that `putc` knows. -/
theorem typed_printable {kbd : Keyboard} {c ch : UInt8} (htyped : typed kbd c = some ch) :
    ¬ (ch = 10 ∨ ch = 13) ∧ ch ≠ 8 := by
  rw [typed] at htyped
  split at htyped
  · rename_i h
    obtain ⟨-, hspecial, -, -⟩ := h
    cases htyped
    have hprint := get_keymap_printable kbd (c := c) (fun h => hspecial (h ▸ by decide))
      (fun h => hspecial (h ▸ by decide))
    simp only [List.mem_cons, List.not_mem_nil, or_false, not_or] at hprint
    obtain ⟨h8, h10, h13⟩ := hprint
    exact ⟨not_or.mpr ⟨h10, h13⟩, h8⟩
  · cases htyped

section Console

variable {con : Console} {t : Fin MAX_TERM_NUM} (hvis : con.vis_term_id = t)
include hvis

/-- A character typed is printed on the visible screen. -/
theorem screen_putKey {ch : UInt8} (hindex : (con.terminals t).key_buf_index.toNat < KEY_BUF_SIZE)
    (hpos : (screen con t).InBounds) (hback : ch ≠ 8) :
    screen (putKey con ch) t = (screen con t).putc con.color ch := by
  subst hvis
  have hscreen : screen (con.setTerm con.vis_term_id (addChar (con.terminals con.vis_term_id) ch))
      con.vis_term_id = screen con con.vis_term_id := by
    simp only [screen, Console.setTerm_same]
    rfl
  rw [putKey_eq con ch hindex, putc_eq _ _ _ (by rwa [hscreen]), if_neg (fun h => hback h.1), screen_showCursor,
    screen_install, hscreen]
  rfl

variable (hempty : (con.terminals t).key_buf_index ≠ 0)
  (hindex : (con.terminals t).key_buf_index.toNat < KEY_BUF_SIZE)
include hempty hindex

/-- Backspace erases on the visible screen. In the very first place of the screen it would leave
    it. -/
theorem screen_keyBackspace (hpos : (screen con t).InBounds)
    (hrow : (con.terminals t).scrn_c = 0 → (con.terminals t).scrn_r.toNat ≠ 0) :
    screen (keyBackspace con) t = (screen con t).erase con.color := by
  subst hvis
  obtain ⟨term, hterm⟩ : ∃ term, term = if (con.terminals con.vis_term_id).scrn_c = 0 then
      { eraseLast (con.terminals con.vis_term_id) with
        scrn_r := (con.terminals con.vis_term_id).scrn_r - 1, scrn_c := UInt8.ofNat NUM_COLS }
    else eraseLast (con.terminals con.vis_term_id) := ⟨_, rfl⟩
  have hscreen : screen (con.setTerm con.vis_term_id term) con.vis_term_id =
      if (con.terminals con.vis_term_id).scrn_c = 0 then
        { screen con con.vis_term_id with scrn_r := (con.terminals con.vis_term_id).scrn_r - 1, scrn_c := 80 }
      else screen con con.vis_term_id := by
    simp only [screen, Console.setTerm_same, hterm]
    split <;> rfl
  have hback : keyBackspace con = putc (con.setTerm con.vis_term_id term) con.vis_term_id 8 := by
    rw [keyBackspace_eq con hempty hindex, hterm]
    rfl
  have hcol : term.scrn_c ≠ 0 := by
    rw [hterm]
    split
    · exact show UInt8.ofNat NUM_COLS ≠ 0 by decide
    · rename_i hne
      exact hne
  have hbounds : (screen (con.setTerm con.vis_term_id term) con.vis_term_id).InBounds := by
    rw [hscreen]
    split
    · rename_i hzero
      have hrow' : ((con.terminals con.vis_term_id).scrn_r - 1).toNat ≤ 24 := by
        rw [byte_pred fun h => hrow hzero (congrArg UInt8.toNat h)]
        exact Nat.le_trans (Nat.sub_le _ _) hpos.1
      exact ⟨hrow', Nat.le_refl 80⟩
    · exact hpos
  rw [hback, putc_eq _ _ _ hbounds, Console.setTerm_same, if_neg (fun h => hcol h.2), screen_showCursor,
    screen_install, hscreen]
  rfl

end Console

/-- Setting a byte of the key buffer changes no other one. -/
theorem keyAt_setKey (term : term_t) {i : Nat} (value : UInt8) (hi : i < KEY_BUF_SIZE) :
    keyAt (setKey term i value) = Function.update (keyAt term) i value := by
  funext j
  rw [Function.update_apply, keyAt, keyAt]
  by_cases hj : j < KEY_BUF_SIZE
  · rw [dif_pos hj, dif_pos hj]
    rfl
  · rw [dif_neg hj, dif_neg hj, if_neg (by omega)]

/-- Between the first key of a line and now, `line` is what has been typed and not erased, at
    most `m` characters were on the line at once, and the screen has scrolled `n` times. -/
structure Editing (start k : Kernel) (line : List UInt8) (m n : Nat) : Prop where
  vis : k.vis_term_id = start.vis_term_id
  ctrl : k.ctrl = false
  color : k.color = start.color
  index : (k.terminals start.vis_term_id).key_buf_index.toNat = line.length
  key_buf : keyAt (k.terminals start.vis_term_id) =
    edited 0 0 m (keyAt (start.terminals start.vis_term_id)) line
  length : line.length ≤ m
  high : m ≤ 128
  tape : OnTape start.color
    (edited (0x20, start.color) (startPos start) m (original start) (line.map (·, start.color))) n
    (startPos start + line.length) (screen k.toConsole start.vis_term_id)
  scrolled : 0 < n → 80 * n + 1920 < startPos start + m

section Editing

variable {start k : Kernel} {line : List UInt8} {m n : Nat} (hk : Editing start k line m n)
include hk

theorem Editing.index_lt : (k.terminals start.vis_term_id).key_buf_index.toNat < KEY_BUF_SIZE := by
  have hlength := hk.length
  have hhigh := hk.high
  rw [hk.index]
  simp only [KEY_BUF_SIZE]
  omega

/-- The start of the line has not been scrolled out. -/
theorem Editing.start_le : 80 * n ≤ startPos start := by
  have hhigh := hk.high
  have hscrolled := hk.scrolled
  omega

/-- Another kernel in the course of the same line. -/
theorem Editing.next {k' : Kernel} {term : term_t} {line' : List UInt8} {m' n' : Nat}
    (hprints : Prints (k.toConsole.setTerm start.vis_term_id term) k'.toConsole) (hctrl : k'.ctrl = false)
    (hindex : term.key_buf_index.toNat = line'.length)
    (hkeys : keyAt term = edited 0 0 m' (keyAt (start.terminals start.vis_term_id)) line')
    (hlength : line'.length ≤ m') (hhigh : m' ≤ 128)
    (htape : OnTape start.color
      (edited (0x20, start.color) (startPos start) m' (original start) (line'.map (·, start.color))) n'
      (startPos start + line'.length) (screen k'.toConsole start.vis_term_id))
    (hscrolled : 0 < n' → 80 * n' + 1920 < startPos start + m') : Editing start k' line' m' n' := by
  obtain ⟨scrn_r, scrn_c, curs_r, curs_c, hterm⟩ := hprints.terminals start.vis_term_id
  rw [Console.setTerm_same] at hterm
  refine ⟨hprints.vis_term_id.trans hk.vis, hctrl, hprints.color.trans hk.color, ?_, ?_, hlength, hhigh, htape,
    hscrolled⟩
  · rw [hterm]
    exact hindex
  · rw [hterm]
    exact hkeys

/-- A character scrolls the screen exactly if its place is behind the last one. -/
theorem Editing.scrollsOn {c ch : UInt8} (htyped : typed k.toKeyboard c = some ch) (hroom : line.length < 128) :
    keyboard.scrollsOn k c = if startPos start + line.length = 80 * n + 2000 then 1 else 0 := by
  obtain ⟨hnewline, -⟩ := typed_printable htyped
  obtain ⟨hrow, hcol⟩ := hk.tape.in_bounds
  have hpos := hk.tape.pos_eq
  have hindex := hk.index
  simp only [screen] at hrow hcol hpos
  have hfree : ¬ (k.terminals start.vis_term_id).key_buf_index.toNat = KEY_BUF_SIZE - 1 := by
    simp only [KEY_BUF_SIZE]
    omega
  have hcarry := carry_row hrow hcol
  simp only [keyboard.scrollsOn, htyped, hk.vis, if_neg hfree, beforeScroll, if_neg hnewline,
    Console.setTerm_same, hcarry, NUM_ROWS]
  exact if_congr (by omega) rfl rfl

/-- A key that types adds its character to the line and the screen, with a scroll if it is needed.
    -/
theorem Editing.type {c ch : UInt8} (hc : c ∉ lineKeys) (htyped : typed k.toKeyboard c = some ch)
    (hroom : line.length < 128) :
    Editing start (process_input k c) (line ++ [ch]) (max m (line.length + 1)) (n + keyboard.scrollsOn k c) := by
  simp only [lineKeys, List.mem_append, List.mem_cons, List.not_mem_nil, or_false, not_or] at hc
  obtain ⟨⟨hback, henter, hctrl⟩, hnav⟩ := hc
  have hlength := hk.length
  have hindex := hk.index
  have hfree : ¬ (k.terminals k.vis_term_id).key_buf_index.toNat = KEY_BUF_SIZE - 1 := by
    rw [hk.vis]
    simp only [KEY_BUF_SIZE]
    omega
  have hcon : (process_input k c).toConsole = putKey k.toConsole ch := by
    rw [process_input_toConsole k c hnav, if_neg hback, if_neg henter,
      if_neg (fun h => absurd (hk.ctrl.symm.trans h.2) (by decide)), if_neg hfree, htyped]
    rfl
  obtain ⟨hnewline, hprint⟩ := typed_printable htyped
  have hprints := prints_putKey k.toConsole ch (by rw [hk.vis]; exact hk.index_lt)
  rw [← hcon, hk.vis] at hprints
  refine hk.next hprints ?_ ?_ ?_ ?_ ?_ ?_ ?_
  · rw [process_input_toKeyboard k c hnav hk.ctrl]
    exact modifiers_ctrl _ hctrl hk.ctrl
  · rw [addChar_index _ _ hk.index_lt, hindex, List.length_append]
    rfl
  · have hset := keyAt_setKey { k.terminals start.vis_term_id with
      key_buf_index := (k.terminals start.vis_term_id).key_buf_index + 1 } ch hk.index_lt
    rw [edited_snoc _ _ _ _ _ hlength, ← hk.key_buf, Nat.zero_add, ← hindex]
    exact hset
  · rw [List.length_append]
    exact Nat.le_max_right _ _
  · have hhigh := hk.high
    omega
  · have htape := hk.tape.putc hnewline hprint
    have hmap : (line.map (·, start.color)).length = line.length := List.length_map _
    have hsnoc := edited_snoc (0x20, start.color) (startPos start) (m := m) (original start)
      (line.map (·, start.color)) (ch, start.color) (by rwa [hmap])
    rw [hmap] at hsnoc
    have hcount : n + keyboard.scrollsOn k c =
        if startPos start + line.length = 80 * n + 2000 then n + 1 else n := by
      rw [hk.scrollsOn htyped hroom]
      split
      · rfl
      · rfl
    rw [hcon, screen_putKey hk.vis hk.index_lt hk.tape.in_bounds hprint, hk.color, hcount, List.map_append,
      List.map_singleton, hsnoc, List.length_append, List.length_singleton, ← Nat.add_assoc]
    exact htape
  · -- A scroll makes room for this character, which is then the first one of the last row.
    have hscrolled := hk.scrolled
    rw [hk.scrollsOn htyped hroom]
    split
    · omega
    · omega

/-- A key that types nothing changes neither. -/
theorem Editing.silent {c : UInt8} (hc : c ∉ lineKeys) (htyped : typed k.toKeyboard c = none) :
    Editing start (process_input k c) line m n := by
  simp only [lineKeys, List.mem_append, List.mem_cons, List.not_mem_nil, or_false, not_or] at hc
  obtain ⟨⟨hback, henter, hctrl⟩, hnav⟩ := hc
  have hcon : (process_input k c).toConsole = k.toConsole := by
    rw [process_input_toConsole k c hnav, if_neg hback, if_neg henter,
      if_neg (fun h => absurd (hk.ctrl.symm.trans h.2) (by decide)), htyped]
    exact ite_self _
  have hsame : Prints (k.toConsole.setTerm start.vis_term_id (k.terminals start.vis_term_id))
      (process_input k c).toConsole := by
    rw [hcon, Console.setTerm_self]
    exact Prints.refl _
  refine hk.next hsame ?_ hk.index hk.key_buf hk.length hk.high ?_ hk.scrolled
  · rw [process_input_toKeyboard k c hnav hk.ctrl]
    exact modifiers_ctrl _ hctrl hk.ctrl
  · rw [hcon]
    exact hk.tape

end Editing

/-- Backspace takes the last character from both, but not the place it was in, nor the scroll. -/
theorem Editing.erase {start k : Kernel} {line : List UInt8} {ch : UInt8} {m n : Nat}
    (hk : Editing start k (line ++ [ch]) m n) : Editing start (process_input k BACKSPACE_P) line m n := by
  have hlength := hk.length
  have hindex := hk.index
  rw [List.length_append, List.length_singleton] at hlength hindex
  have hempty : (k.terminals start.vis_term_id).key_buf_index ≠ 0 := by
    intro h
    rw [h] at hindex
    exact absurd hindex (Nat.succ_ne_zero _).symm
  have hcon : (process_input k BACKSPACE_P).toConsole = keyBackspace k.toConsole := by
    rw [process_input_toConsole k _ (by decide), if_pos rfl]
  have hstart := hk.start_le
  have hbefore : 80 * n < startPos start + (line ++ [ch]).length := by
    rw [List.length_append, List.length_singleton]
    omega
  have hprints := prints_keyBackspace k.toConsole (by rwa [hk.vis]) (by rw [hk.vis]; exact hk.index_lt)
  rw [← hcon, hk.vis] at hprints
  refine hk.next hprints ?_ ?_ ?_ (by omega) hk.high ?_ hk.scrolled
  · rw [process_input_toKeyboard k _ (by decide) hk.ctrl]
    exact hk.ctrl
  · rw [eraseLast_index hempty, hindex]
    rfl
  · have hset := keyAt_setKey { k.terminals start.vis_term_id with
      key_buf_index := (k.terminals start.vis_term_id).key_buf_index - 1 } 0
      (i := (k.terminals start.vis_term_id).key_buf_index.toNat - 1) (by have hlt := hk.index_lt; omega)
    rw [edited_erase 0 0 _ line ch hlength, ← hk.key_buf, Nat.zero_add,
      show line.length = (k.terminals start.vis_term_id).key_buf_index.toNat - 1 by omega]
    exact hset
  · have htape := hk.tape.erase hbefore
    have hmap : (line.map (·, start.color)).length = line.length := List.length_map _
    have herase := edited_erase (0x20, start.color) (startPos start) (original start) (line.map (·, start.color))
      (ch, start.color) (by rwa [hmap])
    rw [hmap] at herase
    rw [hcon, screen_keyBackspace hk.vis hempty hk.index_lt hk.tape.in_bounds (hk.tape.row_pos hbefore), hk.color,
      herase]
    rw [List.map_append, List.map_singleton, List.length_append, List.length_singleton, ← Nat.add_assoc,
      Nat.add_sub_cancel] at htape
    exact htape

section Inputs

theorem inputs_append (k : Kernel) (keys backs : List UInt8) :
    inputs k (keys ++ backs) = inputs (inputs k keys) backs :=
  List.foldl_append

theorem scrolls_append (k : Kernel) (keys backs : List UInt8) :
    scrolls k (keys ++ backs) = scrolls k keys + scrolls (inputs k keys) backs := by
  induction keys generalizing k with
  | nil => exact (Nat.zero_add _).symm
  | cons c keys ih =>
    rw [List.cons_append, scrolls, ih, ← Nat.add_assoc]
    rfl

theorem echoed_append (kbd : Keyboard) (keys backs : List UInt8) :
    echoed kbd (keys ++ backs) = echoed kbd keys ++ echoed (keys.foldl modifiers kbd) backs := by
  induction keys generalizing kbd with
  | nil => rfl
  | cons c keys ih =>
    rw [List.cons_append, echoed, ih, ← List.append_assoc]
    rfl

theorem scrollsOn_of_silent {k : Kernel} {c : UInt8} (htyped : typed k.toKeyboard c = none) :
    scrollsOn k c = 0 := by
  rw [scrollsOn, htyped]

theorem not_navigation {c : UInt8} (hc : c ∉ lineKeys) : c ∉ navigationKeys :=
  fun h => hc (List.mem_append_right _ h)

/-- Without Ctrl the keys change the modifier flags only by what they are. -/
theorem inputs_toKeyboard {k : Kernel} (hctrl : k.ctrl = false) {keys : List UInt8}
    (hkeys : ∀ c ∈ keys, c ∉ lineKeys) : (inputs k keys).toKeyboard = keys.foldl modifiers k.toKeyboard := by
  induction keys generalizing k with
  | nil => rfl
  | cons c keys ih =>
    have hc := hkeys c List.mem_cons_self
    have hkbd := process_input_toKeyboard k c (not_navigation hc) hctrl
    have hctrl' : (process_input k c).ctrl = false := by
      rw [hkbd]
      exact modifiers_ctrl _ (fun h => hc (h ▸ by decide)) hctrl
    rw [inputs, List.foldl_cons, List.foldl_cons, ← hkbd]
    exact ih hctrl' fun c hc => hkeys c (List.mem_cons_of_mem _ hc)

end Inputs

section Runs

variable {start k : Kernel} {line : List UInt8} {m n : Nat}

/-- At first the line is empty and nothing has scrolled. The key buffer may hold anything. -/
theorem Editing.refl (hctrl : k.ctrl = false) (hindex : (k.terminals k.vis_term_id).key_buf_index = 0)
    (hpos : (screen k.toConsole k.vis_term_id).InBounds) : Editing k k [] 0 0 where
  vis := rfl
  ctrl := hctrl
  color := rfl
  index := congrArg UInt32.toNat hindex
  key_buf := (edited_unused 0 0 _ []).symm
  length := Nat.le_refl 0
  high := Nat.zero_le _
  tape := by
    rw [edited_unused]
    exact hpos.onTape k.color
  scrolled h := absurd h (Nat.lt_irrefl 0)

/-- Typing adds the characters to the line, whatever other keys are pressed in between. -/
theorem Editing.type_all (hk : Editing start k line line.length n) (keys : List UInt8)
    (hkeys : ∀ c ∈ keys, c ∉ lineKeys) (hroom : (line ++ echoed k.toKeyboard keys).length ≤ 128) :
    Editing start (inputs k keys) (line ++ echoed k.toKeyboard keys) (line ++ echoed k.toKeyboard keys).length
      (n + scrolls k keys) := by
  induction keys generalizing k line n with
  | nil =>
    rw [echoed, List.append_nil]
    exact hk
  | cons c keys ih =>
    have hc := hkeys c List.mem_cons_self
    have hrest : ∀ c ∈ keys, c ∉ lineKeys := fun c hc => hkeys c (List.mem_cons_of_mem _ hc)
    have hkbd := process_input_toKeyboard k c (not_navigation hc) hk.ctrl
    rw [echoed, ← hkbd] at hroom ⊢
    rw [scrolls]
    cases htyped : typed k.toKeyboard c with
    | none =>
      rw [htyped] at hroom
      rw [scrollsOn_of_silent htyped, Nat.zero_add]
      exact ih (hk.silent hc htyped) hrest hroom
    | some ch =>
      rw [htyped, Option.toList_some, ← List.append_assoc] at hroom
      have hline : line.length < 128 := by
        simp only [List.length_append, List.length_singleton] at hroom
        omega
      have htype := hk.type hc htyped hline
      rw [show max line.length (line.length + 1) = (line ++ [ch]).length by
        rw [List.length_append, List.length_singleton, Nat.max_eq_right (Nat.le_succ _)]] at htype
      rw [Option.toList_some, ← List.append_assoc, ← Nat.add_assoc]
      exact ih htype hrest hroom

/-- Every Backspace takes one character off the line again. -/
theorem Editing.erase_all (hk : Editing start k line m n) (backs : List UInt8)
    (hbacks : ∀ c ∈ backs, c = BACKSPACE_P ∨ c ∉ lineKeys) (hquiet : echoed k.toKeyboard backs = [])
    (hcount : backs.count BACKSPACE_P ≤ line.length) :
    Editing start (inputs k backs) (line.take (line.length - backs.count BACKSPACE_P)) m n ∧
      scrolls k backs = 0 := by
  induction backs generalizing k line with
  | nil =>
    rw [List.count_nil, Nat.sub_zero, List.take_length]
    exact ⟨hk, rfl⟩
  | cons c backs ih =>
    have hrest : ∀ c ∈ backs, c = BACKSPACE_P ∨ c ∉ lineKeys := fun c hc => hbacks c (List.mem_cons_of_mem _ hc)
    obtain ⟨htyped, hquiet⟩ := List.append_eq_nil_iff.mp hquiet
    rw [Option.toList_eq_nil_iff] at htyped
    rw [scrolls, scrollsOn_of_silent htyped, Nat.zero_add]
    by_cases hback : c = BACKSPACE_P
    · subst hback
      rw [List.count_cons_self] at hcount ⊢
      obtain rfl | ⟨init, ch, rfl⟩ := List.eq_nil_or_concat line
      · exact absurd hcount (Nat.not_succ_le_zero _)
      · rw [List.concat_eq_append] at hk hcount ⊢
        rw [List.length_append, List.length_singleton] at hcount ⊢
        rw [Nat.add_sub_add_right, List.take_append_of_le_length (Nat.sub_le _ _)]
        rw [← process_input_toKeyboard k _ (by decide) hk.ctrl] at hquiet
        exact ih hk.erase hrest hquiet (Nat.le_of_succ_le_succ hcount)
    · have hc := (hbacks c List.mem_cons_self).resolve_left hback
      rw [← process_input_toKeyboard k c (not_navigation hc) hk.ctrl] at hquiet
      rw [List.count_cons_of_ne hback] at hcount ⊢
      exact ih (hk.silent hc htyped) hrest hquiet hcount

end Runs

/-- A line is typed and as many characters are erased again, with no other key in between
    that concerns the line. -/
structure TypeAndErase (kbd : Keyboard) (keys backs : List UInt8) : Prop where
  typing : ∀ c ∈ keys, c ∉ lineKeys
  length : (echoed kbd keys).length ≤ 128
  erasing : ∀ c ∈ backs, c = BACKSPACE_P ∨ c ∉ lineKeys
  quiet : echoed (keys.foldl modifiers kbd) backs = []
  count : backs.count BACKSPACE_P = (echoed kbd keys).length

/-- Position `q` shows a typed character after the keys `before`. -/
def Echoes (k : Kernel) (before : List UInt8) (q : Nat) : Prop :=
  startPos k ≤ q + 80 * scrolls k before ∧
    q + 80 * scrolls k before < startPos k + (echoed k.toKeyboard before).length

instance (k : Kernel) (before : List UInt8) (q : Nat) : Decidable (Echoes k before q) :=
  inferInstanceAs (Decidable (_ ∧ _))

/-- Backspaces undo the keys before them but for the scrolling. -/
structure EraseUndoes (k : Kernel) (keys backs : List UInt8) : Prop where
  key_buf_index : ((inputs k (keys ++ backs)).terminals k.vis_term_id).key_buf_index = 0
  key_buf : ∀ i : Fin KEY_BUF_SIZE, ((inputs k (keys ++ backs)).terminals k.vis_term_id).key_buf i =
    if i < (echoed k.toKeyboard keys).length then 0 else (k.terminals k.vis_term_id).key_buf i
  pos : (screen (inputs k (keys ++ backs)).toConsole k.vis_term_id).pos + 80 * scrolls k (keys ++ backs) =
    startPos k
  echo : ∀ before, before <+: keys → ∀ q < 2000, Echoes k before q →
    (screen (inputs k before).toConsole k.vis_term_id).glyph q =
      ((echoed k.toKeyboard before).getD (q + 80 * scrolls k before - startPos k) 0x20, k.color)
  blank : ∀ before, before <+: keys → ∀ q < 2000, Echoes k before q →
    (screen (inputs k (keys ++ backs)).toConsole k.vis_term_id).glyph q = (0x20, k.color)
  others : ∀ q < 2000, ¬ Echoes k keys q →
    (screen (inputs k (keys ++ backs)).toConsole k.vis_term_id).glyph q =
      original k (q + 80 * scrolls k (keys ++ backs))
  in_bounds : ∀ before, before <+: backs → (screen (inputs k (keys ++ before)).toConsole k.vis_term_id).InBounds
  no_underflow : ∀ before, before ++ [BACKSPACE_P] <+: backs →
    ((inputs k (keys ++ before)).terminals k.vis_term_id).scrn_c = 0 →
    ((inputs k (keys ++ before)).terminals k.vis_term_id).scrn_r ≠ 0

section Undo

variable {k : Kernel} {keys backs : List UInt8} (hstart : Editing k k [] 0 0)
  (hline : TypeAndErase k.toKeyboard keys backs)
include hstart hline

/-- After some of the keys, the line is what they have typed, and nothing has been erased. -/
theorem editing_keys {before : List UInt8} (hbefore : before <+: keys) :
    Editing k (inputs k before) (echoed k.toKeyboard before) (echoed k.toKeyboard before).length
      (scrolls k before) := by
  obtain ⟨after, hkeys⟩ := hbefore
  have hlength := hline.length
  rw [← hkeys, echoed_append, List.length_append] at hlength
  have hrun := hstart.type_all before (fun c hc => hline.typing c (hkeys ▸ List.mem_append_left _ hc))
    (Nat.le_trans (Nat.le_add_right _ _) hlength)
  rwa [List.nil_append, Nat.zero_add] at hrun

/-- After some Backspaces the line is what they have left, and nothing has scrolled since. -/
theorem editing_backs {before : List UInt8} (hbefore : before <+: backs) :
    Editing k (inputs k (keys ++ before))
      ((echoed k.toKeyboard keys).take ((echoed k.toKeyboard keys).length - before.count BACKSPACE_P))
      (echoed k.toKeyboard keys).length (scrolls k keys) ∧ scrolls k (keys ++ before) = scrolls k keys := by
  obtain ⟨after, hbacks⟩ := hbefore
  have hquiet := hline.quiet
  have hcount := hline.count
  rw [← hbacks, echoed_append, List.append_eq_nil_iff, ← inputs_toKeyboard hstart.ctrl hline.typing] at hquiet
  rw [← hbacks, List.count_append] at hcount
  obtain ⟨hrun, hscrolls⟩ := (editing_keys hstart hline (List.prefix_refl keys)).erase_all before
    (fun c hc => hline.erasing c (hbacks ▸ List.mem_append_left _ hc)) hquiet.1 (by omega)
  rw [inputs_append, scrolls_append, hscrolls]
  exact ⟨hrun, rfl⟩

/-- In the end the line is empty, with the places that have been used known. -/
theorem editing_end : Editing k (inputs k (keys ++ backs)) [] (echoed k.toKeyboard keys).length
    (scrolls k (keys ++ backs)) := by
  obtain ⟨hrun, hscrolls⟩ := editing_backs hstart hline (List.prefix_refl backs)
  rw [hline.count, Nat.sub_self, List.take_zero] at hrun
  rwa [hscrolls]

end Undo

section Glyphs

variable {k : Kernel} {keys backs : List UInt8} (hstart : Editing k k [] 0 0)
  (hline : TypeAndErase k.toKeyboard keys backs)
include hstart hline

/-- While the line is typed, its places show its characters. -/
theorem glyph_echo {before : List UInt8} (hbefore : before <+: keys) {q : Nat} (hq : q < 2000)
    (hecho : Echoes k before q) : (screen (inputs k before).toConsole k.vis_term_id).glyph q =
      ((echoed k.toKeyboard before).getD (q + 80 * scrolls k before - startPos k) 0x20, k.color) := by
  rw [(editing_keys hstart hline hbefore).tape.glyph q hq, edited]
  exact (if_pos hecho).trans (List.getD_map _ 0x20 (·, k.color))

/-- In the end these places are blank, and the others are as they were but for the scrolling. -/
theorem glyph_end {q : Nat} (hq : q < 2000) :
    (screen (inputs k (keys ++ backs)).toConsole k.vis_term_id).glyph q =
      if Echoes k keys q then (0x20, k.color) else original k (q + 80 * scrolls k keys) := by
  obtain ⟨hrun, hscrolls⟩ := editing_backs hstart hline (List.prefix_refl backs)
  have hend := editing_end hstart hline
  rw [hscrolls] at hend
  rw [hend.tape.glyph q hq, edited, List.map_nil, List.getD_nil]
  rfl

/-- A cell that showed a typed character before a scroll is above the last typed character or
    in a new row. -/
theorem glyph_blank {before : List UInt8} (hbefore : before <+: keys) {q : Nat} (hq : q < 2000)
    (hecho : Echoes k before q) :
    (screen (inputs k (keys ++ backs)).toConsole k.vis_term_id).glyph q = (0x20, k.color) := by
  rw [glyph_end hstart hline hq]
  split
  · rfl
  · rename_i hnot
    have hscrolled := (editing_keys hstart hline (List.prefix_refl keys)).scrolled
    obtain ⟨after, rfl⟩ := hbefore
    rw [Echoes, scrolls_append, echoed_append, List.length_append] at hnot
    rw [scrolls_append, echoed_append, List.length_append] at hscrolled
    rw [Echoes] at hecho
    -- There was a scroll since, so the line ends in a row that came up blank, and this cell is behind it.
    rw [scrolls_append, original, if_neg (by omega)]

end Glyphs

/-- Typing up to 128 characters and erasing them again leaves the key buffer empty and the
    position where it was, counting the scrolls; the cells they were shown in are blank, all
    others have only moved up, and Backspace never goes above the first row. Other keys may be
    pressed in between, and the screen may scroll while the line is typed. -/
theorem erase_undoes_echo (k : Kernel) (keys backs : List UInt8) (hctrl : k.ctrl = false)
    (hindex : (k.terminals k.vis_term_id).key_buf_index = 0)
    (hrow : (k.terminals k.vis_term_id).scrn_r.toNat ≤ 24) (hcol : (k.terminals k.vis_term_id).scrn_c.toNat ≤ 80)
    (hline : TypeAndErase k.toKeyboard keys backs) : EraseUndoes k keys backs := by
  have hstart := Editing.refl hctrl hindex ⟨hrow, hcol⟩
  have hend := editing_end hstart hline
  refine ⟨UInt32.toNat_inj.mp hend.index, fun i => ?_, hend.tape.pos, fun before hbefore q hq hecho =>
    glyph_echo hstart hline hbefore hq hecho, fun before hbefore q hq hecho =>
    glyph_blank hstart hline hbefore hq hecho, fun q hq hnot => ?_, fun before hbefore =>
    (editing_backs hstart hline hbefore).1.tape.in_bounds, fun before hbefore hzero hfirst => ?_⟩
  · have hkey := congrFun hend.key_buf i
    simp only [keyAt, edited, i.isLt, dif_pos, Nat.zero_le, true_and, Nat.zero_add, List.getD_nil] at hkey
    exact hkey
  · rw [glyph_end hstart hline hq, if_neg hnot, (editing_backs hstart hline (List.prefix_refl backs)).2]
  · have hrun := (editing_backs hstart hline ((List.prefix_append _ _).trans hbefore)).1
    have hcount := hbefore.sublist.count_le BACKSPACE_P
    rw [List.count_append, List.count_singleton_self, hline.count] at hcount
    have hle := hrun.start_le
    refine hrun.tape.row_pos ?_ hzero (congrArg UInt8.toNat hfirst)
    rw [List.length_take]
    omega

/-- Behind the last cell of the screen. -/
def lastCell : Kernel :=
  { blankMachine with terminals := fun t => { blankMachine.terminals t with scrn_r := 24, scrn_c := 80 } }

theorem erase_undoes_echo_scrolled :
    scrolls lastCell [L_SHIFT_P, 0x1E, L_SHIFT_R] = 1 ∧
      EraseUndoes lastCell [L_SHIFT_P, 0x1E, L_SHIFT_R] [BACKSPACE_P] := by
  refine ⟨by decide +kernel, erase_undoes_echo _ _ _ rfl rfl (by decide) (by decide) ⟨?_, ?_, ?_, ?_, ?_⟩⟩
  · decide +kernel
  · decide +kernel
  · decide +kernel
  · decide +kernel
  · decide +kernel

end lacos.keyboard
