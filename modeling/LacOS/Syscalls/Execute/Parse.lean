import LacOS.Syscalls.Execute

open memory lacos.lib lacos.file_system

namespace lacos

/-- `command[i]` -/
def CString.get (command : CString) (i : Nat) : UInt8 := command.chars.getD i 0

/-- Reading stops at the terminator. -/
theorem CString.get_of_drop_nil {command : CString} {i : Nat} (hdrop : command.chars.drop i = []) :
    command.get i = 0 :=
  List.getD_eq_default _ _ (List.drop_eq_nil_iff.mp hdrop)

/-- Reading goes on with the next character, which is not the terminator. -/
theorem CString.get_of_drop_cons {command : CString} {i : Nat} {c : UInt8} {rest : List UInt8}
    (hdrop : command.chars.drop i = c :: rest) :
    command.get i = c ∧ c ≠ 0 ∧ command.chars.drop (i + 1) = rest := by
  have hlt : i < command.chars.length := by
    by_contra hlong
    rw [List.drop_eq_nil_of_le (Nat.not_lt.mp hlong)] at hdrop
    cases hdrop
  rw [List.drop_eq_getElem_cons hlt] at hdrop
  obtain ⟨rfl, hrest⟩ := List.cons.inj hdrop
  exact ⟨List.getD_eq_getElem _ _ hlt, fun hzero => command.nonzero (hzero ▸ List.getElem_mem hlt), hrest⟩

/-- A string written with its terminator after it. -/
theorem writeString_eq_store (m : Mem) (d : UInt32) {s : List UInt8} (hlength : s.length < 2 ^ 32) :
    writeString m d s = store (fillWith m d (fun i => s.getD i 0) s.length) (d + UInt32.ofNat s.length) 0 := by
  funext a
  by_cases ha : a = d + UInt32.ofNat s.length
  · have hoffset := offset_toNat d hlength
    rw [← ha] at hoffset
    rw [store, ha, Function.update_self, writeString, fillWith_inside _ _ _ (by omega) (by omega), getD_append_default,
      List.getD_eq_default _ _ (Nat.le_refl _)]
  · rw [store, Function.update_of_ne ha, writeString]
    by_cases hin : (a - d).toNat < s.length
    · simp only [fillWith, hin, Nat.lt_succ_of_lt hin, if_true, getD_append_default]
    · have hne : (a - d).toNat ≠ s.length := by
        intro heq
        apply ha
        rw [← heq, UInt32.ofNat_toNat, UInt32.add_comm, UInt32.sub_add_cancel]
      rw [fillWith_outside _ (by omega), fillWith_outside _ (by omega)]

namespace syscalls

/-- `while(command[i] == ' ' && command[i] != '\0') i++;` -/
def skipLoop (command : CString) : Nat → Nat → Nat
  | 0, i => i
  | n + 1, i => if command.get i = 0x20 ∧ command.get i ≠ 0 then skipLoop command n (i + 1) else i

/-- The loop that copies the word to `cmd`. -/
def wordLoop (command : CString) : Nat → Mem → Nat → Nat → Mem × Nat × Nat
  | 0, cmd, i, j => (cmd, i, j)
  | n + 1, cmd, i, j =>
    if command.get i ≠ 0x20 ∧ command.get i ≠ 0 ∧ j < cmd_buf_size then
      wordLoop command n (store cmd (UInt32.ofNat j) (command.get i)) (i + 1) (j + 1)
    else (cmd, i, j)

/-- The loop that copies the rest of the command to `arg`. -/
def argLoop (command : CString) : Nat → Mem → Nat → Nat → Mem × Nat
  | 0, arg, _, j => (arg, j)
  | n + 1, arg, i, j =>
    if command.get i ≠ 0 then argLoop command n (store arg (UInt32.ofNat j) (command.get i)) (i + 1) (j + 1)
    else (arg, j)

/-- `cmd` with the first word of the command in it, and how far the command has been read. -/
def parseWord (command : CString) (cmd : Mem) : Mem × Nat :=
  let i := skipLoop command command.chars.length 0
  let (cmd, i, j) := wordLoop command command.chars.length cmd i 0
  (store cmd (UInt32.ofNat j) 0, i)

/-- `arg` with the command from `i` on in it. -/
def storeArg (command : CString) (arg : Mem) (i : Nat) : Mem :=
  let i := skipLoop command command.chars.length i
  let (arg, j) := argLoop command command.chars.length arg i 0
  store arg (UInt32.ofNat j) 0

/-- `cmd_name`, behind `arg`, cleared and filled. -/
def storeName (tail cmd : Mem) : Mem :=
  let tail := memset tail CMD_NAME 0 (UInt32.ofNat (cmd_buf_size + 1))
  memcpy_from tail CMD_NAME cmd 0 (UInt32.ofNat (cmd_buf_size + 1))

section Loops

variable {command : CString} {fuel i j : Nat} {rest : List UInt8}

/-- The first loop skips the spaces. -/
theorem skipLoop_drop (hrest : command.chars.drop i = rest) (hfuel : rest.length ≤ fuel) :
    command.chars.drop (skipLoop command fuel i) = skipSpaces rest := by
  induction rest generalizing fuel i with
  | nil =>
    have hget := CString.get_of_drop_nil hrest
    cases fuel with
    | zero => exact hrest
    | succ n =>
      rw [skipLoop, if_neg fun h => h.2 hget]
      exact hrest
  | cons c rest ih =>
    obtain ⟨hget, hc, hnext⟩ := CString.get_of_drop_cons hrest
    obtain ⟨n, rfl⟩ := Nat.exists_eq_add_of_lt (Nat.lt_of_lt_of_le (Nat.succ_pos _) hfuel)
    rw [Nat.zero_add, skipLoop, hget, skipSpaces]
    by_cases hspace : c = 0x20
    · rw [if_pos ⟨hspace, hc⟩, ih hnext (by simp only [List.length_cons] at hfuel; omega),
        List.dropWhile_cons_of_pos (by simpa using hspace), skipSpaces]
    · rw [if_neg fun h => hspace h.1, List.dropWhile_cons_of_neg (by simpa using hspace)]
      exact hrest

/-- The second loop copies the word, up to 32 characters of it. By induction on what is left of
    the command. -/
theorem wordLoop_eq (cmd : Mem) (hrest : command.chars.drop i = rest) (hfuel : rest.length ≤ fuel)
    {word : List UInt8} (hword : (rest.takeWhile (· ≠ 0x20)).take (cmd_buf_size - j) = word) :
    wordLoop command fuel cmd i j =
      (fillWith cmd (UInt32.ofNat j) (fun i => word.getD i 0) word.length, i + word.length, j + word.length) := by
  induction rest generalizing fuel i j cmd word with
  | nil =>
    have hget := CString.get_of_drop_nil hrest
    obtain rfl : [] = word := by simpa using hword
    cases fuel with
    | zero => simp [wordLoop]
    | succ n => simp [wordLoop, hget]
  | cons c rest ih =>
    obtain ⟨hget, hc, hnext⟩ := CString.get_of_drop_cons hrest
    obtain ⟨n, rfl⟩ := Nat.exists_eq_add_of_lt (Nat.lt_of_lt_of_le (Nat.succ_pos _) hfuel)
    rw [Nat.zero_add, wordLoop, hget]
    by_cases hcopied : c ≠ 0x20 ∧ j < cmd_buf_size
    · obtain ⟨hspace, hj⟩ := hcopied
      have hroom : cmd_buf_size - j = cmd_buf_size - (j + 1) + 1 := by omega
      rw [List.takeWhile_cons_of_pos (by simpa using hspace), hroom, List.take_succ_cons] at hword
      subst hword
      have hlength : ((rest.takeWhile (· ≠ 0x20)).take (cmd_buf_size - (j + 1))).length ≤ cmd_buf_size :=
        Nat.le_trans (List.length_take_le _ _) (Nat.sub_le _ _)
      rw [if_pos ⟨hspace, hc, hj⟩, ih _ hnext (by simp only [List.length_cons] at hfuel; omega) rfl,
        List.length_cons, fillWith_cons _ _ _ _ (by simp only [cmd_buf_size] at hlength ⊢; omega),
        UInt32.ofNat_add, Nat.add_right_comm, Nat.add_right_comm j]
      rfl
    · have hnil : [] = word := by
        rw [← hword]
        by_cases hspace : c = 0x20
        · rw [List.takeWhile_cons_of_neg (by simpa using hspace), List.take_nil]
        · have hj : cmd_buf_size - j = 0 := by
            have hfull := not_and.mp hcopied hspace
            omega
          rw [hj, List.take_zero]
      subst hnil
      rw [if_neg fun h => hcopied ⟨h.1, h.2.2⟩]
      simp

/-- The third loop copies the rest, with no regard to the size of `arg`. -/
theorem argLoop_eq (arg : Mem) (hrest : command.chars.drop i = rest) (hfuel : rest.length ≤ fuel)
    (hlength : rest.length < 2 ^ 32) : argLoop command fuel arg i j =
      (fillWith arg (UInt32.ofNat j) (fun i => rest.getD i 0) rest.length, j + rest.length) := by
  induction rest generalizing fuel i j arg with
  | nil =>
    have hget := CString.get_of_drop_nil hrest
    cases fuel with
    | zero => simp [argLoop]
    | succ n => simp [argLoop, hget]
  | cons c rest ih =>
    obtain ⟨hget, hc, hnext⟩ := CString.get_of_drop_cons hrest
    obtain ⟨n, rfl⟩ := Nat.exists_eq_add_of_lt (Nat.lt_of_lt_of_le (Nat.succ_pos _) hfuel)
    simp only [List.length_cons] at hfuel hlength
    rw [Nat.zero_add, argLoop, hget, if_pos hc, ih _ hnext (by omega) (by omega), List.length_cons,
      fillWith_cons _ _ _ _ hlength, UInt32.ofNat_add, Nat.add_right_comm]
    rfl

end Loops

section Command

variable (command : CString)

theorem commandWord_length_le : (commandWord command).length ≤ cmd_buf_size := List.length_take_le _ _

/-- The argument is no longer than the command. -/
theorem commandArg_length_le : (commandArg command).length ≤ command.chars.length := by
  refine Nat.le_trans (List.dropWhile_sublist _).length_le ?_
  rw [List.length_drop]
  exact Nat.le_trans (Nat.sub_le _ _) (List.dropWhile_sublist _).length_le

/-- The loops put the command's word into `cmd` and stop behind it. -/
theorem parseWord_eq (locals : Locals) : (parseWord command locals.cmd).1 = cmd locals command ∧
    command.chars.drop (parseWord command locals.cmd).2 =
      (skipSpaces command.chars).drop (commandWord command).length := by
  have hskip : command.chars.drop (skipLoop command command.chars.length 0) = skipSpaces command.chars :=
    skipLoop_drop List.drop_zero (Nat.le_refl _)
  have hle : (skipSpaces command.chars).length ≤ command.chars.length := (List.dropWhile_sublist _).length_le
  have hlength := commandWord_length_le command
  simp only [cmd_buf_size] at hlength
  have hword := wordLoop_eq locals.cmd hskip hle (j := 0) (show _ = commandWord command from rfl)
  simp only [parseWord, hword]
  constructor
  · rw [cmd, writeString_eq_store _ _ (by omega), Nat.zero_add, UInt32.zero_add]
    rfl
  · rw [← List.drop_drop, hskip]

/-- The loops put the command's argument into `arg`. -/
theorem storeArg_eq (hlength : command.chars.length < 2 ^ 32) (locals : Locals) (arg : Mem) :
    storeArg command arg (parseWord command locals.cmd).2 = writeString arg 0 (commandArg command) := by
  obtain ⟨-, hdrop⟩ := parseWord_eq command locals
  have hle := commandArg_length_le command
  have hfuel : ((skipSpaces command.chars).drop (commandWord command).length).length ≤ command.chars.length := by
    rw [List.length_drop]
    exact Nat.le_trans (Nat.sub_le _ _) (List.dropWhile_sublist _).length_le
  have hskip : command.chars.drop (skipLoop command command.chars.length (parseWord command locals.cmd).2) =
      commandArg command := skipLoop_drop hdrop hfuel
  have harg := argLoop_eq arg hskip hle (Nat.lt_of_le_of_lt hle hlength) (j := 0)
  simp only [storeArg, harg]
  rw [writeString_eq_store _ _ (Nat.lt_of_le_of_lt hle hlength), Nat.zero_add, UInt32.zero_add]
  rfl

/-- What the new block gets is what the loops write. -/
theorem storeCommand_eq (hlength : command.chars.length < 2 ^ 32) (blk : pcb_t) (locals : Locals) :
    storeCommand blk locals command =
      { blk with
        tail := storeArg command (storeName blk.tail (parseWord command locals.cmd).1)
          (parseWord command locals.cmd).2 } := by
  rw [storeArg_eq command hlength, (parseWord_eq command locals).1]
  rfl

end Command

/-- The bytes of `cmd_name`, which follow those of `arg`. -/
def InName (a : UInt32) : Prop := (a - CMD_NAME).toNat < cmd_buf_size + 1

/-- Storing the name does not write outside of `cmd_name`. -/
theorem storeName_outside (tail cmd : Mem) {a : UInt32} (ha : ¬ InName a) : storeName tail cmd a = tail a := by
  have hout : (UInt32.ofNat (cmd_buf_size + 1)).toNat ≤ (a - CMD_NAME).toNat := Nat.not_lt.mp ha
  rw [storeName, memcpy_from_eq_blit, memset_eq_fillWith, blit_outside _ _ hout, fillWith_outside _ hout]

/-- Nothing stops the copy of the argument but its end: it stays inside `arg` exactly if it
    has no more than 128 characters. -/
theorem storeArg_inside_iff (command : CString) (hlength : command.chars.length < 2 ^ 32) (locals : Locals) :
    (∀ (tail : Mem) (a : UInt32), KEY_BUF_SIZE ≤ a.toNat →
      storeArg command tail (parseWord command locals.cmd).2 a = tail a) ↔
        (commandArg command).length < KEY_BUF_SIZE := by
  constructor
  · intro hinside
    by_contra hlong
    have hle := commandArg_length_le command
    have hsize : KEY_BUF_SIZE < (commandArg command).length + 1 := Nat.lt_succ_of_le (Nat.not_lt.mp hlong)
    -- The byte behind `arg` takes a value it need not have had.
    obtain ⟨value, hvalue⟩ : ∃ value, value ≠ (commandArg command ++ [0]).getD KEY_BUF_SIZE 0 :=
      ⟨(commandArg command ++ [0]).getD KEY_BUF_SIZE 0 + 1, by simp⟩
    have hkept := hinside (fun _ => value) (UInt32.ofNat KEY_BUF_SIZE) (Nat.le_refl _)
    rw [storeArg_eq command hlength, writeString, ← UInt32.zero_add (UInt32.ofNat KEY_BUF_SIZE),
      fillWith_inside _ _ _ hsize (by omega)] at hkept
    exact hvalue hkept.symm
  · intro hshort tail a ha
    rw [storeArg_eq command hlength, writeString]
    apply fillWith_outside
    rw [UInt32.sub_zero]
    exact Nat.le_trans hshort ha

end syscalls

end lacos
