import LacOS.Keyboard.Buffer

open memory lacos.lib

namespace lacos.keyboard

/-- The keys that recall a command or, with ALT, switch terminals. -/
def navigationKeys : List UInt8 := [F1_KEY_P, F2_KEY_P, F3_KEY_P, UP_KEY_P, DOWN_KEY_P]

def specialKeys : List UInt8 :=
  [BACKSPACE_P, ENTER_KEY_P, CTRL_KEY_P, ALT_KEY_P, L_SHIFT_P, R_SHIFT_P, CAPS_LOCK_P] ++ navigationKeys

/-- The keys that have a meaning of their own while CTRL is held. -/
def ctrlKeys : List UInt8 := [L_KEY_P, FOUR_KEY_P, FIVE_KEY_P]

/-- The character a key press types, if any. -/
def typed (kbd : Keyboard) (c : UInt8) : Option UInt8 :=
  if c < 0x80 ∧ c ∉ specialKeys ∧ ¬ (c ∈ ctrlKeys ∧ kbd.ctrl) ∧ get_keymap kbd c ≠ 0 then some (get_keymap kbd c)
  else none

@[simp] theorem keyCtrlFour_toConsole (k : Kernel) : (keyCtrlFour k).toConsole = k.toConsole := by
  simp only [keyCtrlFour, rtc.rtc_write]
  split <;> split <;> rfl

/-- A key that types does so if there is room and it has a character. -/
theorem print_char_toConsole (k : Kernel) (c : UInt8) : (print_char k c).toConsole =
    if (k.terminals k.vis_term_id).key_buf_index.toNat = KEY_BUF_SIZE - 1 then k.toConsole
    else if get_keymap k.toKeyboard c ≠ 0 then putKey k.toConsole (get_keymap k.toKeyboard c)
    else k.toConsole := by
  simp only [print_char]
  split
  · rfl
  · split <;> rfl

/-- What a key does to the console, for every key but the navigation keys. -/
theorem process_input_toConsole (k : Kernel) (c : UInt8) (hkey : c ∉ navigationKeys) :
    (process_input k c).toConsole =
      if c = BACKSPACE_P then keyBackspace k.toConsole
      else if c = ENTER_KEY_P then keyEnter k.toConsole
      else if c = L_KEY_P ∧ k.ctrl then clear_buffer (clear_screen k.toConsole)
      else if (k.terminals k.vis_term_id).key_buf_index.toNat = KEY_BUF_SIZE - 1 then k.toConsole
      else (typed k.toKeyboard c).elim k.toConsole (putKey k.toConsole) := by
  by_cases hspecial : c ∈ specialKeys
  · have htyped : typed k.toKeyboard c = none := by simp [typed, hspecial]
    simp only [htyped, Option.elim_none, ite_self]
    simp only [specialKeys, List.mem_append, hkey, or_false, List.mem_cons, List.not_mem_nil] at hspecial
    rcases hspecial with rfl | rfl | rfl | rfl | rfl | rfl | rfl <;> rfl
  · have hall := hspecial
    simp only [specialKeys, navigationKeys, List.cons_append, List.nil_append, List.mem_cons, List.not_mem_nil,
      or_false, not_or] at hall
    by_cases hdown : c < 0x80
    · simp only [process_input, hdown, if_true, hall, if_false, cli_toKeyboard, or_false]
      by_cases hcmd : c ∈ ctrlKeys ∧ k.ctrl = true
      · obtain ⟨hmem, hctrl⟩ := hcmd
        have htyped : typed k.toKeyboard c = none := by simp [typed, hmem, hctrl]
        simp only [htyped, Option.elim_none, ite_self, hctrl, and_true]
        simp only [ctrlKeys, List.mem_cons, List.not_mem_nil, or_false] at hmem
        rcases hmem with rfl | rfl | rfl
        · rfl
        · exact keyCtrlFour_toConsole (cli k)
        · rfl
      · have htyped : typed k.toKeyboard c =
            if get_keymap k.toKeyboard c ≠ 0 then some (get_keymap k.toKeyboard c) else none := by
          simp only [typed, hdown, hspecial, hcmd, not_false_eq_true, true_and]
        have hnot : ¬ (c = L_KEY_P ∧ k.ctrl = true) ∧ ¬ (c = FOUR_KEY_P ∧ k.ctrl = true) ∧
            ¬ (c = FIVE_KEY_P ∧ k.ctrl = true) := by
          refine ⟨fun h => hcmd ⟨?_, h.2⟩, fun h => hcmd ⟨?_, h.2⟩, fun h => hcmd ⟨?_, h.2⟩⟩ <;>
            simp [ctrlKeys, h.1]
        simp only [hnot, if_false, print_char_toConsole, cli_toConsole, cli_toKeyboard, htyped]
        by_cases hmap : get_keymap k.toKeyboard c = 0
        · simp [hmap]
        · simp [hmap]
    · have htyped : typed k.toKeyboard c = none := by simp [typed, hdown]
      have hl : c ≠ L_KEY_P := by
        rintro rfl
        exact hdown (by decide)
      simp only [process_input, hdown, if_false, htyped, Option.elim_none, ite_self, hall, hl, false_and]
      repeat' split
      all_goals rfl

/-- What a scan code does to the modifier flags, make and break codes alike. No other code changes
    them, and there is no break code of ALT among the cases of the source. -/
def modifiers (kbd : Keyboard) (c : UInt8) : Keyboard :=
  if c = CTRL_KEY_P then { kbd with ctrl := true }
  else if c = ALT_KEY_P then { kbd with alt := true }
  else if c = L_SHIFT_P then { kbd with l_shift := true }
  else if c = R_SHIFT_P then { kbd with r_shift := true }
  else if c = CAPS_LOCK_P then { kbd with caps_lock := !kbd.caps_lock }
  else if c = CTRL_KEY_R then { kbd with ctrl := false }
  else if c = L_SHIFT_R then { kbd with l_shift := false }
  else if c = R_SHIFT_R then { kbd with r_shift := false }
  else kbd

/-- Without a press of Ctrl, it stays up. -/
theorem modifiers_ctrl (kbd : Keyboard) {c : UInt8} (hc : c ≠ CTRL_KEY_P) (hctrl : kbd.ctrl = false) :
    (modifiers kbd c).ctrl = false := by
  simp only [modifiers, hc, if_false]
  repeat' split
  all_goals first | exact hctrl | rfl

/-- A key that has no character types nothing. -/
theorem typed_ne_zero {kbd : Keyboard} {c ch : UInt8} (htyped : typed kbd c = some ch) : ch ≠ 0 := by
  rw [typed] at htyped
  split at htyped
  · rename_i h
    obtain ⟨-, -, -, hmap⟩ := h
    cases htyped
    exact hmap
  · cases htyped

/-- The keyboard flags and the RTC are as they were. -/
structure SameDevices (k k' : Kernel) : Prop where
  flags : k'.toKeyboard = k.toKeyboard
  rtc : k'.toRtc = k.toRtc

/-- Typing changes neither the modifier flags nor the clock. -/
theorem sameDevices_print_char (k : Kernel) (c : UInt8) : SameDevices k (print_char k c) := by
  simp only [print_char]
  split
  · exact ⟨rfl, rfl⟩
  · split
    · exact ⟨rfl, rfl⟩
    · exact ⟨rfl, rfl⟩

/-- Without Ctrl, a key that neither recalls a command nor switches terminals changes the modifier
    flags as `modifiers` says. -/
theorem process_input_toKeyboard (k : Kernel) (c : UInt8) (hkey : c ∉ navigationKeys) (hctrl : k.ctrl = false) :
    (process_input k c).toKeyboard = modifiers k.toKeyboard c := by
  have hcmd (key : UInt8) : ¬ (c = key ∧ (cli k).ctrl = true) :=
    fun h => absurd (hctrl.symm.trans h.2) (by decide)
  simp only [navigationKeys, List.mem_cons, List.not_mem_nil, or_false, not_or] at hkey
  by_cases hdown : c < 0x80
  · have hup : c ≠ CTRL_KEY_R ∧ c ≠ L_SHIFT_R ∧ c ≠ R_SHIFT_R := by
      refine ⟨?_, ?_, ?_⟩ <;> (rintro rfl; exact absurd hdown (by decide))
    simp only [process_input, modifiers, hdown, if_true, hcmd, hkey, hup, if_false, or_false]
    by_cases hback : c = BACKSPACE_P
    · subst hback
      rfl
    · by_cases henter : c = ENTER_KEY_P
      · subst henter
        rfl
      · simp only [hback, henter, if_false]
        repeat' split
        all_goals first | rfl | exact (sameDevices_print_char (cli k) c).flags
  · have hdowns : c ≠ CTRL_KEY_P ∧ c ≠ ALT_KEY_P ∧ c ≠ L_SHIFT_P ∧ c ≠ R_SHIFT_P ∧ c ≠ CAPS_LOCK_P := by
      refine ⟨?_, ?_, ?_, ?_, ?_⟩ <;> (rintro rfl; exact hdown (by decide))
    simp only [process_input, modifiers, hdown, if_false, hdowns]
    repeat' split
    all_goals rfl

end lacos.keyboard
