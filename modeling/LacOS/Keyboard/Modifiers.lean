import Mathlib.Data.List.Induction
import LacOS.Keyboard.Input

open memory lacos.lib

namespace lacos.keyboard

/-- The release code of ALT, which the source does not look for. -/
abbrev ALT_KEY_R : UInt8 := 0xB8

/-- The key with the codes `make` and `release` is down: of the two, the last one was `make`. -/
def held (make release : UInt8) (codes : List UInt8) : Bool :=
  codes.reverse.find? (fun c => c = make ∨ c = release) = some make

section Held

variable {make release : UInt8} {codes : List UInt8}

/-- The last code decides, if it is one of the two. -/
theorem held_snoc (hne : release ≠ make) (c : UInt8) : held make release (codes ++ [c]) =
    if c = make then true else if c = release then false else held make release codes := by
  simp only [held, List.reverse_append, List.reverse_cons, List.reverse_nil, List.nil_append, List.cons_append,
    List.find?_cons]
  by_cases hmake : c = make
  · simp [hmake]
  · by_cases hrelease : c = release
    · simp [hrelease, hne]
    · simp [hmake, hrelease]

/-- A key that is down has been pressed. -/
theorem mem_of_held (hheld : held make release codes = true) : make ∈ codes := by
  have hfind := of_decide_eq_true hheld
  exact List.mem_reverse.mp (List.mem_of_find?_eq_some hfind)

end Held

section Flags

variable (k : Kernel)

theorem sameDevices_clear_cur_cmd : SameDevices k (clear_cur_cmd k) := by
  have hrepeat (n : Nat) : SameDevices k (Nat.repeat inputBackspace n k) := by
    induction n with
    | zero => exact ⟨rfl, rfl⟩
    | succ n ih => exact ⟨ih.flags, ih.rtc⟩
  exact ⟨(hrepeat _).flags, (hrepeat _).rtc⟩

/-- Recalling a command changes neither the modifier flags nor the clock. -/
theorem sameDevices_keyUp : SameDevices k (keyUp k) := by
  obtain ⟨hflags, hrtc⟩ := sameDevices_clear_cur_cmd k
  simp only [keyUp]
  split
  · exact ⟨rfl, rfl⟩
  · exact ⟨hflags, hrtc⟩

theorem sameDevices_keyDown : SameDevices k (keyDown k) := by
  obtain ⟨hflags, hrtc⟩ := sameDevices_clear_cur_cmd k
  simp only [keyDown]
  split
  · split
    · exact ⟨hflags, hrtc⟩
    · exact ⟨hflags, hrtc⟩
  · exact ⟨hflags, hrtc⟩

/-- Neither does switching terminals. -/
theorem sameDevices_keyFunction (c : UInt8) : SameDevices k (keyFunction k c) := by
  simp only [keyFunction, multi_term.switch_terminal]
  repeat' split
  all_goals exact ⟨rfl, rfl⟩

/-- Ctrl+4 changes the clock, but no modifier flag. -/
theorem keyCtrlFour_toKeyboard : (keyCtrlFour k).toKeyboard = k.toKeyboard := by
  simp only [keyCtrlFour, rtc.rtc_write]
  split <;> split <;> rfl

theorem process_input_up_key : process_input k UP_KEY_P = sti (keyUp (cli k)) := rfl

theorem process_input_down_key : process_input k DOWN_KEY_P = sti (keyDown (cli k)) := rfl

/-- The codes that `modifiers` looks at. -/
def modifierCodes : List UInt8 :=
  [CTRL_KEY_P, ALT_KEY_P, L_SHIFT_P, R_SHIFT_P, CAPS_LOCK_P, CTRL_KEY_R, L_SHIFT_R, R_SHIFT_R]

/-- Codes of other keys change no flag. -/
theorem modifiers_other (kbd : Keyboard) {c : UInt8} (hc : c ∉ modifierCodes) : modifiers kbd c = kbd := by
  simp only [modifierCodes, List.mem_cons, List.not_mem_nil, or_false, not_or] at hc
  simp only [modifiers, hc, if_false]

/-- A code that is no modifier's leaves the flags alone. -/
theorem process_input_other {c : UInt8} (hmod : c ∉ modifierCodes) :
    ∃ rtc_loop, (process_input k c).toKeyboard = { k.toKeyboard with rtc_loop := rtc_loop } := by
  simp only [modifierCodes, List.mem_cons, List.not_mem_nil, or_false, not_or] at hmod
  by_cases hnav : c ∈ navigationKeys
  · simp only [navigationKeys, List.mem_cons, List.not_mem_nil, or_false] at hnav
    rcases hnav with rfl | rfl | rfl | rfl | rfl
    · exact ⟨k.rtc_loop, (sameDevices_keyFunction (cli k) F1_KEY_P).flags⟩
    · exact ⟨k.rtc_loop, (sameDevices_keyFunction (cli k) F2_KEY_P).flags⟩
    · exact ⟨k.rtc_loop, (sameDevices_keyFunction (cli k) F3_KEY_P).flags⟩
    · exact ⟨k.rtc_loop, by rw [process_input_up_key, sti_toKeyboard, (sameDevices_keyUp _).flags, cli_toKeyboard]⟩
    · exact ⟨k.rtc_loop, by rw [process_input_down_key, sti_toKeyboard, (sameDevices_keyDown _).flags, cli_toKeyboard]⟩
  · cases hctrl : k.ctrl with
    | false =>
      refine ⟨k.rtc_loop, ?_⟩
      rw [process_input_toKeyboard k c hnav hctrl, modifiers_other k.toKeyboard (by simp [modifierCodes, hmod])]
    | true =>
      have hctrl' : (cli k).ctrl = true := hctrl
      simp only [navigationKeys, List.mem_cons, List.not_mem_nil, or_false, not_or] at hnav
      by_cases hdown : c < 0x80
      · simp only [process_input, hdown, hmod, hnav, hctrl', if_true, if_false, and_true, or_false]
        by_cases hback : c = BACKSPACE_P
        · exact ⟨k.rtc_loop, by rw [if_pos hback]; rfl⟩
        by_cases henter : c = ENTER_KEY_P
        · exact ⟨k.rtc_loop, by rw [if_neg hback, if_pos henter]; rfl⟩
        by_cases hclear : c = L_KEY_P
        · exact ⟨k.rtc_loop, by rw [if_neg hback, if_neg henter, if_pos hclear]; rfl⟩
        by_cases hfour : c = FOUR_KEY_P
        · refine ⟨k.rtc_loop, ?_⟩
          rw [if_neg hback, if_neg henter, if_neg hclear, if_pos hfour]
          exact keyCtrlFour_toKeyboard (cli k)
        by_cases hfive : c = FIVE_KEY_P
        · refine ⟨false, ?_⟩
          rw [if_neg hback, if_neg henter, if_neg hclear, if_neg hfour, if_pos hfive, hctrl]
          rfl
        · refine ⟨k.rtc_loop, ?_⟩
          rw [if_neg hback, if_neg henter, if_neg hclear, if_neg hfour, if_neg hfive]
          exact (sameDevices_print_char (cli k) c).flags
      · refine ⟨k.rtc_loop, ?_⟩
        simp only [process_input, hdown, hmod, if_false]
        rfl

/-- What any code does to the modifier flags. -/
theorem process_input_flags (c : UInt8) :
    ∃ rtc_loop, (process_input k c).toKeyboard = { modifiers k.toKeyboard c with rtc_loop := rtc_loop } := by
  by_cases hmod : c ∈ modifierCodes
  · simp only [modifierCodes, List.mem_cons, List.not_mem_nil, or_false] at hmod
    rcases hmod with rfl | rfl | rfl | rfl | rfl | rfl | rfl | rfl
    all_goals exact ⟨k.rtc_loop, rfl⟩
  · rw [modifiers_other k.toKeyboard hmod]
    exact process_input_other k hmod

end Flags

/-- The flags say which keys are down, and whether Caps Lock has been pressed an odd
    number of times. -/
structure Tracks (kbd : Keyboard) (codes : List UInt8) : Prop where
  ctrl : kbd.ctrl = held CTRL_KEY_P CTRL_KEY_R codes
  alt : kbd.alt = held ALT_KEY_P ALT_KEY_R codes
  l_shift : kbd.l_shift = held L_SHIFT_P L_SHIFT_R codes
  r_shift : kbd.r_shift = held R_SHIFT_P R_SHIFT_R codes
  caps_lock : kbd.caps_lock = decide (codes.count CAPS_LOCK_P % 2 = 1)

/-- What the flags really say: ALT counts as down once it has been pressed. -/
structure TracksPressed (kbd : Keyboard) (codes : List UInt8) : Prop where
  ctrl : kbd.ctrl = held CTRL_KEY_P CTRL_KEY_R codes
  alt : kbd.alt = decide (ALT_KEY_P ∈ codes)
  l_shift : kbd.l_shift = held L_SHIFT_P L_SHIFT_R codes
  r_shift : kbd.r_shift = held R_SHIFT_P R_SHIFT_R codes
  caps_lock : kbd.caps_lock = decide (codes.count CAPS_LOCK_P % 2 = 1)

/-- No modifier key is down, as in the initial state of the driver. -/
structure AllReleased (kbd : Keyboard) : Prop where
  ctrl : kbd.ctrl = false
  alt : kbd.alt = false
  l_shift : kbd.l_shift = false
  r_shift : kbd.r_shift = false
  caps_lock : kbd.caps_lock = false

theorem odd_succ (n : Nat) : decide ((n + 1) % 2 = 1) = !decide (n % 2 = 1) := by
  rw [← decide_not, decide_eq_decide]
  omega

section Codes

variable (kbd : Keyboard)

/-- To know what `modifiers` does to a flag it is enough to look at its own codes. -/
theorem modifiers_flag (flag : Keyboard → Bool) (update : UInt8 → Bool → Bool)
    (hcodes : ∀ c ∈ modifierCodes, flag (modifiers kbd c) = update c (flag kbd))
    (hother : ∀ c ∉ modifierCodes, update c (flag kbd) = flag kbd) (c : UInt8) :
    flag (modifiers kbd c) = update c (flag kbd) := by
  by_cases hmod : c ∈ modifierCodes
  · exact hcodes c hmod
  · rw [modifiers_other kbd hmod, hother c hmod]

/-- A flag that one code sets and another clears. -/
def pressed (make release c : UInt8) (down : Bool) : Bool :=
  if c = make then true else if c = release then false else down

/-- A code that belongs to no modifier key leaves each of them as it is. -/
theorem pressed_other {make release : UInt8} (hmake : make ∈ modifierCodes) (hrelease : release ∈ modifierCodes)
    (down : Bool) {c : UInt8} (hmod : c ∉ modifierCodes) : pressed make release c down = down := by
  have hne {code : UInt8} (hcode : code ∈ modifierCodes) : c ≠ code := by
    rintro rfl
    exact hmod hcode
  rw [pressed, if_neg (hne hmake), if_neg (hne hrelease)]

/-- The flag of Ctrl follows its own two codes. -/
theorem modifiers_ctrl_eq (c : UInt8) : (modifiers kbd c).ctrl = pressed CTRL_KEY_P CTRL_KEY_R c kbd.ctrl := by
  refine modifiers_flag kbd Keyboard.ctrl (pressed CTRL_KEY_P CTRL_KEY_R) ?_
    (fun c => pressed_other (by decide) (by decide) _) c
  simp only [modifierCodes, List.forall_mem_cons]
  exact ⟨rfl, rfl, rfl, rfl, rfl, rfl, rfl, rfl, by simp⟩

theorem modifiers_l_shift_eq (c : UInt8) : (modifiers kbd c).l_shift = pressed L_SHIFT_P L_SHIFT_R c kbd.l_shift := by
  refine modifiers_flag kbd Keyboard.l_shift (pressed L_SHIFT_P L_SHIFT_R) ?_
    (fun c => pressed_other (by decide) (by decide) _) c
  simp only [modifierCodes, List.forall_mem_cons]
  exact ⟨rfl, rfl, rfl, rfl, rfl, rfl, rfl, rfl, by simp⟩

theorem modifiers_r_shift_eq (c : UInt8) : (modifiers kbd c).r_shift = pressed R_SHIFT_P R_SHIFT_R c kbd.r_shift := by
  refine modifiers_flag kbd Keyboard.r_shift (pressed R_SHIFT_P R_SHIFT_R) ?_
    (fun c => pressed_other (by decide) (by decide) _) c
  simp only [modifierCodes, List.forall_mem_cons]
  exact ⟨rfl, rfl, rfl, rfl, rfl, rfl, rfl, rfl, by simp⟩

/-- No code clears the flag of ALT. -/
theorem modifiers_alt_eq (c : UInt8) : (modifiers kbd c).alt = (decide (c = ALT_KEY_P) || kbd.alt) := by
  refine modifiers_flag kbd Keyboard.alt (fun c down => decide (c = ALT_KEY_P) || down) ?_ (fun c hmod => ?_) c
  · simp only [modifierCodes, List.forall_mem_cons]
    exact ⟨rfl, rfl, rfl, rfl, rfl, rfl, rfl, rfl, by simp⟩
  · have hne : c ≠ ALT_KEY_P := by
      rintro rfl
      exact hmod (by decide)
    simp [hne]

/-- Caps Lock changes with each press, and its release counts for nothing. -/
theorem modifiers_caps_lock_eq (c : UInt8) :
    (modifiers kbd c).caps_lock = if c = CAPS_LOCK_P then !kbd.caps_lock else kbd.caps_lock := by
  refine modifiers_flag kbd Keyboard.caps_lock (fun c on => if c = CAPS_LOCK_P then !on else on) ?_
    (fun c hmod => if_neg ?_) c
  · simp only [modifierCodes, List.forall_mem_cons]
    exact ⟨rfl, rfl, rfl, rfl, rfl, rfl, rfl, rfl, by simp⟩
  · rintro rfl
    exact hmod (by decide)

end Codes

/-- What one more code keeps. -/
theorem TracksPressed.snoc {kbd : Keyboard} {codes : List UInt8} (hkbd : TracksPressed kbd codes) (c : UInt8) :
    TracksPressed (modifiers kbd c) (codes ++ [c]) where
  ctrl := by rw [modifiers_ctrl_eq, held_snoc (by decide), hkbd.ctrl, pressed]
  alt := by
    rw [modifiers_alt_eq, hkbd.alt]
    simp [or_comm, eq_comm]
  l_shift := by rw [modifiers_l_shift_eq, held_snoc (by decide), hkbd.l_shift, pressed]
  r_shift := by rw [modifiers_r_shift_eq, held_snoc (by decide), hkbd.r_shift, pressed]
  caps_lock := by
    rw [modifiers_caps_lock_eq, hkbd.caps_lock, List.count_append]
    by_cases hc : c = CAPS_LOCK_P
    · rw [if_pos hc, hc, List.count_singleton_self, odd_succ]
    · rw [if_neg hc, List.count_singleton, if_neg (by simpa using hc), Nat.add_zero]

/-- The flags after any sequence of codes. -/
theorem tracksPressed_inputs {k : Kernel} (hk : AllReleased k.toKeyboard) (codes : List UInt8) :
    TracksPressed (codes.foldl process_input k).toKeyboard codes := by
  induction codes using List.reverseRecOn with
  | nil => exact ⟨hk.ctrl, hk.alt, hk.l_shift, hk.r_shift, hk.caps_lock⟩
  | append_singleton codes c ih =>
    rw [List.foldl_append, List.foldl_cons, List.foldl_nil]
    obtain ⟨rtc_loop, hflags⟩ := process_input_flags (codes.foldl process_input k) c
    rw [hflags]
    obtain ⟨hctrl, halt, hl, hr, hcaps⟩ := ih.snoc c
    exact ⟨hctrl, halt, hl, hr, hcaps⟩

/-- Without ALT a function key switches no terminal. -/
theorem keyFunction_visible {k : Kernel} {c : UInt8} (hc : c ∈ [F1_KEY_P, F2_KEY_P, F3_KEY_P])
    (hswitch : (process_input k c).vis_term_id ≠ k.vis_term_id) : k.alt = true := by
  by_contra halt
  rw [Bool.not_eq_true] at halt
  have halt' : (cli k).alt = false := halt
  have hstay (c : UInt8) : keyFunction (cli k) c = cli k := by
    rw [keyFunction, halt', if_neg (by decide)]
  simp only [List.mem_cons, List.not_mem_nil, or_false] at hc
  rcases hc with rfl | rfl | rfl
  · exact hswitch (congrArg (·.vis_term_id) (hstay F1_KEY_P))
  · exact hswitch (congrArg (·.vis_term_id) (hstay F2_KEY_P))
  · exact hswitch (congrArg (·.vis_term_id) (hstay F3_KEY_P))

/-- The flags follow the keys, and a function key then switches terminals only while ALT
    is down. -/
structure ModifiersTracked (k : Kernel) (codes : List UInt8) : Prop where
  flags : Tracks (codes.foldl process_input k).toKeyboard codes
  switches : ∀ c ∈ [F1_KEY_P, F2_KEY_P, F3_KEY_P],
    (process_input (codes.foldl process_input k) c).vis_term_id ≠ (codes.foldl process_input k).vis_term_id →
      held ALT_KEY_P ALT_KEY_R codes = true

/-- The modifier flags follow the keys exactly as long as ALT, once pressed, is still down: its
    release is not noticed. The codes may come in any order, also for keys that are released
    without having been pressed. -/
theorem modifiers_tracked_iff (k : Kernel) (hk : AllReleased k.toKeyboard) (codes : List UInt8) :
    ModifiersTracked k codes ↔ (ALT_KEY_P ∈ codes → held ALT_KEY_P ALT_KEY_R codes = true) := by
  have hpressed := tracksPressed_inputs hk codes
  constructor
  · rintro ⟨hflags, -⟩ hmem
    rw [← hflags.alt, hpressed.alt, decide_eq_true hmem]
  · intro hdown
    have halt : decide (ALT_KEY_P ∈ codes) = held ALT_KEY_P ALT_KEY_R codes := by
      rw [Bool.eq_iff_iff, decide_eq_true_iff]
      exact ⟨hdown, mem_of_held⟩
    refine ⟨⟨hpressed.ctrl, hpressed.alt.trans halt, hpressed.l_shift, hpressed.r_shift, hpressed.caps_lock⟩, ?_⟩
    intro c hc hswitch
    rw [← halt, ← hpressed.alt]
    exact keyFunction_visible hc hswitch

/-- CTRL, both shift keys and Caps Lock, with ALT still down at the end. -/
theorem modifiers_tracked_iff_alt_down :
    ModifiersTracked blankMachine [CTRL_KEY_P, L_SHIFT_P, CTRL_KEY_R, ALT_KEY_P, CAPS_LOCK_P, L_SHIFT_R] :=
  (modifiers_tracked_iff blankMachine ⟨rfl, rfl, rfl, rfl, rfl⟩ _).mpr fun _ => by decide

/-- ALT pressed and released: the flag stays, and F2 alone switches to the second terminal. -/
theorem alt_release_unnoticed :
    ([ALT_KEY_P, ALT_KEY_R].foldl process_input blankMachine).alt = true ∧
      held ALT_KEY_P ALT_KEY_R [ALT_KEY_P, ALT_KEY_R] = false ∧
      (process_input ([ALT_KEY_P, ALT_KEY_R].foldl process_input blankMachine) F2_KEY_P).vis_term_id = 1 ∧
      ¬ ModifiersTracked blankMachine [ALT_KEY_P, ALT_KEY_R] := by
  have halt : ([ALT_KEY_P, ALT_KEY_R].foldl process_input blankMachine).alt = true := rfl
  have hheld : held ALT_KEY_P ALT_KEY_R [ALT_KEY_P, ALT_KEY_R] = false := by decide
  refine ⟨halt, hheld, by decide +kernel, fun htracked => ?_⟩
  have hflag := htracked.flags.alt
  rw [halt, hheld] at hflag
  cases hflag

end lacos.keyboard
