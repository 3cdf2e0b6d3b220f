import LacOS.Base.Run
import LacOS.Keyboard.Modifiers
import LacOS.Rtc.Rate

open trace lacos.keyboard

namespace lacos.rtc

/-- What can program the RTC. A key is any scan code: CTRL and then 4 among them. -/
inductive RtcEvent where
  | rtc_open
  | rtc_write (new_freq : UInt32) (nbytes : Int)
  | process_input (c : UInt8)
  deriving DecidableEq

def RtcEvent.exec (k : Kernel) : RtcEvent → Kernel
  | .rtc_open => (rtc.rtc_open k).2
  | .rtc_write new_freq nbytes => (rtc.rtc_write k new_freq nbytes).2
  | .process_input c => keyboard.process_input k c

def rtcStep (k : Kernel) (event : RtcEvent) : Option Kernel := some (event.exec k)

/-- The software copy is the frequency the RTC runs at. -/
structure Agrees (k : Kernel) : Prop where
  frequency : frequency (regA k) = k.rtc_freq.toNat
  rate : IsRate k.rtc_freq

/-- A programmed frequency is the one that is stored. -/
theorem Programmed.agrees {k : Kernel} {freq : UInt32} (hprogrammed : Programmed k freq) (hrate : IsRate freq) :
    Agrees k := by
  obtain ⟨hfreq, -, hfrequency⟩ := hprogrammed
  subst hfreq
  exact ⟨hfrequency, hrate⟩

theorem Agrees.congr {k k' : Kernel} (hsame : k'.toRtc = k.toRtc) (hagrees : Agrees k) : Agrees k' := by
  obtain ⟨hfrequency, hrate⟩ := hagrees
  have hreg : regA k' = regA k := congrArg (fun r : Rtc => r.cmos_reg 0x0A) hsame
  have hfreq : k'.rtc_freq = k.rtc_freq := congrArg Rtc.rtc_freq hsame
  exact ⟨by rw [hreg, hfreq, hfrequency], by rwa [hfreq]⟩

section Keys

variable (k : Kernel)

theorem cli_toRtc : (cli k).toRtc = k.toRtc := rfl

theorem sti_toRtc : (sti k).toRtc = k.toRtc := rfl

theorem onConsole_toRtc (f : Console → Console) : (k.onConsole f).toRtc = k.toRtc := rfl

/-- Only CTRL+4 reaches the RTC. -/
theorem process_input_toRtc {c : UInt8} (hkey : ¬ (c = FOUR_KEY_P ∧ k.ctrl = true)) :
    (process_input k c).toRtc = k.toRtc := by
  have hkey' : ¬ (c = FOUR_KEY_P ∧ (cli k).ctrl = true) := hkey
  simp only [process_input, hkey', if_false, apply_ite Kernel.toRtc, sti_toRtc, cli_toRtc, onConsole_toRtc,
    (sameDevices_keyFunction _ _).rtc, (sameDevices_keyUp _).rtc, (sameDevices_keyDown _).rtc,
    (sameDevices_print_char _ _).rtc, ite_self]

end Keys

/-- Double a frequency, without going above 1024. -/
def doubled (freq : UInt32) : UInt32 :=
  if freq <<< (1 : UInt32) > 0x400 then 2 else freq <<< (1 : UInt32)

/-- Ctrl+4 is a write of the doubled frequency, to the driver's variable too. -/
theorem keyCtrlFour_eq (k : Kernel) : keyCtrlFour k =
    (rtc_write { k with rtc_freq := doubled k.rtc_freq } (doubled k.rtc_freq) 0).2 := by
  by_cases hover : k.rtc_freq <<< (1 : UInt32) > 0x400
  · simp only [keyCtrlFour, doubled, hover, if_true]
  · simp only [keyCtrlFour, doubled, hover, if_false]

/-- Doubling starts again with the lowest frequency before it leaves the range. -/
theorem isRate_doubled {freq : UInt32} (hrate : IsRate freq) : IsRate (doubled freq) := by
  obtain ⟨n, hn, hfreq⟩ := hrate.exists_log
  have hword : freq = UInt32.ofNat (2 ^ (n + 1)) := by rw [← hfreq, UInt32.ofNat_toNat]
  have hall : ∀ n : Fin 10, IsRate (doubled (UInt32.ofNat (2 ^ (n.val + 1)))) := by decide
  rw [hword]
  exact hall ⟨n, hn⟩

theorem rtc_open_frequency (k : Kernel) : frequency (regA (rtc_open k).2) = 2 := by
  obtain ⟨hdivider, -⟩ := divider_or 0x0F (regA k) (by decide)
  have hreg : regA (rtc_open k).2 = 0x0F ||| (regA k &&& 0xF0) := set_int_freq_regA k 0x0F
  rw [frequency, hreg, hdivider]
  rfl

section Step

variable {k : Kernel}

/-- `rtc_open` resets the device and forgets the software copy. -/
theorem agrees_rtc_open_iff (hrate : IsRate k.rtc_freq) : Agrees (rtc_open k).2 ↔ k.rtc_freq = 2 := by
  have hfreq : (rtc_open k).2.rtc_freq = k.rtc_freq := rfl
  have hfrequency := rtc_open_frequency k
  constructor
  · intro hagrees
    apply UInt32.toNat_inj.mp
    rw [← hfreq, ← hagrees.frequency, hfrequency]
    rfl
  · intro htwo
    refine ⟨?_, by rwa [hfreq]⟩
    rw [hfrequency, hfreq, htwo]
    rfl

/-- A write keeps the two in step, whether it is accepted or not. -/
theorem Agrees.rtc_write (hagrees : Agrees k) (new_freq : UInt32) (nbytes : Int) :
    Agrees (rtc_write k new_freq nbytes).2 := by
  by_cases hrate : IsRate new_freq
  · exact (programmed_rtc_write k nbytes hrate).1.agrees hrate
  · rwa [rtc_write_of_not_isRate k nbytes hrate]

/-- Any key keeps them in step. -/
theorem Agrees.process_input (hagrees : Agrees k) (c : UInt8) : Agrees (process_input k c) := by
  by_cases hkey : c = FOUR_KEY_P ∧ k.ctrl = true
  · obtain ⟨rfl, hctrl⟩ := hkey
    have hpress : keyboard.process_input k FOUR_KEY_P = sti (keyCtrlFour (cli k)) := by
      have hctrl' : (cli k).ctrl = true := hctrl
      simp only [keyboard.process_input, hctrl']
      rfl
    have hrate : IsRate (doubled (cli k).rtc_freq) := isRate_doubled hagrees.rate
    rw [hpress, keyCtrlFour_eq]
    exact ((programmed_rtc_write _ 0 hrate).1.agrees hrate).congr (sti_toRtc _)
  · exact hagrees.congr (process_input_toRtc k hkey)

/-- An event other than `rtc_open` keeps the two copies in agreement. -/
theorem Agrees.exec (hagrees : Agrees k) {event : RtcEvent} (hopen : event = .rtc_open → k.rtc_freq = 2) :
    Agrees (event.exec k) := by
  cases event with
  | rtc_open => exact (agrees_rtc_open_iff hagrees.rate).mpr (hopen rfl)
  | rtc_write new_freq nbytes => exact hagrees.rtc_write new_freq nbytes
  | process_input c => exact hagrees.process_input c

end Step

/-- After a successful `rtc_write`, the frequency the RTC runs at is the one in `rtc_freq` for as
    long as `rtc_open` is called at 2 Hz only. The two need not agree before the write. -/
theorem shadow_agrees_iff (k : Kernel) (freq : UInt32) (nbytes : Int) (haccepts : Accepts k freq)
    (events : List RtcEvent) :
    (∀ events', events' <+: events → ∀ k', run rtcStep (rtc_write k freq nbytes).2 events' = some k' → Agrees k') ↔
      Guarded rtcStep (fun k event => event = .rtc_open → k.rtc_freq = 2) (rtc_write k freq nbytes).2 events := by
  have hrate := (accepts_iff k freq).mp haccepts
  have hstart := (programmed_rtc_write k nbytes hrate).1.agrees hrate
  refine always_iff_guarded (fun _ h => h) ?_ ?_ hstart
  · intro k event k' hagrees hopen hstep
    cases hstep
    exact hagrees.exec hopen
  · intro k event hagrees hnot
    obtain ⟨rfl, hfreq⟩ := Classical.not_imp.mp hnot
    exact ⟨_, rfl, fun h => hfreq ((agrees_rtc_open_iff hagrees.rate).mp h)⟩

/-- Set to 1024 Hz, doubled with CTRL+4 to 2 Hz, and opened again. -/
theorem shadow_agrees_iff_wrapped : Accepts blankMachine 1024 ∧
    ∀ events', events' <+: [.process_input CTRL_KEY_P, .process_input FOUR_KEY_P, .rtc_open] →
      ∀ k', run rtcStep (rtc_write blankMachine 1024 4).2 events' = some k' → Agrees k' := by
  have haccepts : Accepts blankMachine 1024 := (accepts_iff blankMachine 1024).mpr (by decide)
  exact ⟨haccepts, (shadow_agrees_iff blankMachine 1024 4 haccepts _).mpr (by decide +kernel)⟩

/-- Set to 32 Hz and opened again: the device is back at 2 Hz, `rtc_freq` is still 32. -/
theorem open_leaves_shadow : Accepts blankMachine 32 ∧
    ∃ k', run rtcStep (rtc_write blankMachine 32 4).2 [.rtc_open] = some k' ∧ ¬ Agrees k' := by
  refine ⟨(accepts_iff blankMachine 32).mpr (by decide), _, rfl, fun hagrees => ?_⟩
  exact absurd hagrees.frequency (by decide +kernel)

end lacos.rtc
