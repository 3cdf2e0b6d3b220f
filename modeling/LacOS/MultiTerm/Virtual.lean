import LacOS.MultiTerm.Placement

open lacos.lib lacos.pcb

namespace lacos.multi_term

/-- What can happen to the screens of the three terminals. -/
inductive ScreenOp where
  | putc (t : Fin MAX_TERM_NUM) (c : UInt8)
  | clear_screen
  | switch_terminal (new_term_id : Int)

def ScreenOp.exec (k : Kernel) : ScreenOp → Kernel
  | .putc t c => k.onConsole (lib.putc · t c)
  | .clear_screen => k.onConsole lib.clear_screen
  | .switch_terminal new_term_id => multi_term.switch_terminal k new_term_id

/-- What can happen to a private screen. -/
inductive PrivateOp where
  | putc (c : UInt8)
  | clear

def PrivateOp.apply (color : UInt8) (s : Screen) : PrivateOp → Screen
  | .putc c => s.putc color c
  | .clear => s.clear color

/-- The part of an operation that concerns terminal `t`. -/
def ScreenOp.own (t visible : Fin MAX_TERM_NUM) : ScreenOp → List PrivateOp
  | .putc u c => if t = u then [.putc c] else []
  | .clear_screen => if t = visible then [.clear] else []
  | .switch_terminal _ => []

/-- The operations of a run that are terminal `t`'s own: its `putc` operations and
    the `clear_screen` calls made while it was visible. -/
def ownOps (t : Fin MAX_TERM_NUM) : Kernel → List ScreenOp → List PrivateOp
  | _, [] => []
  | k, op :: ops => op.own t k.vis_term_id ++ ownOps t (op.exec k) ops

/-- The kernel `entry` leaves behind once it has set up the terminals. The
    statically initialised `vis_term_id` is zero; everything else is as found. -/
def screensInit (k : Kernel) : Kernel :=
  let k := { k with vis_term_id := 0 }
  let k := k.onConsole lib.clear_screen
  let k := k.onConsole (set_color · 3 0)
  multi_term_init k

/-- The terminals of a blank machine, just set up. -/
def fresh : Kernel := screensInit blankMachine

/-- Once the terminals are set up, every screen is in its place, whatever the machine held before.
    -/
theorem screensInit_placed (k : Kernel) : Placed (screensInit k).toConsole where
  vid_mem t := by
    have hvis : (screensInit k).vis_term_id = 0 :=
      clear_screen_vis_term_id ({ k with vis_term_id := 0 } : Kernel).toConsole
    rw [hvis]
    change (if t = 0 then VIDEO_ADDR else backingPage t) = _
    revert t
    decide
  in_bounds t := by
    simp [screen, screensInit, multi_term_init, Screen.InBounds]
  cursor := clear_screen_cursor ({ k with vis_term_id := 0 } : Kernel).toConsole

section Exec

variable {k : Kernel} (hplaced : Placed k.toConsole) (op : ScreenOp)
include hplaced

/-- One operation leaves every screen in its place. -/
theorem ScreenOp.exec_placed : Placed (op.exec k).toConsole := by
  cases op with
  | putc t c => exact hplaced.putc t c
  | clear_screen => exact hplaced.clear_screen
  | switch_terminal new_term_id =>
    refine switch_terminal_keeps (P := fun k => Placed k.toConsole) hplaced (fun t => ?_) new_term_id
    rw [switchTo_toConsole]
    exact hplaced.switch_screen t

/-- One operation changes a terminal's screen by its own part of the operation only. -/
theorem ScreenOp.exec_screen (t : Fin MAX_TERM_NUM) : screen (op.exec k).toConsole t =
    (op.own t k.vis_term_id).foldl (PrivateOp.apply k.color) (screen k.toConsole t) := by
  cases op with
  | putc u c =>
    simp only [ScreenOp.exec, ScreenOp.own, Kernel.onConsole, hplaced.screen_putc]
    split
    · rename_i hu
      rw [hu]
      rfl
    · rfl
  | clear_screen =>
    simp only [ScreenOp.exec, ScreenOp.own, Kernel.onConsole, hplaced.screen_clear_screen]
    split <;> rfl
  | switch_terminal new_term_id =>
    simp only [ScreenOp.exec, ScreenOp.own, List.foldl_nil]
    obtain hstay | ⟨u, -, hswitch⟩ := switch_terminal_cases k new_term_id
    · rw [hstay]
    · rw [hswitch, switchTo_toConsole, screen_showCursor]
      exact hplaced.screen_switch_screen u t

theorem ScreenOp.exec_color : (op.exec k).color = k.color := by
  cases op with
  | putc t c =>
    simp only [ScreenOp.exec, Kernel.onConsole, putc_eq _ t c (hplaced.in_bounds t)]
    split
    · rfl
    · rw [showCursor_color, install_color]
  | clear_screen =>
    simp only [ScreenOp.exec, Kernel.onConsole, clear_screen_eq _ hplaced.visible, showCursor_color, install_color]
  | switch_terminal new_term_id =>
    rw [ScreenOp.exec]
    obtain hstay | ⟨t, -, hswitch⟩ := switch_terminal_cases k new_term_id
    · rw [hstay]
    · rw [hswitch, switchTo_toConsole, showCursor_color]
      rfl

end Exec

/-- After any operations a screen is what those that concern its terminal make of it. By induction
    on them; the color stays the same throughout. -/
theorem run_screen {k : Kernel} (hplaced : Placed k.toConsole) (t : Fin MAX_TERM_NUM) (ops : List ScreenOp) :
    screen (ops.foldl ScreenOp.exec k).toConsole t =
      (ownOps t k ops).foldl (PrivateOp.apply k.color) (screen k.toConsole t) := by
  induction ops generalizing k with
  | nil => rfl
  | cons op ops ih =>
    rw [List.foldl_cons, ih (op.exec_placed hplaced), ownOps, List.foldl_append, op.exec_screen hplaced,
      op.exec_color hplaced]

/-- Any operations leave every screen in its place. -/
theorem run_placed {k : Kernel} (hplaced : Placed k.toConsole) (ops : List ScreenOp) :
    Placed (ops.foldl ScreenOp.exec k).toConsole :=
  List.foldlRecOn (motive := fun k => Placed k.toConsole) ops ScreenOp.exec hplaced
    fun _ hk op _ => op.exec_placed hk

/-- Operations on screens do not touch the tasks. -/
theorem run_toTasks (k : Kernel) (ops : List ScreenOp) : (ops.foldl ScreenOp.exec k).toTasks = k.toTasks := by
  induction ops generalizing k with
  | nil => rfl
  | cons op ops ih =>
    rw [List.foldl_cons, ih]
    cases op with
    | putc t c => rfl
    | clear_screen => rfl
    | switch_terminal new_term_id => exact switch_terminal_toTasks k new_term_id

/-- Alt and a function key bring the terminal to the screen, as long as there are no more
    processes than there can be; what is on the screens stays. -/
theorem switch_terminal_shows (machine : Kernel) (hroom : our_popcount machine.pcb_status ≤ MAX_PROCESSES)
    (ops : List ScreenOp) (t : Fin MAX_TERM_NUM) :
    let before := ops.foldl ScreenOp.exec (screensInit machine)
    let k := switch_terminal before (t : Nat)
    k.vis_term_id = t ∧ (k.terminals t).vid_mem = VIDEO_ADDR ∧
      ∀ u, screen k.toConsole u = screen before.toConsole u := by
  intro before k
  have hplaced : Placed before.toConsole := run_placed (screensInit_placed machine) ops
  have hafter : Placed k.toConsole := (ScreenOp.switch_terminal (t : Nat)).exec_placed hplaced
  have hswitch : k = switchTo before t := by
    have hroom' : ¬ our_popcount before.pcb_status > MAX_PROCESSES := by
      rw [run_toTasks]
      exact Nat.not_lt.mpr hroom
    have hin : (0 : Int) ≤ (t : Nat) ∧ ((t : Nat) : Int) < MAX_TERM_NUM := ⟨Int.natCast_nonneg _, by omega⟩
    simp only [k, switch_terminal, dif_pos hin, if_neg hroom', Int.toNat_natCast]
  have hvis : k.vis_term_id = t := by
    rw [hswitch, switchTo_toConsole, showCursor_vis_term_id]
  refine ⟨hvis, hvis ▸ hafter.visible, fun u => ?_⟩
  exact (ScreenOp.switch_terminal (t : Nat)).exec_screen hplaced u

/-- Terminal virtualisation: in every interleaving, each terminal's screen and positions are those
    of a private screen that saw only the terminal's own operations; the visible terminal, and no
    other, is kept in video memory, and the hardware cursor is its cursor. Nothing is assumed of
    the machine before the screens are set up. -/
theorem terminals_virtualised (machine : Kernel) (ops : List ScreenOp) :
    let start := screensInit machine
    let k := ops.foldl ScreenOp.exec start
    (∀ t, screen k.toConsole t =
      (ownOps t start ops).foldl (PrivateOp.apply start.color) (screen start.toConsole t)) ∧
    (∀ t, ((k.terminals t).vid_mem = VIDEO_ADDR ↔ t = k.vis_term_id) ∧
      (t ≠ k.vis_term_id → (k.terminals t).vid_mem = VIDEO_ADDR + UInt32.ofNat (t + 1) * FOUR_KB)) ∧
    (k.vga_reg 0x0E).toNat * 256 + (k.vga_reg 0x0F).toNat =
      80 * (k.terminals k.vis_term_id).curs_r.toNat + (k.terminals k.vis_term_id).curs_c.toNat := by
  intro start k
  have hstart := screensInit_placed machine
  have hplaced : Placed k.toConsole := run_placed hstart ops
  refine ⟨fun t => run_screen hstart t ops, fun t => ⟨⟨fun hvid => ?_, ?_⟩, fun hne => hplaced.hidden hne⟩,
    hplaced.cursor⟩
  · by_contra hne
    rw [hplaced.hidden hne] at hvid
    exact backingPage_ne t hvid
  · rintro rfl
    exact hplaced.visible

/-- Terminal 1 is written to, shown, and then another one is written to. -/
theorem terminals_virtualised_switched :
    let ops : List ScreenOp := [.putc 1 97, .switch_terminal 1, .putc 0 98]
    let k := ops.foldl ScreenOp.exec fresh
    k.vis_term_id = 1 ∧ k.video VIDEO_ADDR = 97 ∧
      screen k.toConsole 1 = PrivateOp.apply fresh.color (screen fresh.toConsole 1) (.putc 97) ∧
      screen k.toConsole 0 = PrivateOp.apply fresh.color (screen fresh.toConsole 0) (.putc 98) := by
  intro ops k
  have hscreen := (terminals_virtualised blankMachine ops).1
  exact ⟨by decide +kernel, by decide +kernel, hscreen 1, hscreen 0⟩

end lacos.multi_term
