import LacOS.Base.Controller
import LacOS.Lib.Format

open controller lacos.lib

namespace lacos.i8259

abbrev MASTER_8259_PORT : UInt16 := 0x20
abbrev MASTER_8259_PORT_2 : UInt16 := 0x21
abbrev SLAVE_8259_PORT : UInt16 := 0xA0
abbrev SLAVE_8259_PORT_2 : UInt16 := 0xA1

abbrev ICW1 : UInt8 := 0x11
abbrev ICW2_MASTER : UInt8 := 0x20
abbrev ICW2_SLAVE : UInt8 := 0x28
abbrev ICW3_MASTER : UInt8 := 0x04
abbrev ICW3_SLAVE : UInt8 := 0x02
abbrev ICW4 : UInt8 := 0x01
abbrev OFF_MASK : UInt8 := 0xFF
abbrev MASTER_IRQ_NUM : UInt32 := 7
abbrev SLAVE_IRQ_NUM : UInt32 := 15
abbrev EOI : UInt32 := 0x60

/-- The driver's masks, its controllers, and the console for its messages. -/
structure Pics where
  console : Console
  pair : Pair
  master_mask : UInt8
  slave_mask : UInt8

/-- A byte for one of the controllers' ports. -/
def writePort (pair : Pair) (data : UInt8) (port : UInt16) : Pair :=
  if port = MASTER_8259_PORT then { pair with master := pair.master.command data }
  else if port = MASTER_8259_PORT_2 then { pair with master := pair.master.data data }
  else if port = SLAVE_8259_PORT then { pair with slave := pair.slave.command data }
  else if port = SLAVE_8259_PORT_2 then { pair with slave := pair.slave.data data }
  else pair

def outb (p : Pics) (data : UInt8) (port : UInt16) : Pics := { p with pair := writePort p.pair data port }

def outs (p : Pics) (writes : List (UInt8 × UInt16)) : Pics :=
  writes.foldl (fun p (data, port) => outb p data port) p

/-- `printf` of a message that ends in `%d`. -/
def report (p : Pics) (message : List Char) (irq_num : UInt32) : Pics :=
  { p with console := printText p.console (chars message ++ signed irq_num) }

def enable_irq (p : Pics) (irq_num : UInt32) : Pics :=
  if irq_num ≤ MASTER_IRQ_NUM then
    let master_mask := p.master_mask &&& ~~~(1 <<< irq_num).toUInt8
    outb { p with master_mask } master_mask MASTER_8259_PORT_2
  else if irq_num ≤ SLAVE_IRQ_NUM then
    let slave_mask := p.slave_mask &&& ~~~(1 <<< (irq_num - 8)).toUInt8
    outb { p with slave_mask } slave_mask SLAVE_8259_PORT_2
  else report p "enable_irq undefined for irq_num ".toList irq_num

def disable_irq (p : Pics) (irq_num : UInt32) : Pics :=
  if irq_num ≤ MASTER_IRQ_NUM then
    let master_mask := p.master_mask ||| (1 <<< irq_num).toUInt8
    outb { p with master_mask } master_mask MASTER_8259_PORT_2
  else if irq_num ≤ SLAVE_IRQ_NUM then
    let slave_mask := p.slave_mask ||| (1 <<< (irq_num - 8)).toUInt8
    outb { p with slave_mask } slave_mask SLAVE_8259_PORT_2
  else report p "disable_irq undefined for irq_num ".toList irq_num

/-- The bytes that `send_eoi` sends. -/
def eoiWrites (irq_num : UInt32) : List (UInt8 × UInt16) :=
  if irq_num ≤ MASTER_IRQ_NUM then [((irq_num ||| EOI).toUInt8, MASTER_8259_PORT)]
  else [((irq_num - 8 ||| EOI).toUInt8, SLAVE_8259_PORT), ((2 ||| EOI).toUInt8, MASTER_8259_PORT)]

def send_eoi (p : Pics) (irq_num : UInt32) : Pics :=
  if irq_num ≤ SLAVE_IRQ_NUM then outs p (eoiWrites irq_num)
  else report p "Send_eoi undefined for irq_num ".toList irq_num

def i8259_init (p : Pics) : Pics :=
  let p := outs p [(ICW1, MASTER_8259_PORT), (ICW2_MASTER, MASTER_8259_PORT_2), (ICW3_MASTER, MASTER_8259_PORT_2),
    (ICW4, MASTER_8259_PORT_2)]
  let p := outs p [(ICW1, SLAVE_8259_PORT), (ICW2_SLAVE, SLAVE_8259_PORT_2), (ICW3_SLAVE, SLAVE_8259_PORT_2),
    (ICW4, SLAVE_8259_PORT_2)]
  let p := outs p [(OFF_MASK, MASTER_8259_PORT_2), (OFF_MASK, SLAVE_8259_PORT_2)]
  enable_irq { p with master_mask := OFF_MASK, slave_mask := OFF_MASK } 2

/-- The calls of the driver once it is set up. -/
inductive Call where
  | enable_irq (irq_num : UInt32)
  | disable_irq (irq_num : UInt32)
  | send_eoi (irq_num : UInt32)

def call (p : Pics) : Call → Pics
  | .enable_irq irq_num => enable_irq p irq_num
  | .disable_irq irq_num => disable_irq p irq_num
  | .send_eoi irq_num => send_eoi p irq_num

/-- The number of a line. -/
def irq : Line → UInt32
  | .master l => UInt32.ofNat l
  | .slave l => UInt32.ofNat (8 + l)

/-- What the calls are for: the set of the lines that are enabled. -/
def track (lines : Line → Bool) : Call → Line → Bool
  | .enable_irq irq_num => fun line => lines line || irq line = irq_num
  | .disable_irq irq_num => fun line => lines line && irq line ≠ irq_num
  | .send_eoi _ => lines

/-- The controllers have their vectors, their wiring and the driver's masks, and let exactly
    these lines through. -/
structure Tracks (lines : Line → Bool) (p : Pics) : Prop where
  master : SetUp p.pair.master ICW2_MASTER ICW3_MASTER p.master_mask
  slave : SetUp p.pair.slave ICW2_SLAVE ICW3_SLAVE p.slave_mask
  enabled : ∀ line, p.pair.enabled line = lines line

section Numbers

theorem irq_le (line : Line) : irq line ≤ SLAVE_IRQ_NUM := by
  cases line with
  | master l =>
    revert l
    decide
  | slave l =>
    revert l
    decide

theorem irq_master (l : Fin 8) : irq (.master l) = UInt32.ofNat l := rfl

theorem irq_inj {line line' : Line} : irq line = irq line' ↔ line = line' := by
  cases line with
  | master l =>
    cases line' with
    | master l' =>
      rw [Line.master.injEq]
      revert l l'
      decide
    | slave l' =>
      refine iff_of_false ?_ nofun
      revert l l'
      decide
  | slave l =>
    cases line' with
    | master l' =>
      refine iff_of_false ?_ nofun
      revert l l'
      decide
    | slave l' =>
      rw [Line.slave.injEq]
      revert l l'
      decide

theorem exists_line {irq_num : UInt32} (hle : irq_num ≤ SLAVE_IRQ_NUM) : ∃ line, irq_num = irq line := by
  have hnat : irq_num.toNat ≤ 15 := UInt32.le_iff_toNat_le.mp hle
  by_cases hmaster : irq_num.toNat < 8
  · exact ⟨.master ⟨irq_num.toNat, hmaster⟩, UInt32.ofNat_toNat.symm⟩
  · refine ⟨.slave ⟨irq_num.toNat - 8, by omega⟩, ?_⟩
    rw [irq, Nat.add_sub_cancel' (Nat.not_lt.mp hmaster), UInt32.ofNat_toNat]

/-- The bit that the driver sets or clears for a level. -/
theorem level_bit (l l' : Fin 8) : (1 <<< UInt32.ofNat l : UInt32).toUInt8.toBitVec.getLsbD l' = decide (l' = l) := by
  revert l l'
  decide

theorem bit_cleared (mask : UInt8) (l l' : Fin 8) :
    (!(mask &&& ~~~(1 <<< UInt32.ofNat l : UInt32).toUInt8).toBitVec.getLsbD l') =
      (!mask.toBitVec.getLsbD l' || decide (l' = l)) := by
  simp only [UInt8.toBitVec_and, UInt8.toBitVec_not, BitVec.getLsbD_and, BitVec.getLsbD_not, level_bit, l'.isLt,
    decide_true, Bool.true_and, Bool.not_and, Bool.not_not]

theorem bit_set (mask : UInt8) (l l' : Fin 8) :
    (!(mask ||| (1 <<< UInt32.ofNat l : UInt32).toUInt8).toBitVec.getLsbD l') =
      (!mask.toBitVec.getLsbD l' && !decide (l' = l)) := by
  simp only [UInt8.toBitVec_or, BitVec.getLsbD_or, level_bit, Bool.not_or]

theorem irq_ne {irq_num : UInt32} (hgt : ¬ irq_num ≤ SLAVE_IRQ_NUM) (line : Line) : irq line ≠ irq_num :=
  fun h => hgt (h ▸ irq_le line)

theorem slave_number (l : Fin 8) : ¬ irq (.slave l) ≤ MASTER_IRQ_NUM ∧ irq (.slave l) - 8 = UInt32.ofNat l := by
  revert l
  decide

theorem master_number (l : Fin 8) : irq (.master l) ≤ MASTER_IRQ_NUM := by
  revert l
  decide

/-- An end of interrupt takes its level out of service. -/
theorem command_eoi (chip : Chip) (l : Fin 8) :
    chip.command (UInt32.ofNat l ||| EOI).toUInt8 = chip.finish l := by
  have hword : (UInt32.ofNat l ||| EOI).toUInt8 &&& 0x10 = 0 ∧ (UInt32.ofNat l ||| EOI).toUInt8 &&& 0xF8 = 0x60 ∧
      level (UInt32.ofNat l ||| EOI).toUInt8 = l := by
    revert l
    decide
  rw [Chip.command, if_neg (not_not.mpr hword.1), if_pos hword.2.1, hword.2.2]

theorem send_eoi_line (p : Pics) (line : Line) :
    send_eoi p (irq line) = { p with pair := p.pair.finish line } := by
  cases line with
  | master l =>
    rw [send_eoi, if_pos (irq_le _), eoiWrites, if_pos (master_number l), Pair.finish, ← command_eoi]
    rfl
  | slave l =>
    rw [send_eoi, if_pos (irq_le _), eoiWrites, if_neg (slave_number l).1, (slave_number l).2, Pair.finish,
      ← command_eoi, ← command_eoi]
    rfl

end Numbers

section Calls

variable {lines : Line → Bool} {p : Pics} (hp : Tracks lines p)
include hp

theorem Tracks.master_bit (l : Fin 8) : (!p.master_mask.toBitVec.getLsbD l) = lines (.master l) := by
  rw [← hp.master.imr]
  exact hp.enabled (.master l)

theorem Tracks.slave_bit (l : Fin 8) : (!p.slave_mask.toBitVec.getLsbD l) = lines (.slave l) := by
  rw [← hp.slave.imr]
  exact hp.enabled (.slave l)

/-- A new mask of the master. -/
theorem Tracks.master_mask {mask : UInt8} {lines' : Line → Bool}
    (hmaster : ∀ l : Fin 8, (!mask.toBitVec.getLsbD l) = lines' (.master l))
    (hslave : ∀ l, lines (.slave l) = lines' (.slave l)) :
    Tracks lines' (outb { p with master_mask := mask } mask MASTER_8259_PORT_2) := by
  refine ⟨hp.master.data mask, hp.slave, fun line => ?_⟩
  cases line with
  | master l => exact ((hp.master.data mask).enabled l).trans (hmaster l)
  | slave l => exact (hp.enabled (.slave l)).trans (hslave l)

/-- A new mask of the slave. -/
theorem Tracks.slave_mask {mask : UInt8} {lines' : Line → Bool}
    (hslave : ∀ l : Fin 8, (!mask.toBitVec.getLsbD l) = lines' (.slave l))
    (hmaster : ∀ l, lines (.master l) = lines' (.master l)) :
    Tracks lines' (outb { p with slave_mask := mask } mask SLAVE_8259_PORT_2) := by
  refine ⟨hp.master, hp.slave.data mask, fun line => ?_⟩
  cases line with
  | master l => exact (hp.enabled (.master l)).trans (hmaster l)
  | slave l => exact ((hp.slave.data mask).enabled l).trans (hslave l)

theorem Tracks.enable_irq (irq_num : UInt32) :
    Tracks (track lines (.enable_irq irq_num)) (enable_irq p irq_num) := by
  by_cases hle : irq_num ≤ SLAVE_IRQ_NUM
  · obtain ⟨line, rfl⟩ := exists_line hle
    cases line with
    | master l =>
      rw [i8259.enable_irq, if_pos (master_number l)]
      refine hp.master_mask (fun l' => ?_) fun l' => ?_
      · rw [irq_master, bit_cleared, hp.master_bit]
        simp [track, ← irq_master, irq_inj]
      · simp [track, irq_inj]
    | slave l =>
      rw [i8259.enable_irq, if_neg (slave_number l).1, if_pos hle, (slave_number l).2]
      refine hp.slave_mask (fun l' => ?_) fun l' => ?_
      · rw [bit_cleared, hp.slave_bit]
        simp [track, irq_inj]
      · simp [track, irq_inj]
  · have hnone : track lines (.enable_irq irq_num) = lines := by
      funext line
      simp [track, irq_ne hle]
    rw [i8259.enable_irq, if_neg (fun h => hle (UInt32.le_trans h (by decide))), if_neg hle, hnone]
    exact ⟨hp.master, hp.slave, hp.enabled⟩

theorem Tracks.disable_irq (irq_num : UInt32) :
    Tracks (track lines (.disable_irq irq_num)) (disable_irq p irq_num) := by
  by_cases hle : irq_num ≤ SLAVE_IRQ_NUM
  · obtain ⟨line, rfl⟩ := exists_line hle
    cases line with
    | master l =>
      rw [i8259.disable_irq, if_pos (master_number l)]
      refine hp.master_mask (fun l' => ?_) fun l' => ?_
      · rw [irq_master, bit_set, hp.master_bit]
        simp [track, ← irq_master, irq_inj]
      · simp [track, irq_inj]
    | slave l =>
      rw [i8259.disable_irq, if_neg (slave_number l).1, if_pos hle, (slave_number l).2]
      refine hp.slave_mask (fun l' => ?_) fun l' => ?_
      · rw [bit_set, hp.slave_bit]
        simp [track, irq_inj]
      · simp [track, irq_inj]
  · have hnone : track lines (.disable_irq irq_num) = lines := by
      funext line
      simp [track, irq_ne hle]
    rw [i8259.disable_irq, if_neg (fun h => hle (UInt32.le_trans h (by decide))), if_neg hle, hnone]
    exact ⟨hp.master, hp.slave, hp.enabled⟩

/-- An end of interrupt concerns what is in service only. -/
theorem Tracks.send_eoi (irq_num : UInt32) : Tracks lines (send_eoi p irq_num) := by
  by_cases hle : irq_num ≤ SLAVE_IRQ_NUM
  · obtain ⟨line, rfl⟩ := exists_line hle
    rw [send_eoi_line]
    cases line with
    | master l => exact ⟨hp.master.finish l, hp.slave, hp.enabled⟩
    | slave l => exact ⟨hp.master.finish CASCADE, hp.slave.finish l, hp.enabled⟩
  · rw [i8259.send_eoi, if_neg hle]
    exact ⟨hp.master, hp.slave, hp.enabled⟩

theorem Tracks.call (c : Call) : Tracks (track lines c) (call p c) := by
  cases c with
  | enable_irq irq_num => exact hp.enable_irq irq_num
  | disable_irq irq_num => exact hp.disable_irq irq_num
  | send_eoi irq_num => exact hp.send_eoi irq_num

/-- Every call of a sequence. -/
theorem Tracks.calls (calls : List Call) : Tracks (calls.foldl track lines) (calls.foldl i8259.call p) := by
  induction calls generalizing lines p with
  | nil => exact hp
  | cons c calls ih => exact ih (hp.call c)

end Calls

theorem tracks_i8259_init (p : Pics) : Tracks (fun line => line = .master CASCADE) (i8259_init p) := by
  have hoff : ∀ l : Fin 8, (!OFF_MASK.toBitVec.getLsbD l) = false := by decide
  -- The masks are off before the slave's line is enabled.
  have hstart : Tracks (fun _ => false) { outs p
      [(ICW1, MASTER_8259_PORT), (ICW2_MASTER, MASTER_8259_PORT_2), (ICW3_MASTER, MASTER_8259_PORT_2),
        (ICW4, MASTER_8259_PORT_2), (ICW1, SLAVE_8259_PORT), (ICW2_SLAVE, SLAVE_8259_PORT_2),
        (ICW3_SLAVE, SLAVE_8259_PORT_2), (ICW4, SLAVE_8259_PORT_2), (OFF_MASK, MASTER_8259_PORT_2),
        (OFF_MASK, SLAVE_8259_PORT_2)] with master_mask := OFF_MASK, slave_mask := OFF_MASK } := by
    refine ⟨⟨rfl, rfl, rfl, rfl⟩, ⟨rfl, rfl, rfl, rfl⟩, fun line => ?_⟩
    cases line with
    | master l => exact hoff l
    | slave l => exact hoff l
  have hlines : track (fun _ => false) (.enable_irq 2) = fun line => decide (line = .master CASCADE) := by
    funext line
    have hnumber : (2 : UInt32) = irq (.master CASCADE) := rfl
    simp [track, hnumber, irq_inj]
  rw [← hlines]
  exact hstart.enable_irq 2

/-- Whatever the state the controllers were in, after `i8259_init` and any calls of the driver
    they have their vectors, and they let exactly those lines through that were enabled last,
    with the line of the slave among them from the start. -/
theorem enabled_lines_tracked (p : Pics) (calls : List Call) :
    Tracks (calls.foldl track fun line => line = .master CASCADE) (calls.foldl call (i8259_init p)) :=
  (tracks_i8259_init p).calls calls

end lacos.i8259
