import Mathlib.Data.Fin.Tuple.Basic
import Mathlib.Tactic.Common

namespace controller

/-- The word that an 8259 interrupt controller takes next at its second port. -/
inductive Phase where
  | icw2
  | icw3
  | icw4
  | ready
  deriving DecidableEq

/-- A controller: its initialization words, the mask, and the levels that are requested and
    in service. -/
structure Chip where
  phase : Phase
  icw2 : UInt8
  icw3 : UInt8
  icw4 : UInt8
  imr : UInt8
  irr : Fin 8 → Bool
  isr : Fin 8 → Bool

/-- The level that an end of interrupt names. -/
def level (v : UInt8) : Fin 8 := ⟨v.toNat % 8, Nat.mod_lt _ (by decide)⟩

/-- The controller when a level is no longer in service. -/
def Chip.finish (chip : Chip) (l : Fin 8) : Chip := { chip with isr := Function.update chip.isr l false }

/-- A byte at the first port: the first initialization word, or the end of interrupt for one
    level. Other commands are not modelled. -/
def Chip.command (chip : Chip) (v : UInt8) : Chip :=
  if v &&& 0x10 ≠ 0 then { chip with phase := .icw2, imr := 0, irr := fun _ => false, isr := fun _ => false }
  else if v &&& 0xF8 = 0x60 then chip.finish (level v)
  else chip

/-- A byte at the second port: the other initialization words, and then masks. -/
def Chip.data (chip : Chip) (v : UInt8) : Chip :=
  match chip.phase with
  | .icw2 => { chip with phase := .icw3, icw2 := v }
  | .icw3 => { chip with phase := .icw4, icw3 := v }
  | .icw4 => { chip with phase := .ready, icw4 := v }
  | .ready => { chip with imr := v }

/-- Once a chip is set up, a byte at its data port is the new mask. -/
theorem data_ready {chip : Chip} (hready : chip.phase = .ready) (v : UInt8) :
    chip.data v = { chip with imr := v } := by
  simp only [Chip.data, hready]

/-- Whether the mask lets a level through. -/
def Chip.enabled (chip : Chip) (l : Fin 8) : Bool := !chip.imr.toBitVec.getLsbD l

/-- The level that a controller with these inputs asks for: the first one that is requested
    and let through, unless it or one before it is in service. -/
def Chip.request (chip : Chip) (irr : Fin 8 → Bool) : Option (Fin 8) :=
  (Fin.find? fun l => chip.isr l || (irr l && chip.enabled l)).filter fun l => !chip.isr l

/-- The controller when the processor has taken a request. -/
def Chip.take (chip : Chip) (l : Fin 8) : Chip :=
  { chip with irr := Function.update chip.irr l false, isr := Function.update chip.isr l true }

/-- A controller that has got its initialization words, with its mask. -/
structure SetUp (chip : Chip) (icw2 icw3 mask : UInt8) : Prop where
  ready : chip.phase = .ready
  icw2 : chip.icw2 = icw2
  icw3 : chip.icw3 = icw3
  imr : chip.imr = mask

section SetUp

variable {chip : Chip} {icw2 icw3 mask : UInt8} (hchip : SetUp chip icw2 icw3 mask)
include hchip

/-- A chip that is set up keeps its vectors when its mask is changed. -/
theorem SetUp.data (v : UInt8) : SetUp (chip.data v) icw2 icw3 v := by
  rw [data_ready hchip.ready]
  exact ⟨hchip.ready, hchip.icw2, hchip.icw3, rfl⟩

theorem SetUp.finish (l : Fin 8) : SetUp (chip.finish l) icw2 icw3 mask :=
  ⟨hchip.ready, hchip.icw2, hchip.icw3, hchip.imr⟩

theorem SetUp.take (l : Fin 8) : SetUp (chip.take l) icw2 icw3 mask :=
  ⟨hchip.ready, hchip.icw2, hchip.icw3, hchip.imr⟩

/-- A line gets through exactly if its bit of the mask is clear. -/
theorem SetUp.enabled (l : Fin 8) : chip.enabled l = !mask.toBitVec.getLsbD l := by
  rw [Chip.enabled, hchip.imr]

end SetUp

section Request

variable {chip : Chip} {irr : Fin 8 → Bool} {l l' : Fin 8}

/-- The line that a chip asks for is requested and let through, and no line before it is. -/
theorem request_some (hrequest : chip.request irr = some l) :
    irr l = true ∧ chip.enabled l = true ∧ ∀ j < l, (irr j && chip.enabled j) = false := by
  rw [Chip.request, Option.filter_eq_some_iff, Fin.find?_eq_some_iff] at hrequest
  obtain ⟨⟨hl, hbefore⟩, hidle⟩ := hrequest
  rw [Bool.not_eq_true'] at hidle
  rw [hidle, Bool.false_or, Bool.and_eq_true] at hl
  exact ⟨hl.1, hl.2, fun j hj => (Bool.or_eq_false_iff.mp (hbefore j hj)).2⟩

/-- With nothing in service, every line that is requested and let through makes the chip ask for
    some line. -/
theorem exists_request (hidle : ∀ l, chip.isr l = false) (hl : irr l = true) (henabled : chip.enabled l = true) :
    ∃ l', chip.request irr = some l' := by
  have hfound : (Fin.find? fun l => chip.isr l || (irr l && chip.enabled l)).isSome = true :=
    Fin.isSome_find?_iff.mpr ⟨l, by rw [hl, henabled, Bool.and_self, Bool.or_true]⟩
  obtain ⟨l', hl'⟩ := Option.isSome_iff_exists.mp hfound
  exact ⟨l', Option.filter_eq_some_iff.mpr ⟨hl', by rw [hidle]; rfl⟩⟩

end Request

/-- The interrupt lines of a master and of the slave behind it. -/
inductive Line where
  | master (l : Fin 8)
  | slave (l : Fin 8)
  deriving DecidableEq

structure Pair where
  master : Chip
  slave : Chip

/-- The level of the master that the slave is wired to. -/
abbrev CASCADE : Fin 8 := 2

namespace Pair

def requested (pair : Pair) : Line → Bool
  | .master l => pair.master.irr l
  | .slave l => pair.slave.irr l

def enabled (pair : Pair) : Line → Bool
  | .master l => pair.master.enabled l
  | .slave l => pair.slave.enabled l

def inService (pair : Pair) : Line → Bool
  | .master l => pair.master.isr l
  | .slave l => pair.slave.isr l

/-- A device asks for an interrupt. -/
def raise (pair : Pair) : Line → Pair
  | .master l => { pair with master := { pair.master with irr := Function.update pair.master.irr l true } }
  | .slave l => { pair with slave := { pair.slave with irr := Function.update pair.slave.irr l true } }

/-- What the master sees: its own requests, and whether the slave asks for something. -/
def inputs (pair : Pair) : Fin 8 → Bool :=
  Function.update pair.master.irr CASCADE (pair.slave.request pair.slave.irr).isSome

/-- The line whose interrupt the processor gets. -/
def winner (pair : Pair) : Option Line :=
  match pair.master.request pair.inputs with
  | none => none
  | some l => if l = CASCADE then (pair.slave.request pair.slave.irr).map .slave else some (.master l)

/-- The processor takes the interrupt of a line. -/
def acknowledge (pair : Pair) : Line → Pair
  | .master l => { pair with master := pair.master.take l }
  | .slave l => { master := pair.master.take CASCADE, slave := pair.slave.take l }

/-- The interrupt of a line is over. -/
def finish (pair : Pair) : Line → Pair
  | .master l => { pair with master := pair.master.finish l }
  | .slave l => { master := pair.master.finish CASCADE, slave := pair.slave.finish l }

/-- The vector that the processor is given. -/
def vector (pair : Pair) : Line → UInt8
  | .master l => (pair.master.icw2 &&& 0xF8) + UInt8.ofNat l
  | .slave l => (pair.slave.icw2 &&& 0xF8) + UInt8.ofNat l

/-- A line can get through to the processor. -/
def openTo (pair : Pair) : Line → Bool
  | .master l => pair.master.enabled l && l ≠ CASCADE
  | .slave l => pair.slave.enabled l && pair.master.enabled CASCADE

end Pair

/-- The order of the lines: the slave's take the place of the level it is wired to. -/
def Line.rank : Line → Nat
  | .master l => if l ≤ CASCADE then l else l + 8
  | .slave l => CASCADE + l

section Winner

variable {pair : Pair} {line line' : Line}

theorem inputs_of_ne {l : Fin 8} (hl : l ≠ CASCADE) : pair.inputs l = pair.master.irr l :=
  Function.update_of_ne hl _ _

/-- The master sees the slave on one of its own lines, as long as the slave asks for any of its
    lines. -/
theorem inputs_cascade : pair.inputs CASCADE = (pair.slave.request pair.slave.irr).isSome :=
  Function.update_self _ _ _

/-- With no line in service a request that can get through makes for an interrupt. -/
theorem exists_winner (hidle : ∀ line, pair.inService line = false) (hrequested : pair.requested line = true)
    (hopen : pair.openTo line = true) : ∃ line', pair.winner = some line' := by
  have hmaster (l : Fin 8) : pair.master.isr l = false := hidle (.master l)
  have hslave (l : Fin 8) : pair.slave.isr l = false := hidle (.slave l)
  have hasks : ∃ l, pair.inputs l = true ∧ pair.master.enabled l = true := by
    cases line with
    | master l =>
      obtain ⟨henabled, hne⟩ := Bool.and_eq_true_iff.mp hopen
      exact ⟨l, by rw [inputs_of_ne (of_decide_eq_true hne)]; exact hrequested, henabled⟩
    | slave l =>
      obtain ⟨henabled, hcascade⟩ := Bool.and_eq_true_iff.mp hopen
      obtain ⟨l', hl'⟩ := exists_request hslave hrequested henabled
      exact ⟨CASCADE, by rw [inputs_cascade, hl']; rfl, hcascade⟩
  obtain ⟨l, hl, henabled⟩ := hasks
  obtain ⟨l', hl'⟩ := exists_request hmaster hl henabled
  rw [Pair.winner, hl']
  by_cases hcascade : l' = CASCADE
  · have hinput := (request_some hl').1
    rw [hcascade, inputs_cascade] at hinput
    obtain ⟨l'', hl''⟩ := Option.isSome_iff_exists.mp hinput
    exact ⟨.slave l'', by simp only [hcascade, if_true, hl'', Option.map_some]⟩
  · exact ⟨.master l', by simp only [hcascade, if_false]⟩

/-- The interrupt goes to a line that asks for it and can get through. -/
theorem winner_some (hwinner : pair.winner = some line) : pair.requested line = true ∧ pair.openTo line = true := by
  rw [Pair.winner] at hwinner
  cases hmaster : pair.master.request pair.inputs with
  | none =>
    rw [hmaster] at hwinner
    cases hwinner
  | some l =>
    obtain ⟨hinput, henabled, -⟩ := request_some hmaster
    simp only [hmaster] at hwinner
    by_cases hcascade : l = CASCADE
    · rw [if_pos hcascade] at hwinner
      obtain ⟨l', hslave, rfl⟩ := Option.map_eq_some_iff.mp hwinner
      obtain ⟨hirr, hslave_enabled, -⟩ := request_some hslave
      rw [hcascade] at henabled
      exact ⟨hirr, Bool.and_eq_true_iff.mpr ⟨hslave_enabled, henabled⟩⟩
    · rw [if_neg hcascade] at hwinner
      cases hwinner
      rw [inputs_of_ne hcascade] at hinput
      exact ⟨hinput, Bool.and_eq_true_iff.mpr ⟨henabled, decide_eq_true hcascade⟩⟩

/-- With no line in service, no line before the one that gets the interrupt asks for it and
    can get through. -/
theorem winner_first (hidle : ∀ line, pair.inService line = false) (hwinner : pair.winner = some line)
    (hrequested : pair.requested line' = true) (hopen : pair.openTo line' = true) : line.rank ≤ line'.rank := by
  rw [Pair.winner] at hwinner
  cases hmaster : pair.master.request pair.inputs with
  | none =>
    rw [hmaster] at hwinner
    cases hwinner
  | some l =>
    obtain ⟨-, -, hbefore⟩ := request_some hmaster
    simp only [hmaster] at hwinner
    have hlevel (l' : Fin 8) (hinput : pair.inputs l' = true) (henabled : pair.master.enabled l' = true) :
        l.val ≤ l'.val := by
      by_contra hlt
      have hnone := hbefore l' (Fin.lt_def.mpr (Nat.not_le.mp hlt))
      rw [hinput, henabled] at hnone
      cases hnone
    -- The level at which the other line reaches the master is not before the one taken.
    cases line' with
    | master l' =>
      obtain ⟨henabled, hne⟩ := Bool.and_eq_true_iff.mp hopen
      have hne' : l' ≠ CASCADE := of_decide_eq_true hne
      have hle := hlevel l' (by rw [inputs_of_ne hne']; exact hrequested) henabled
      rw [Ne, Fin.ext_iff] at hne'
      by_cases hcascade : l = CASCADE
      · rw [if_pos hcascade] at hwinner
        obtain ⟨l₀, -, rfl⟩ := Option.map_eq_some_iff.mp hwinner
        subst hcascade
        simp only [Line.rank, Fin.le_def]
        split <;> omega
      · rw [if_neg hcascade] at hwinner
        cases hwinner
        simp only [Line.rank, Fin.le_def]
        split <;> split <;> omega
    | slave l' =>
      obtain ⟨henabled, hopen⟩ := Bool.and_eq_true_iff.mp hopen
      have hirr : pair.slave.irr l' = true := hrequested
      obtain ⟨l₀, hslave⟩ := exists_request (fun l => hidle (.slave l)) hirr henabled
      have hle := hlevel CASCADE (by rw [inputs_cascade, hslave]; rfl) hopen
      by_cases hcascade : l = CASCADE
      · rw [if_pos hcascade, hslave] at hwinner
        cases hwinner
        have hfirst : l₀.val ≤ l'.val := by
          by_contra hlt
          have hnone := (request_some hslave).2.2 l' (Fin.lt_def.mpr (Nat.not_le.mp hlt))
          rw [hirr, henabled] at hnone
          cases hnone
        simp only [Line.rank]
        omega
      · rw [if_neg hcascade] at hwinner
        cases hwinner
        simp only [Line.rank, Fin.le_def]
        split <;> omega

end Winner

section Service

variable {pair : Pair} {line : Line}

/-- An interrupt that is over leaves nothing in service. -/
theorem acknowledge_finish (hidle : ∀ line, pair.inService line = false) (line' : Line) :
    ((pair.acknowledge line).finish line).inService line' = false := by
  have hchip (isr : Fin 8 → Bool) (l l' : Fin 8) (hisr : isr l' = false) :
      Function.update (Function.update isr l true) l false l' = false := by
    rw [Function.update_idem, Function.update_apply, hisr, ite_self]
  have hmaster (l : Fin 8) : pair.master.isr l = false := hidle (.master l)
  have hslave (l : Fin 8) : pair.slave.isr l = false := hidle (.slave l)
  cases line <;> cases line'
  · exact hchip _ _ _ (hmaster _)
  · exact hslave _
  · exact hchip _ _ _ (hmaster _)
  · exact hchip _ _ _ (hslave _)

/-- A raised line is requested, and no other line becomes so. -/
theorem requested_raise (line' : Line) :
    (pair.raise line).requested line' = if line' = line then true else pair.requested line' := by
  cases line <;> cases line' <;> simp [Pair.raise, Pair.requested, Function.update_apply]

/-- Raising a line puts nothing in service. -/
theorem inService_raise (line' : Line) : (pair.raise line).inService line' = pair.inService line' := by
  cases line <;> cases line' <;> rfl

/-- The request that is taken is gone, and the others stay. -/
theorem requested_acknowledge (hcascade : pair.requested (.master CASCADE) = false) (line' : Line) :
    (pair.acknowledge line).requested line' = if line' = line then false else pair.requested line' := by
  have hmaster : pair.master.irr CASCADE = false := hcascade
  cases line with
  | master l => cases line' <;> simp [Pair.acknowledge, Pair.requested, Chip.take, Function.update_apply]
  | slave l =>
    cases line' with
    | master l' =>
      by_cases hl : l' = CASCADE
      · simp [Pair.acknowledge, Pair.requested, Chip.take, hl, hmaster]
      · simp [Pair.acknowledge, Pair.requested, Chip.take, hl]
    | slave l' => simp [Pair.acknowledge, Pair.requested, Chip.take, Function.update_apply]

end Service

end controller
