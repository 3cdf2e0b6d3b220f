import LacOS.Fish.Refine

open memory

namespace lacos.fish

/-- How many ticks a countdown from `length` takes: it is over when the number is not positive,
    as a signed one, after it has been counted down. -/
def ticks (length : UInt16) : Nat := if 1 ≤ length.toNat ∧ length.toNat ≤ 2 ^ 15 then length.toNat else 1

/-- The structure that `mp1_ioctl_add` puts on the list. -/
def Blink.started (user : Blink) : Blink := { user with status := 1, countdown := user.on_length }

/-- The structure after `n` ticks. -/
def Blink.after (user : Blink) : Nat → Blink
  | 0 => user.started
  | n + 1 => (user.after n).turn.1

/-- Whether the character is on after `n` ticks. -/
def Blink.lit (user : Blink) (n : Nat) : Prop := n % (ticks user.on_length + ticks user.off_length) < ticks user.on_length

instance (user : Blink) (n : Nat) : Decidable (user.lit n) := by
  unfold Blink.lit
  infer_instance

/-- Every countdown takes one tick at least. -/
theorem ticks_pos (length : UInt16) : 0 < ticks length := by
  rw [ticks]
  split
  · omega
  · exact Nat.one_pos

/-- The comparison of the source is one of signed numbers. -/
theorem positive_iff (value : UInt16) : value.toInt16 > 0 ↔ 0 < value.toNat ∧ value.toNat < 2 ^ 15 := by
  have hvalue := value.toNat_lt
  have hint : value.toInt16.toInt = if 2 * value.toNat < 2 ^ 16 then (value.toNat : Int) else value.toNat - 2 ^ 16 :=
    BitVec.toInt_eq_toNat_cond value.toBitVec
  rw [gt_iff_lt, Int16.lt_iff_toInt_lt, hint, Int16.toInt_zero]
  split
  · omega
  · omega

/-- A countdown goes on until its ticks are over. -/
theorem countdown_positive_iff (length : UInt16) {passed : Nat} (hpassed : passed < ticks length) :
    (length - UInt16.ofNat passed - 1).toInt16 > 0 ↔ passed + 1 < ticks length := by
  have hlength := length.toNat_lt
  rw [positive_iff, UInt16.toNat_sub, UInt16.toNat_sub, UInt16.toNat_ofNat']
  have hone : (1 : UInt16).toNat = 1 := rfl
  rw [hone]
  by_cases hpositive : 1 ≤ length.toNat ∧ length.toNat ≤ 2 ^ 15
  · rw [ticks, if_pos hpositive] at *
    omega
  · rw [ticks, if_neg hpositive] at *
    omega

section Turn

variable {blink : Blink}

/-- Nothing is drawn while the countdown is positive. -/
theorem Blink.turn_waits (hcountdown : (blink.countdown - 1).toInt16 > 0) :
    blink.turn = ({ blink with countdown := blink.countdown - 1 }, none) := by
  rw [Blink.turn]
  simp only [if_pos hcountdown]

/-- After the on time the off character is drawn. -/
theorem Blink.turn_off (hcountdown : ¬ (blink.countdown - 1).toInt16 > 0) (hstatus : blink.status = 1) :
    blink.turn = ({ blink with countdown := blink.off_length, status := 0 }, some blink.off_char) := by
  have hodd : (1 : UInt16) &&& 1 ≠ 0 := by decide
  rw [Blink.turn]
  simp only [if_neg hcountdown, hstatus, if_pos hodd]
  rfl

/-- After the off time the on character is drawn. -/
theorem Blink.turn_on (hcountdown : ¬ (blink.countdown - 1).toInt16 > 0) (hstatus : blink.status = 0) :
    blink.turn = ({ blink with countdown := blink.on_length, status := 1 }, some blink.on_char) := by
  have heven : ¬ (0 : UInt16) &&& 1 ≠ 0 := by decide
  rw [Blink.turn]
  simp only [if_neg hcountdown, hstatus, if_neg heven]
  rfl

/-- The characters do not change, nor do the lengths. -/
theorem Blink.turn_keeps (blink : Blink) :
    blink.turn.1.on_char = blink.on_char ∧ blink.turn.1.off_char = blink.off_char ∧
      blink.turn.1.on_length = blink.on_length ∧ blink.turn.1.off_length = blink.off_length := by
  rw [Blink.turn]
  simp only
  split
  · exact ⟨rfl, rfl, rfl, rfl⟩
  · split
    · exact ⟨rfl, rfl, rfl, rfl⟩
    · exact ⟨rfl, rfl, rfl, rfl⟩

end Turn

/-- Where a structure is in its period, with `passed` ticks of the length that counts. -/
inductive Phase (user blink : Blink) (r : Nat) : Prop where
  | on (hr : r < ticks user.on_length) (hstatus : blink.status = 1)
      (hcountdown : blink.countdown = user.on_length - UInt16.ofNat r)
  | off (passed : Nat) (hr : r = ticks user.on_length + passed) (hpassed : passed < ticks user.off_length)
      (hstatus : blink.status = 0) (hcountdown : blink.countdown = user.off_length - UInt16.ofNat passed)

section Phase

variable {user blink : Blink} (hon : blink.on_length = user.on_length) (hoff : blink.off_length = user.off_length)
include hon hoff

/-- A tick leads from each phase to the next, and from the last to the first. -/
theorem Phase.turn {r : Nat} (hphase : Phase user blink r) :
    Phase user blink.turn.1 (if r + 1 = ticks user.on_length + ticks user.off_length then 0 else r + 1) := by
  have hpos := ticks_pos user.off_length
  have hone (r : Nat) (length : UInt16) : length - UInt16.ofNat r - 1 = length - UInt16.ofNat (r + 1) := by
    rw [UInt16.ofNat_add]
    grind
  have hstart (length : UInt16) : length = length - UInt16.ofNat 0 := (UInt16.sub_zero length).symm
  cases hphase with
  | on hr hstatus hcountdown =>
    have hgoes := countdown_positive_iff user.on_length hr
    rw [← hcountdown] at hgoes
    rw [if_neg (by omega)]
    by_cases hlast : r + 1 < ticks user.on_length
    · rw [Blink.turn_waits (hgoes.mpr hlast)]
      exact .on hlast hstatus (hcountdown ▸ hone r _)
    · rw [Blink.turn_off (fun h => hlast (hgoes.mp h)) hstatus]
      exact .off 0 (by omega) hpos rfl (hoff.trans (hstart _))
  | off passed hr hpassed hstatus hcountdown =>
    have hgoes := countdown_positive_iff user.off_length hpassed
    rw [← hcountdown] at hgoes
    by_cases hlast : passed + 1 < ticks user.off_length
    · rw [if_neg (by omega), Blink.turn_waits (hgoes.mpr hlast)]
      exact .off (passed + 1) (by omega) hlast hstatus (hcountdown ▸ hone passed _)
    · rw [if_pos (by omega), Blink.turn_on (fun h => hlast (hgoes.mp h)) hstatus]
      exact .on (ticks_pos _) rfl (hon.trans (hstart _))

end Phase

section After

variable (user : Blink)

/-- Blinking changes neither the place nor the characters nor the times. -/
theorem Blink.after_keeps (n : Nat) :
    (user.after n).location = user.location ∧ (user.after n).on_char = user.on_char ∧
      (user.after n).off_char = user.off_char ∧ (user.after n).on_length = user.on_length ∧
      (user.after n).off_length = user.off_length := by
  induction n with
  | zero => exact ⟨rfl, rfl, rfl, rfl, rfl⟩
  | succ n ih =>
    obtain ⟨hon_char, hoff_char, hon, hoff⟩ := (user.after n).turn_keeps
    rw [Blink.after, Blink.turn_location, hon_char, hoff_char, hon, hoff]
    exact ih

/-- The phase after `n` ticks is that of the remainder. -/
theorem Blink.after_phase (n : Nat) :
    Phase user (user.after n) (n % (ticks user.on_length + ticks user.off_length)) := by
  have hpos := ticks_pos user.on_length
  induction n with
  | zero =>
    rw [Nat.zero_mod]
    exact .on hpos rfl (UInt16.sub_zero _).symm
  | succ n ih =>
    obtain ⟨-, -, -, hon, hoff⟩ := user.after_keeps n
    have hmod : (n + 1) % (ticks user.on_length + ticks user.off_length) =
        if n % (ticks user.on_length + ticks user.off_length) + 1 = ticks user.on_length + ticks user.off_length then 0
        else n % (ticks user.on_length + ticks user.off_length) + 1 := by
      have hlt := Nat.mod_lt n (Nat.add_pos_left hpos (ticks user.off_length))
      rw [← Nat.mod_add_mod]
      split
      · rename_i hlast
        rw [hlast, Nat.mod_self]
      · exact Nat.mod_eq_of_lt (by omega)
    rw [hmod]
    exact ih.turn hon hoff

/-- The status tells whether the character is on. -/
theorem Blink.after_status (n : Nat) : (user.after n).status = if user.lit n then 1 else 0 := by
  cases user.after_phase n with
  | on hr hstatus _ => rw [hstatus, if_pos (show user.lit n from hr)]
  | off passed hr _ hstatus _ => rw [hstatus, if_neg (by rw [Blink.lit]; omega)]

/-- The character to be seen after `n` ticks. -/
def Blink.charAfter (n : Nat) : UInt8 := if user.lit n then user.on_char else user.off_char

/-- What a tick displays is the character to be seen after it. -/
theorem Blink.charAfter_succ (n : Nat) :
    (user.after n).turn.2.getD (user.charAfter n) = user.charAfter (n + 1) := by
  obtain ⟨-, hon_char, hoff_char, -, -⟩ := user.after_keeps n
  have hbefore := user.after_status n
  have hafter := user.after_status (n + 1)
  have hne : (1 : UInt16) ≠ 0 := by decide
  rw [Blink.after] at hafter
  rw [Blink.charAfter, Blink.charAfter]
  by_cases hgoes : ((user.after n).countdown - 1).toInt16 > 0
  · rw [Blink.turn_waits hgoes] at hafter ⊢
    have hsame : user.lit n ↔ user.lit (n + 1) := by
      have hstatus := hbefore.symm.trans hafter
      by_cases hlit : user.lit n
      · by_cases hnext : user.lit (n + 1)
        · exact iff_of_true hlit hnext
        · rw [if_pos hlit, if_neg hnext] at hstatus
          exact absurd hstatus hne
      · by_cases hnext : user.lit (n + 1)
        · rw [if_neg hlit, if_pos hnext] at hstatus
          exact absurd hstatus.symm hne
        · exact iff_of_false hlit hnext
    simp only [Option.getD_none, hsame]
  · by_cases hlit : user.lit n
    · rw [if_pos hlit] at hbefore
      rw [Blink.turn_off hgoes hbefore] at hafter ⊢
      have hnext : ¬ user.lit (n + 1) := by
        intro hnext
        rw [if_pos hnext] at hafter
        exact hne hafter.symm
      rw [if_neg hnext, Option.getD_some, hoff_char]
    · rw [if_neg hlit] at hbefore
      rw [Blink.turn_on hgoes hbefore] at hafter ⊢
      have hnext : user.lit (n + 1) := by
        by_contra hnext
        rw [if_neg hnext] at hafter
        exact hne hafter
      rw [if_pos hnext, Option.getD_some, hon_char]

end After

theorem Blink.offset_toNat (blink : Blink) : blink.offset.toNat = 2 * blink.location.toNat := by
  have hlocation := blink.location.toNat_lt
  rw [Blink.offset, UInt32.toNat_shiftLeft, UInt16.toNat_toUInt32]
  change blink.location.toNat <<< 1 % 2 ^ 32 = _
  rw [Nat.shiftLeft_eq]
  omega

/-- Different locations are at different addresses. -/
theorem Blink.address_inj {vmem_base_addr : UInt32} {a b : Blink}
    (haddr : vmem_base_addr + a.offset = vmem_base_addr + b.offset) : a.location = b.location := by
  have hoffset : a.offset = b.offset := by grind
  have hnat := congrArg UInt32.toNat hoffset
  rw [Blink.offset_toNat, Blink.offset_toNat] at hnat
  exact UInt16.toNat_inj.mp (by omega)

section ShowTurn

variable (vmem_base_addr : UInt32)

/-- At its own place a blink shows what its turn draws, or what was there. -/
theorem showTurn_self (video : Mem) (blink : Blink) :
    showTurn vmem_base_addr video blink (vmem_base_addr + blink.offset) =
      blink.turn.2.getD (video (vmem_base_addr + blink.offset)) := by
  rw [showTurn]
  cases blink.turn.2 with
  | none => rfl
  | some cl => exact Function.update_self ..

/-- A turn draws at its own place only. -/
theorem showTurn_other (video : Mem) {blink : Blink} {a : UInt32} (ha : a ≠ vmem_base_addr + blink.offset) :
    showTurn vmem_base_addr video blink a = video a := by
  rw [showTurn]
  cases blink.turn.2 with
  | none => rfl
  | some cl => exact Function.update_of_ne ha _ _

/-- So do the turns of a whole list. -/
theorem foldl_showTurn_other {blinks : List Blink} (video : Mem) {a : UInt32}
    (ha : ∀ blink ∈ blinks, a ≠ vmem_base_addr + blink.offset) :
    blinks.foldl (showTurn vmem_base_addr) video a = video a := by
  induction blinks generalizing video with
  | nil => rfl
  | cons blink blinks ih =>
    rw [List.foldl_cons, ih _ fun b hb => ha b (List.mem_cons_of_mem _ hb),
      showTurn_other _ _ (ha blink List.mem_cons_self)]

/-- Characters at different places do not get in each other's way. -/
theorem foldl_showTurn {blinks : List Blink} (hdistinct : (blinks.map (·.location)).Nodup) (video : Mem)
    {blink : Blink} (hblink : blink ∈ blinks) :
    blinks.foldl (showTurn vmem_base_addr) video (vmem_base_addr + blink.offset) =
      blink.turn.2.getD (video (vmem_base_addr + blink.offset)) := by
  induction blinks generalizing video with
  | nil => cases hblink
  | cons first blinks ih =>
    obtain ⟨hfirst, hrest⟩ := List.nodup_cons.mp hdistinct
    rw [List.foldl_cons]
    obtain rfl | hlater := List.mem_cons.mp hblink
    · rw [foldl_showTurn_other _ _ fun b hb haddr => hfirst ?_, showTurn_self]
      exact List.mem_map.mpr ⟨b, hb, (Blink.address_inj haddr).symm⟩
    · rw [ih hrest _ hlater, showTurn_other]
      intro haddr
      exact hfirst (List.mem_map.mpr ⟨blink, hlater, Blink.address_inj haddr⟩)

end ShowTurn

/-- The characters `users` have been added, in this order, and `n` ticks have passed. -/
structure Blinking (d : Display) (vmem_base_addr : UInt32) (video : Mem) (users : List Blink) (n : Nat) : Prop where
  blinks : d.blinks = (users.map (·.after n)).reverse
  base : d.vmem_base_addr = vmem_base_addr
  shown : ∀ user ∈ users, d.video (vmem_base_addr + user.offset) = user.charAfter n
  rest : ∀ a, (∀ user ∈ users, a ≠ vmem_base_addr + user.offset) → d.video a = video a

theorem Blink.after_offset (user : Blink) (n : Nat) : (user.after n).offset = user.offset := by
  rw [Blink.offset, (user.after_keeps n).1, Blink.offset]

section Blinking

variable {d : Display} {vmem_base_addr : UInt32} {video : Mem} {users : List Blink}

/-- A new blink is counted from its first tick on. All must be added before the first tick. -/
theorem Blinking.add {user : Blink} (hd : Blinking d vmem_base_addr video users 0) (hplace : user.location < 80 * 25)
    (hroom : users.length < BLINK_NUM) (hnew : user.location ∉ users.map (·.location)) :
    (d.add user).1 = 0 ∧ Blinking (d.add user).2 vmem_base_addr video (users ++ [user]) 0 := by
  have hlength : d.blinks.length = users.length := by rw [hd.blinks, List.length_reverse, List.length_map]
  have hother (u : Blink) (hu : u ∈ users) : vmem_base_addr + u.offset ≠ vmem_base_addr + user.offset := by
    intro haddr
    exact hnew (List.mem_map.mpr ⟨u, hu, Blink.address_inj haddr⟩)
  have hfirst : user.charAfter 0 = user.on_char := by
    rw [Blink.charAfter, if_pos]
    rw [Blink.lit, Nat.zero_mod]
    exact ticks_pos _
  rw [Display.add, if_neg (not_or.mpr ⟨UInt16.not_le.mpr hplace, by omega⟩)]
  refine ⟨rfl, ?_, hd.base, fun u hu => ?_, fun a ha => ?_⟩
  · rw [List.map_append, List.reverse_append, ← hd.blinks]
    rfl
  · change store d.video (d.vmem_base_addr + user.offset) user.on_char _ = _
    rw [hd.base]
    obtain hu | rfl := List.mem_append.mp hu |>.imp_right List.mem_singleton.mp
    · rw [store, Function.update_of_ne (hother u hu), hd.shown u hu]
    · rw [store, Function.update_self, hfirst]
  · change store d.video (d.vmem_base_addr + user.offset) user.on_char _ = _
    rw [hd.base, store, Function.update_of_ne (ha user (List.mem_append_right _ List.mem_cons_self))]
    exact hd.rest a fun u hu => ha u (List.mem_append_left _ hu)

/-- One tick moves each blink on by one. No two are at one place. -/
theorem Blinking.tick {n : Nat} (hd : Blinking d vmem_base_addr video users n)
    (hdistinct : (users.map (·.location)).Nodup) : Blinking d.tick vmem_base_addr video users (n + 1) := by
  have hlocations : (d.blinks.map (·.location)).Nodup := by
    have hkept : (users.map (·.after n)).map (·.location) = users.map (·.location) := by
      rw [List.map_map]
      exact List.map_congr_left fun u _ => (u.after_keeps n).1
    rw [hd.blinks, List.map_reverse, List.nodup_reverse, hkept]
    exact hdistinct
  refine ⟨?_, hd.base, fun u hu => ?_, fun a ha => ?_⟩
  · rw [Display.tick, hd.blinks, List.map_reverse, List.map_map]
    rfl
  · have hmem : u.after n ∈ d.blinks := by
      rw [hd.blinks, List.mem_reverse]
      exact List.mem_map_of_mem hu
    have hturn := foldl_showTurn vmem_base_addr hlocations d.video hmem
    rw [Blink.after_offset, hd.shown u hu, Blink.charAfter_succ] at hturn
    rw [Display.tick, hd.base]
    exact hturn
  · have hother : ∀ blink ∈ d.blinks, a ≠ vmem_base_addr + blink.offset := by
      intro blink hblink
      rw [hd.blinks, List.mem_reverse] at hblink
      obtain ⟨u, hu, rfl⟩ := List.mem_map.mp hblink
      rw [Blink.after_offset]
      exact ha u hu
    have hkept := foldl_showTurn_other vmem_base_addr d.video hother
    rw [Display.tick, hd.base]
    exact hkept.trans (hd.rest a ha)

/-- The characters are added one after the other. -/
theorem Blinking.adds {more : List Blink} (hd : Blinking d vmem_base_addr video users 0)
    (hplace : ∀ user ∈ more, user.location < 80 * 25) (hroom : (users ++ more).length ≤ BLINK_NUM)
    (hdistinct : ((users ++ more).map (·.location)).Nodup) :
    (d.run (more.map .rtc_add)).1 = List.replicate more.length ⟨0, none⟩ ∧
      Blinking (d.run (more.map .rtc_add)).2 vmem_base_addr video (users ++ more) 0 := by
  induction more generalizing d users with
  | nil =>
    rw [List.append_nil]
    exact ⟨rfl, hd⟩
  | cons user more ih =>
    have hsplit : users ++ user :: more = users ++ [user] ++ more := by rw [List.append_assoc]; rfl
    have hnew : user.location ∉ users.map (·.location) := by
      rw [List.map_append, List.map_cons, List.nodup_middle, List.nodup_cons] at hdistinct
      exact fun hmem => hdistinct.1 (List.mem_append_left _ hmem)
    rw [List.length_append, List.length_cons] at hroom
    obtain ⟨hzero, hadded⟩ := hd.add (hplace user List.mem_cons_self) (by omega) hnew
    obtain ⟨hreplies, hrest⟩ := ih hadded (fun u hu => hplace u (List.mem_cons_of_mem _ hu))
      (by simp only [List.length_append, List.length_cons, List.length_nil]; omega) (hsplit ▸ hdistinct)
    rw [hsplit]
    refine ⟨?_, hrest⟩
    rw [List.map_cons, Display.run]
    simp only [Display.step, hreplies, hzero]
    rfl

/-- So do any number of ticks. By induction on them. -/
theorem Blinking.ticks {n : Nat} (hd : Blinking d vmem_base_addr video users n)
    (hdistinct : (users.map (·.location)).Nodup) (more : Nat) :
    (d.run (List.replicate more .tasklet)).1 = List.replicate more ⟨0, none⟩ ∧
      Blinking (d.run (List.replicate more .tasklet)).2 vmem_base_addr video users (n + more) := by
  induction more generalizing d n with
  | zero => exact ⟨rfl, hd⟩
  | succ more ih =>
    obtain ⟨hreplies, hrest⟩ := ih (hd.tick hdistinct)
    rw [Nat.add_right_comm] at hrest
    refine ⟨?_, hrest⟩
    rw [List.replicate_succ, Display.run]
    simp only [Display.step, hreplies]
    rfl

end Blinking

theorem Display.run_append (d : Display) (first second : List Command) :
    d.run (first ++ second) =
      ((d.run first).1 ++ ((d.run first).2.run second).1, ((d.run first).2.run second).2) := by
  induction first generalizing d with
  | nil => rfl
  | cons command first ih =>
    simp only [List.cons_append, Display.run, ih]

/-- Every character blinks on its own. If characters are added at different places other than the
    first, and the tasklet then runs any number of times, each place shows the character's on and
    off sides in turn, for as many ticks as its lengths say, and nothing else changes. The
    characters and their lengths may be any, and the screen may hold anything before. -/
theorem characters_blink (vmem_base_addr : UInt32) (video : Mem) (users : List Blink)
    (hplace : ∀ user ∈ users, 0 < user.location ∧ user.location < 80 * 25)
    (hdistinct : (users.map (·.location)).Nodup) (n : Nat) :
    ∃ f, (Fish.start vmem_base_addr video).run (users.map .rtc_add ++ List.replicate n .tasklet) =
        some (List.replicate (users.length + n) ⟨0, none⟩, f) ∧
      (∀ user ∈ users, f.video (vmem_base_addr + user.offset) = user.charAfter n) ∧
      ∀ a, (∀ user ∈ users, a ≠ vmem_base_addr + user.offset) → f.video a = video a := by
  have hplaced : ∀ command ∈ users.map .rtc_add ++ List.replicate n .tasklet, Command.Placed command := by
    intro command hcommand
    rw [List.mem_append, List.mem_map, List.mem_replicate] at hcommand
    obtain ⟨user, huser, rfl⟩ | ⟨-, rfl⟩ := hcommand
    · exact (UInt16.ne_of_lt (hplace user huser).1).symm
    · trivial
  have hroom : users.length ≤ BLINK_NUM := by
    have hbelow : ∀ place ∈ (users.map (·.location)).map UInt16.toNat, place ∈ List.range BLINK_NUM := by
      intro place hplace'
      simp only [List.mem_map, List.mem_range] at hplace' ⊢
      obtain ⟨_, ⟨user, huser, rfl⟩, rfl⟩ := hplace'
      exact UInt16.lt_iff_toNat_lt.mp (hplace user huser).2
    have hnodup : ((users.map (·.location)).map UInt16.toNat).Nodup :=
      hdistinct.map fun _ _ => UInt16.toNat_inj.mp
    have hle := (List.subperm_of_subset hnodup hbelow).length_le
    simpa only [List.length_map, List.length_range] using hle
  have hstart : Blinking (Display.start vmem_base_addr video) vmem_base_addr video [] 0 :=
    ⟨rfl, rfl, fun _ hu => absurd hu List.not_mem_nil, fun _ _ => rfl⟩
  obtain ⟨hadds, hadded⟩ := hstart.adds (fun u hu => (hplace u hu).2) hroom hdistinct
  obtain ⟨hticks, hticked⟩ := hadded.ticks hdistinct n
  rw [List.nil_append, Nat.zero_add] at hticked
  obtain ⟨f, cells, hrun, hf⟩ := (start_refines vmem_base_addr video).run hplaced
  rw [Display.run_append] at hrun hf
  rw [hadds, hticks, ← List.replicate_add] at hrun
  refine ⟨f, hrun, fun user huser => ?_, fun a ha => ?_⟩
  · rw [← hf.video]
    exact hticked.shown user huser
  · rw [← hf.video]
    exact hticked.rest a ha

/-- Two stars, on for two ticks and off for one, after two ticks. -/
theorem characters_blink_two_stars :
    ∃ f, (Fish.start 0xB8000 fun _ => 7).run
        ([.rtc_add (star 5), .rtc_add (star 1999)] ++ List.replicate 2 .tasklet) =
        some (List.replicate 4 ⟨0, none⟩, f) ∧
      f.video 0xB800A = 32 ∧ f.video 0xB8F9E = 32 ∧ f.video 0xB800B = 7 := by
  obtain ⟨f, hrun, hshown, hrest⟩ := characters_blink 0xB8000 (fun _ => 7) [star 5, star 1999] (by decide) (by decide) 2
  exact ⟨f, hrun, hshown (star 5) (by decide), hshown (star 1999) (by decide), hrest 0xB800B (by decide)⟩

end lacos.fish
