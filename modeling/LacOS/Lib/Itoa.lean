import LacOS.Base.Numeral
import LacOS.Lib.BoundedString
import LacOS.Lib.Printf

open memory

namespace lacos.lib

/-- `while(beg < end)`, both `int32_t`. The indices come closer by two in each turn. -/
def strrev_loop (s : UInt32) : Nat → UInt32 → UInt32 → Mem → Mem
  | 0, _, _, m => m
  | fuel + 1, beg, last, m =>
    if toInt32 beg < toInt32 last then
      let tmp := m (s + last)
      let m := store m (s + last) (m (s + beg))
      let m := store m (s + beg) tmp
      strrev_loop s fuel (beg + 1) (last - 1) m
    else m

/-- `strrev` in place. -/
def strrev (m : Mem) (s : UInt32) : Mem := strrev_loop s (2 ^ 31) 0 (strlen m s - 1) m

/-- The digit characters of `itoa`. -/
def lookup : List UInt8 := chars "0123456789ABCDEFGHIJKLMNOPQRSTUVWXYZ".toList

/-- The loop of `itoa`: it leaves `newbuf` behind the last digit. -/
def itoa_digits (radix : UInt32) : Nat → UInt32 → UInt32 → Mem → UInt32 × Mem
  | 0, _, newbuf, m => (newbuf, m)
  | fuel + 1, newval, newbuf, m =>
    if newval > 0 then
      itoa_digits radix fuel (newval / radix) (newbuf + 1) (store m newbuf (lookup.getD (newval % radix).toNat 0))
    else (newbuf, m)

/-- `itoa` with its buffer in memory. The radix is at least 2, so there are at most 32 digits. -/
def itoa_buf (m : Mem) (value buf radix : UInt32) : Mem :=
  if value = 0 then store (store m buf 0x30) (buf + 1) 0
  else
    let (newbuf, m) := itoa_digits radix 32 value buf m
    strrev (store m newbuf 0) buf

/-- A text with its first `j` and its last `j` characters exchanged. -/
def reversing (text : List UInt8) (j i : Nat) : UInt8 :=
  if i < j ∨ text.length ≤ i + j then text.getD (text.length - 1 - i) 0 else text.getD i 0

section Strrev

variable {text : List UInt8}

/-- One turn exchanges one more pair. -/
theorem reversing_succ {j : Nat} (hj : j < text.length - 1 - j) :
    Function.update (Function.update (reversing text j) (text.length - 1 - j) (reversing text j j)) j
      (reversing text j (text.length - 1 - j)) = reversing text (j + 1) := by
  funext i
  by_cases hfirst : i = j
  · subst hfirst
    rw [Function.update_self, reversing, if_neg (by omega), reversing, if_pos (by omega)]
  · rw [Function.update_of_ne hfirst]
    by_cases hlast : i = text.length - 1 - j
    · subst hlast
      have hback : text.length - 1 - (text.length - 1 - j) = j := by omega
      rw [Function.update_self, reversing, if_neg (by omega), reversing, if_pos (by omega), hback]
    · rw [Function.update_of_ne hlast, reversing, reversing]
      exact if_congr (by omega) rfl rfl

/-- Once the indices meet, the text is reversed. -/
theorem reversing_of_met {i j : Nat} (hi : i < text.length) (hj : text.length - 1 - j ≤ j) :
    reversing text j i = text.reverse.getD i 0 := by
  have hreverse : text.reverse.getD i 0 = text.getD (text.length - 1 - i) 0 := by
    rw [List.getD_eq_getElem _ _ (by rwa [List.length_reverse]), List.getElem_reverse, List.getD_eq_getElem]
  rw [hreverse, reversing]
  split
  · rfl
  · have hmiddle : text.length - 1 - i = i := by omega
    rw [hmiddle]

theorem ofNat_sub_one {n : Nat} (hn : 0 < n) : UInt32.ofNat n - 1 = UInt32.ofNat (n - 1) := by
  have hone : UInt32.ofNat 1 = 1 := rfl
  obtain ⟨n, rfl⟩ := Nat.exists_eq_succ_of_ne_zero (Nat.ne_of_gt hn)
  rw [Nat.succ_eq_add_one, UInt32.ofNat_add, hone, UInt32.add_sub_cancel, Nat.add_sub_cancel]

theorem toInt32_ofNat {i : Nat} (hi : i < 2 ^ 31) : toInt32 (UInt32.ofNat i) = i := by
  have htoNat : (UInt32.ofNat i).toNat = i := UInt32.toNat_ofNat_of_lt' (Nat.lt_trans hi (by decide))
  rw [toInt32_of_lt (by rwa [htoNat]), htoNat]

variable (m : Mem) (s : UInt32)

/-- After `j` rounds of the loop the first and the last `j` characters are exchanged. The loop
    ends when the two indices have met. -/
theorem strrev_loop_eq (hlength : text.length < 2 ^ 31) (hpos : 0 < text.length) {fuel j : Nat}
    (hfuel : text.length ≤ 2 * (j + fuel)) (hj : 2 * j ≤ text.length) :
    strrev_loop s fuel (UInt32.ofNat j) (UInt32.ofNat (text.length - 1 - j))
      (fillWith m s (reversing text j) text.length) = fillWith m s (fun i => text.reverse.getD i 0) text.length := by
  have hdone (j : Nat) (hmet : text.length - 1 - j ≤ j) : fillWith m s (reversing text j) text.length =
      fillWith m s (fun i => text.reverse.getD i 0) text.length := by
    apply eq_fillWith
    · intro i hi
      rw [fillWith_inside _ _ _ hi (by omega), reversing_of_met hi hmet]
    · exact fun a ha => fillWith_outside _ ha
  -- The invariant: after `j` turns, `j` characters at either end are exchanged.
  induction fuel generalizing j with
  | zero => exact hdone j (by omega)
  | succ fuel ih =>
    rw [strrev_loop, toInt32_ofNat (by omega), toInt32_ofNat (by omega)]
    split
    · rename_i hlt
      have hlt' : j < text.length - 1 - j := by omega
      have hprev : UInt32.ofNat (text.length - 1 - j) - 1 = UInt32.ofNat (text.length - 1 - (j + 1)) :=
        ofNat_sub_one (by omega)
      have hnext : UInt32.ofNat j + 1 = UInt32.ofNat (j + 1) := (UInt32.ofNat_add j 1).symm
      simp only
      rw [fillWith_inside _ _ _ (by omega) (by omega), fillWith_inside _ _ _ (by omega) (by omega),
        store_fillWith _ _ _ (by omega) (by omega), store_fillWith _ _ _ (by omega) (by omega), reversing_succ hlt',
        hprev, hnext]
      exact ih (by omega) (by omega)
    · exact hdone j (by omega)

/-- `strrev` reverses a text where it stands, whether its length is odd or even. -/
theorem strrev_eq {m : Mem} {s : UInt32} (htext : IsText m s text) (hnonzero : 0 ∉ text) (hpos : 0 < text.length)
    (hlength : text.length < 2 ^ 31) : strrev m s = fillWith m s (fun i => text.reverse.getD i 0) text.length := by
  have hstart : fillWith m s (reversing text 0) text.length = m := by
    symm
    apply eq_fillWith
    · intro i hi
      rw [htext i (Nat.le_of_lt hi), reversing, if_neg (by omega)]
    · exact fun _ _ => rfl
  have hlast : strlen m s - 1 = UInt32.ofNat (text.length - 1 - 0) := by
    rw [strlen_eq (isString_of_isText htext hnonzero (by omega))]
    exact ofNat_sub_one hpos
  have hloop := @strrev_loop_eq text m s hlength hpos (2 ^ 31) 0 (by omega) (by omega)
  rw [hstart] at hloop
  rw [strrev, hlast]
  exact hloop

/-- A text and its terminator, as a fill. -/
theorem isText_fillWith (m : Mem) (s : UInt32) (hlength : text.length + 1 ≤ 2 ^ 32) :
    IsText (fillWith m s (fun i => text.getD i 0) (text.length + 1)) s text :=
  fun _ hj => fillWith_inside _ _ _ (Nat.lt_succ_of_le hj) hlength

/-- Writing the reverse of a text over it leaves the terminator where it is. -/
theorem fillWith_reverse (m : Mem) (s : UInt32) (text : List UInt8) :
    fillWith (fillWith m s (fun i => text.getD i 0) (text.length + 1)) s (fun i => text.reverse.getD i 0) text.length =
      fillWith m s (fun i => text.reverse.getD i 0) (text.length + 1) := by
  funext a
  by_cases hin : (a - s).toNat < text.length
  · have hlong : (a - s).toNat < text.length + 1 := by omega
    simp only [fillWith, hin, hlong, if_true]
  · have hend : text.getD (a - s).toNat 0 = text.reverse.getD (a - s).toNat 0 := by
      rw [List.getD_eq_default _ _ (by omega), List.getD_eq_default _ _ (by rw [List.length_reverse]; omega)]
    simp only [fillWith, hin, if_false, hend]

end Strrev

/-- The character of a digit. -/
def digitChar (d : Nat) : UInt8 := lookup.getD d 0

/-- The digit a character stands for. -/
def digitValue (c : UInt8) : Nat := lookup.idxOf c

/-- The character of a digit stands for it, in every base up to 36. -/
theorem digitValue_digitChar {d : Nat} (hd : d < 36) : digitValue (digitChar d) = d := by
  have hall : ∀ d : Fin 36, digitValue (digitChar d) = d := by decide +kernel
  exact hall ⟨d, hd⟩

/-- No digit is the terminator. -/
theorem digitChar_ne_zero {d : Nat} (hd : d < 36) : digitChar d ≠ 0 := by
  have hall : ∀ d : Fin 36, digitChar d ≠ 0 := by decide
  exact hall ⟨d, hd⟩

/-- The loop gives one digit a round. -/
theorem itoa_loop_length_le (radix : UInt32) (fuel : Nat) (newval : UInt32) :
    (itoa_loop radix fuel newval).length ≤ fuel := by
  induction fuel generalizing newval with
  | zero => exact Nat.le_refl 0
  | succ fuel ih =>
    rw [itoa_loop]
    split
    · exact Nat.succ_le_succ (ih _)
    · exact Nat.zero_le _

/-- The digits in memory, with `newbuf` behind them. -/
theorem itoa_digits_eq (radix : UInt32) {fuel : Nat} (hfuel : fuel < 2 ^ 31) (newval newbuf : UInt32) (m : Mem) :
    itoa_digits radix fuel newval newbuf m =
      (newbuf + UInt32.ofNat (itoa_loop radix fuel newval).length,
        fillWith m newbuf (fun i => (itoa_loop radix fuel newval).getD i 0) (itoa_loop radix fuel newval).length) := by
  induction fuel generalizing newval newbuf m with
  | zero => simp [itoa_digits, itoa_loop]
  | succ fuel ih =>
    rw [itoa_digits, itoa_loop]
    by_cases hpos : newval > 0
    · have hlength := itoa_loop_length_le radix fuel (newval / radix)
      rw [if_pos hpos, if_pos hpos, ih (by omega), List.length_cons, fillWith_cons _ _ _ _ (by omega), add_ofNat_succ]
      rfl
    · simp [if_neg hpos]

/-- The number a text stands for. -/
def readBack (radix : Nat) (text : List UInt8) : Nat := numeral.value radix (text.map digitValue)

/-- The characters of digits are read back as their number. -/
theorem readBack_digits {ds : List Nat} (hds : ∀ d ∈ ds, d < 36) (radix : Nat) :
    readBack radix (ds.map digitChar) = numeral.value radix ds := by
  have hinverse : ∀ d ∈ ds, (digitValue ∘ digitChar) d = d := fun d hd => digitValue_digitChar (hds d hd)
  rw [readBack, List.map_map, List.map_congr_left hinverse, List.map_id']

/-- The numeral of a number: one or more digits, the first of them zero only in `0`. -/
structure IsNumeral (radix : Nat) (text : List UInt8) (n : Nat) : Prop where
  nonempty : text ≠ []
  digits : ∀ c ∈ text, ∃ d < radix, c = digitChar d
  leading : text.head? = some (digitChar 0) → text = [digitChar 0]
  value : readBack radix text = n

section Digits

variable {radix : UInt32} (hradix : 1 < radix.toNat)
include hradix

/-- The loop of `itoa` finds the digits, lowest first. -/
theorem itoa_loop_eq {fuel : Nat} {newval : UInt32} (hfuel : newval.toNat < radix.toNat ^ fuel) :
    itoa_loop radix fuel newval = (Nat.digits radix.toNat newval.toNat).map digitChar := by
  induction fuel generalizing newval with
  | zero =>
    have hzero : newval.toNat = 0 := by simpa using hfuel
    simp [itoa_loop, hzero]
  | succ fuel ih =>
    rw [itoa_loop]
    by_cases hpos : 0 < newval.toNat
    · have hdigit : newval > 0 := UInt32.lt_iff_toNat_lt.mpr hpos
      have hquotient : (newval / radix).toNat = newval.toNat / radix.toNat := UInt32.toNat_div newval radix
      have hrest : (newval / radix).toNat < radix.toNat ^ fuel := by
        rw [hquotient, Nat.div_lt_iff_lt_mul (by omega), ← Nat.pow_succ]
        exact hfuel
      rw [if_pos hdigit, ih hrest, Nat.digits_def' hradix hpos, List.map_cons, hquotient, UInt32.toNat_mod]
      rfl
    · have hnone : ¬ newval > 0 := fun h => hpos (UInt32.lt_iff_toNat_lt.mp h)
      have hzero : newval.toNat = 0 := by omega
      rw [if_neg hnone, hzero, Nat.digits_zero, List.map_nil]

/-- `itoa` writes the digits of every number, highest first. -/
theorem itoa_eq_digits (value : UInt32) :
    itoa value radix = (numeral.digits radix.toNat value.toNat).map digitChar := by
  rw [itoa, numeral.digits]
  by_cases hzero : value = 0
  · rw [if_pos hzero, hzero, if_pos UInt32.toNat_zero]
    rfl
  · have hne : value.toNat ≠ 0 := fun h => hzero (UInt32.toNat_inj.mp h)
    have hfuel : value.toNat < radix.toNat ^ 32 :=
      Nat.lt_of_lt_of_le value.toNat_lt (Nat.pow_le_pow_left hradix 32)
    rw [if_neg hzero, if_neg hne, itoa_loop_eq hradix hfuel, List.map_reverse]

/-- No numeral is longer than the 32 digits of base two. -/
theorem itoa_length_le (value : UInt32) : (itoa value radix).length ≤ 32 := by
  have hvalue : value.toNat < radix.toNat ^ 32 :=
    Nat.lt_of_lt_of_le value.toNat_lt (Nat.pow_le_pow_left hradix 32)
  rw [itoa_eq_digits hradix, List.length_map]
  exact numeral.length_digits_le hradix (by decide) hvalue

/-- A numeral has no terminator in it, so that it can be printed as a string. -/
theorem zero_notMem_itoa (hmax : radix.toNat ≤ 36) (value : UInt32) : 0 ∉ itoa value radix := by
  rw [itoa_eq_digits hradix, List.mem_map]
  rintro ⟨d, hd, hzero⟩
  have hlt := numeral.digits_lt hradix hd
  exact digitChar_ne_zero (by omega) hzero

/-- Zero has a digit as well. -/
theorem itoa_ne_nil (value : UInt32) : itoa value radix ≠ [] := by
  rw [itoa_eq_digits hradix, ne_eq, List.map_eq_nil_iff]
  exact numeral.digits_ne_nil

/-- `itoa` leaves its string and a zero in the buffer, and nothing else changes. -/
theorem itoa_buf_eq (hmax : radix.toNat ≤ 36) (m : Mem) (value buf : UInt32) :
    itoa_buf m value buf radix =
      fillWith m buf (fun i => (itoa value radix).getD i 0) ((itoa value radix).length + 1) := by
  have hlength := itoa_length_le hradix value
  have hnonzero := zero_notMem_itoa hradix hmax value
  have hpos := List.length_pos_iff.mpr (itoa_ne_nil hradix value)
  rw [itoa_buf]
  by_cases hzero : value = 0
  · have htext : itoa value radix = chars ['0'] := if_pos hzero
    rw [if_pos hzero, htext, fillWith_succ _ _ _ _ (by decide)]
    exact congrArg (fun m => store m (buf + 1) 0) (store_eq_fillWith m buf fun i => (chars ['0']).getD i 0)
  · have htext : itoa value radix = (itoa_loop radix 32 value).reverse := if_neg hzero
    rw [htext, List.length_reverse] at hlength hpos
    rw [htext, List.mem_reverse] at hnonzero
    rw [if_neg hzero, itoa_digits_eq radix (by decide), htext, List.length_reverse]
    generalize itoa_loop radix 32 value = low at hlength hpos hnonzero
    have hend : low.getD low.length 0 = 0 := List.getD_eq_default _ _ (Nat.le_refl _)
    have hterminated := fillWith_succ m buf (fun i => low.getD i 0) low.length (by omega)
    simp only [hend] at hterminated
    simp only [← hterminated]
    rw [strrev_eq (isText_fillWith m buf (by omega)) hnonzero hpos (by omega)]
    exact fillWith_reverse m buf low

/-- Every numeral that `itoa` writes. -/
theorem itoa_isNumeral (hmax : radix.toNat ≤ 36) (value : UInt32) :
    IsNumeral radix.toNat (itoa value radix) value.toNat := by
  have hlt {d : Nat} (hd : d ∈ numeral.digits radix.toNat value.toNat) : d < 36 :=
    Nat.lt_of_lt_of_le (numeral.digits_lt hradix hd) hmax
  refine ⟨itoa_ne_nil hradix value, fun c hc => ?_, fun hhead => ?_, ?_⟩
  · rw [itoa_eq_digits hradix, List.mem_map] at hc
    obtain ⟨d, hd, rfl⟩ := hc
    exact ⟨d, numeral.digits_lt hradix hd, rfl⟩
  · rw [itoa_eq_digits hradix] at hhead ⊢
    rw [List.head?_map, Option.map_eq_some_iff] at hhead
    obtain ⟨d, hd, hzero⟩ := hhead
    have hsame : d = 0 := by
      rw [← digitValue_digitChar (hlt (List.mem_of_mem_head? hd)), hzero]
      decide
    rw [numeral.digits_of_head_zero (hsame ▸ hd)]
    rfl
  · rw [itoa_eq_digits hradix, readBack_digits fun d hd => hlt hd, numeral.value_digits]

end Digits

end lacos.lib
