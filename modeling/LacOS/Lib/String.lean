import Mathlib.Data.Nat.Find
import LacOS.Lib.Memory

open memory

namespace lacos.lib

/-- `while(s[len] != 0) len++`. Over a memory without a zero byte the loop of the
    source does not end; the bound is the number of addresses. -/
def strlen_loop (m : Mem) (s : UInt32) : Nat → UInt32 → UInt32
  | 0, len => len
  | fuel + 1, len => if m (s + len) = 0 then len else strlen_loop m s fuel (len + 1)

def strlen (m : Mem) (s : UInt32) : UInt32 := strlen_loop m s (2 ^ 32) 0

/-- A byte read as an `int8_t`. -/
def toInt8 (value : UInt8) : Int := value.toBitVec.toInt

/-- The loop of `strncmp` from index `i`, with `n` turns left. -/
def strncmp_loop (m₁ m₂ : Mem) (s₁ s₂ : UInt32) : Nat → UInt32 → Int
  | 0, _ => 0
  | n + 1, i =>
    if m₁ (s₁ + i) ≠ m₂ (s₂ + i) ∨ m₁ (s₁ + i) = 0 then toInt8 (m₁ (s₁ + i)) - toInt8 (m₂ (s₂ + i))
    else strncmp_loop m₁ m₂ s₁ s₂ n (i + 1)

def strncmp (m₁ : Mem) (s₁ : UInt32) (m₂ : Mem) (s₂ n : UInt32) : Int :=
  strncmp_loop m₁ m₂ s₁ s₂ n.toNat 0

/-- The second loop of `strncpy`. -/
def strncpy_zeros (d : UInt32) : Nat → UInt32 → Mem → Mem
  | 0, _, m => m
  | n + 1, i, m => strncpy_zeros d n (i + 1) (store m (d + i) 0)

/-- The first loop of `strncpy`, with `view` as for `memcpy`; it hands over to the
    second one at the end of the source string. -/
def strncpy_loop (view : Mem → Mem) (d s : UInt32) : Nat → UInt32 → Mem → Mem
  | 0, _, m => m
  | n + 1, i, m =>
    if view m (s + i) ≠ 0 then strncpy_loop view d s n (i + 1) (store m (d + i) (view m (s + i)))
    else strncpy_zeros d (n + 1) i m

def strncpy (m : Mem) (dest src n : UInt32) : Mem :=
  strncpy_loop id dest src n.toNat 0 m

def strncpy_from (m : Mem) (dest : UInt32) (source : Mem) (src n : UInt32) : Mem :=
  strncpy_loop (fun _ => source) dest src n.toNat 0 m

/-- The memory around a string constant, which starts at address 0. -/
def literal (s : List Char) : Mem := fun a => (chars s).getD a.toNat 0

/-- The string at an address has length `n`. -/
def IsString (m : Mem) (s : UInt32) (n : Nat) : Prop :=
  n < 2 ^ 32 ∧ m (s + UInt32.ofNat n) = 0 ∧ ∀ i < n, m (s + UInt32.ofNat i) ≠ 0

/-- The loop counts on up to the terminator. By induction on the fuel. -/
private theorem strlen_loop_eq {m : Mem} {s : UInt32} {n : Nat} (hstring : IsString m s n) (fuel len : Nat)
    (hlen : len ≤ n) (hfuel : n < len + fuel) : strlen_loop m s fuel (UInt32.ofNat len) = UInt32.ofNat n := by
  obtain ⟨_, hend, hbody⟩ := hstring
  induction fuel generalizing len with
  | zero => omega
  | succ fuel ih =>
    rw [strlen_loop]
    by_cases hlast : len = n
    · rw [hlast, if_pos hend]
    · rw [if_neg (hbody len (by omega)), ← ih (len + 1) (by omega) (by omega), UInt32.ofNat_add]
      rfl

/-- `strlen` gives the length of the string, wherever it lies in memory. -/
theorem strlen_eq {m : Mem} {s : UInt32} {n : Nat} (hstring : IsString m s n) : strlen m s = UInt32.ofNat n :=
  strlen_loop_eq hstring (2 ^ 32) 0 (Nat.zero_le n) (by have := hstring.1; omega)

/-- Two characters with difference zero are equal, signed or not. -/
theorem toInt8_inj {a b : UInt8} (h : toInt8 a - toInt8 b = 0) : a = b := by
  have hint : a.toBitVec.toInt = b.toBitVec.toInt := by
    unfold toInt8 at h
    omega
  exact UInt8.toBitVec_inj.mp (BitVec.toInt_inj.mp hint)

/-- The loop gives zero exactly if the strings agree up to the first terminator or the limit. By
    induction on what is left of the limit. -/
private theorem strncmp_loop_eq_zero_iff (m₁ m₂ : Mem) (s₁ s₂ : UInt32) (n i : Nat) :
    strncmp_loop m₁ m₂ s₁ s₂ n (UInt32.ofNat i) = 0 ↔
      ∀ k < n, (∀ j < k, m₁ (s₁ + UInt32.ofNat (i + j)) ≠ 0) →
        m₁ (s₁ + UInt32.ofNat (i + k)) = m₂ (s₂ + UInt32.ofNat (i + k)) := by
  induction n generalizing i with
  | zero => simp [strncmp_loop]
  | succ n ih =>
    have hnext : UInt32.ofNat i + 1 = UInt32.ofNat (i + 1) := by
      rw [UInt32.ofNat_add]
      rfl
    have hshift (k : Nat) : i + (k + 1) = i + 1 + k := by omega
    rw [strncmp_loop, hnext]
    by_cases hdiff : m₁ (s₁ + UInt32.ofNat i) = m₂ (s₂ + UInt32.ofNat i)
    · by_cases hend : m₁ (s₁ + UInt32.ofNat i) = 0
      · -- Both strings end here: the later characters do not matter.
        rw [if_pos (Or.inr hend), hdiff, Int.sub_self]
        simp only [true_iff]
        intro k _ hbody
        cases k with
        | zero => exact hdiff
        | succ k => exact absurd hend (hbody 0 (by omega))
      · rw [if_neg (by simp [hdiff, hdiff ▸ hend]), ih (i + 1)]
        constructor
        · intro hrest k hk hbody
          cases k with
          | zero => exact hdiff
          | succ k =>
            have htail := hrest k (by omega) fun j hj => by
              rw [← hshift j]
              exact hbody (j + 1) (by omega)
            rw [hshift k]
            exact htail
        · intro hall k hk hbody
          have htail := hall (k + 1) (by omega) fun j hj => by
            cases j with
            | zero => exact hend
            | succ j =>
              rw [hshift j]
              exact hbody j (by omega)
          rw [← hshift k]
          exact htail
    · rw [if_pos (Or.inl hdiff)]
      constructor
      · exact fun hzero => absurd (toInt8_inj hzero) hdiff
      · exact fun hall => absurd (hall 0 (by omega) (by omega)) hdiff

/-- `strncmp` finds no difference if there is none up to the end of the first
    string or the given number of characters. -/
theorem strncmp_eq_zero_iff (m₁ : Mem) (s₁ : UInt32) (m₂ : Mem) (s₂ n : UInt32) :
    strncmp m₁ s₁ m₂ s₂ n = 0 ↔
      ∀ k < n.toNat, (∀ j < k, m₁ (s₁ + UInt32.ofNat j) ≠ 0) →
        m₁ (s₁ + UInt32.ofNat k) = m₂ (s₂ + UInt32.ofNat k) := by
  have hloop := strncmp_loop_eq_zero_iff m₁ m₂ s₁ s₂ n.toNat 0
  simp only [Nat.zero_add] at hloop
  exact hloop

/-- The memory at an address starts with the characters of a text. -/
def Begins (m : Mem) (s : UInt32) (text : List Char) : Prop :=
  ∀ i < text.length, m (s + UInt32.ofNat i) = (chars text).getD i 0

instance (m : Mem) (s : UInt32) (text : List Char) : Decidable (Begins m s text) := by
  unfold Begins
  infer_instance

/-- `strncmp` with the whole of a string constant looks for it at the front. -/
theorem strncmp_literal (m : Mem) (s : UInt32) {text : List Char} (hnonzero : 0 ∉ chars text)
    (hlength : text.length < 2 ^ 32) :
    strncmp m s (literal text) 0 (UInt32.ofNat text.length) = 0 ↔ Begins m s text := by
  have hliteral (k : Nat) (hk : k < text.length) : literal text (0 + UInt32.ofNat k) = (chars text).getD k 0 := by
    rw [UInt32.zero_add, literal, UInt32.toNat_ofNat_of_lt' (Nat.lt_trans hk hlength)]
  rw [strncmp_eq_zero_iff, UInt32.toNat_ofNat_of_lt' hlength]
  constructor
  · intro hsame i
    induction i using Nat.strong_induction_on with
    | _ i ih =>
      intro hi
      rw [← hliteral i hi]
      refine hsame i hi fun j hj => ?_
      have hjlen : j < (chars text).length := by
        rw [chars, List.length_map]
        omega
      rw [ih j hj (by omega), List.getD_eq_getElem?_getD, List.getElem?_eq_getElem hjlen]
      exact fun hzero => hnonzero (hzero ▸ List.getElem_mem hjlen)
  · intro hbegins k hk _
    rw [hbegins k hk, hliteral k hk]

/-- Without a terminator in the source the loop copies up to the limit. -/
private theorem strncpy_loop_eq_blit {view : Mem → Mem} {m src : Mem} {d s : UInt32} {total : Nat}
    (hbody : ∀ i < total, src (s + UInt32.ofNat i) ≠ 0)
    (hview : ∀ i < total, view (blit m d src s i) (s + UInt32.ofNat i) = src (s + UInt32.ofNat i))
    (htotal : total < 2 ^ 32) (n done : Nat) (hn : done + n = total) :
    strncpy_loop view d s n (UInt32.ofNat done) (blit m d src s done) = blit m d src s total := by
  induction n generalizing done with
  | zero => rw [strncpy_loop, ← hn, Nat.add_zero]
  | succ n ih =>
    have hread := hview done (by omega)
    have hnonzero := hbody done (by omega)
    rw [strncpy_loop, hread, if_pos hnonzero, store_eq_blit, blit_append _ _ _ _ _ _ (by omega),
      ← ih (done + 1) (by omega), UInt32.ofNat_add]
    rfl

/-- The rest of the destination is filled with zeros. -/
theorem strncpy_zeros_eq (m : Mem) (d : UInt32) (n : Nat) (i : UInt32) (hn : n < 2 ^ 32) :
    strncpy_zeros d n i m = fillWith m (d + i) (fun _ => 0) n := by
  induction n generalizing i m with
  | zero => rw [strncpy_zeros, fillWith_zero]
  | succ n ih => rw [strncpy_zeros, ih _ _ (by omega), fillWith_cons _ _ _ _ hn, UInt32.add_assoc]

/-- `strncpy` of an empty string fills its whole destination with zeros. -/
theorem strncpy_of_empty (m : Mem) (dest src n : UInt32) (hempty : m src = 0) :
    strncpy m dest src n = fillWith m dest (fun _ => 0) n.toNat := by
  have hlt := n.toNat_lt
  unfold strncpy
  cases hn : n.toNat with
  | zero => rw [strncpy_loop, fillWith_zero]
  | succ n' =>
    simp only [strncpy_loop, UInt32.add_zero, id_eq, hempty, ne_eq, not_true, if_false]
    rw [strncpy_zeros_eq _ _ _ _ (by omega), UInt32.add_zero]

/-- `strncpy` writes nothing but its destination, whatever the source is. -/
private theorem strncpy_loop_outside (view : Mem → Mem) (d s : UInt32) (n : Nat) (i : UInt32) (m : Mem) {a : UInt32}
    (hn : i.toNat + n < 2 ^ 32) (ha : i.toNat + n ≤ (a - d).toNat) : strncpy_loop view d s n i m a = m a := by
  induction n generalizing i m with
  | zero => rfl
  | succ n ih =>
    have hnext : (i + 1).toNat = i.toNat + 1 := by
      rw [UInt32.toNat_add, UInt32.toNat_one]
      omega
    rw [strncpy_loop]
    split
    · have hother : a ≠ d + i := by
        rintro rfl
        rw [UInt32.add_comm, UInt32.add_sub_cancel] at ha
        omega
      rw [ih _ _ (by omega) (by omega)]
      exact Function.update_of_ne hother _ _
    · have hoff : a - (d + i) = a - d - i := by grind
      rw [strncpy_zeros_eq _ _ _ _ (by omega), fillWith_outside]
      rw [hoff, UInt32.toNat_sub_of_le _ _ (by rw [UInt32.le_iff_toNat_le]; omega)]
      omega

/-- `strncpy` writes to no more than `n` bytes. -/
theorem strncpy_outside (m : Mem) (dest src n : UInt32) {a : UInt32} (ha : n.toNat ≤ (a - dest).toNat) :
    strncpy m dest src n a = m a := by
  have hlt := n.toNat_lt
  exact strncpy_loop_outside id dest src n.toNat 0 m (by rw [UInt32.toNat_zero]; omega)
    (by rw [UInt32.toNat_zero]; omega)

/-- Within one memory, `strncpy` of no more than the string's length copies bytes
    if no byte is overwritten before it is read. -/
theorem strncpy_eq_blit (m : Mem) (dest src n : UInt32) (hbody : ∀ i < n.toNat, m (src + UInt32.ofNat i) ≠ 0)
    (hsafe : n.toNat ≤ (dest - src).toNat) :
    strncpy m dest src n = blit m dest m src n.toNat := by
  have hview (i : Nat) (hi : i < n.toNat) :
      id (blit m dest m src i) (src + UInt32.ofNat i) = m (src + UInt32.ofNat i) := by
    apply blit_outside
    have hoff : src + UInt32.ofNat i - dest = src - dest + UInt32.ofNat i := by grind
    rw [hoff, UInt32.toNat_add, UInt32.toNat_ofNat']
    simp only [UInt32.toNat_sub] at hsafe ⊢
    have hsrc := src.toNat_lt
    have hdest := dest.toNat_lt
    omega
  have hloop := strncpy_loop_eq_blit hbody hview n.toNat_lt n.toNat 0 (by omega)
  simpa [strncpy] using hloop

end lacos.lib
