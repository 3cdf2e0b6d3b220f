import Mathlib.Data.List.GetD
import LacOS.Lib.String

open memory

namespace lacos.lib

/-- The string in an array of `n` bytes: it ends at a zero byte or with the array. -/
def nstring (m : Mem) : Nat → UInt32 → List UInt8
  | 0, _ => []
  | n + 1, s => if m s = 0 then [] else m s :: nstring m n (s + 1)

/-- The characters of a text, then a zero, at an address. -/
def IsText (m : Mem) (s : UInt32) (text : List UInt8) : Prop :=
  ∀ j ≤ text.length, m (s + UInt32.ofNat j) = text.getD j 0

section NString

variable (m : Mem)

theorem nstring_length_le (n : Nat) (s : UInt32) : (nstring m n s).length ≤ n := by
  induction n generalizing s with
  | zero => exact Nat.le_refl 0
  | succ n ih =>
    rw [nstring]
    split
    · exact Nat.zero_le _
    · exact Nat.succ_le_succ (ih (s + 1))

/-- A string ends before its first zero, so that none is in it. -/
theorem zero_notMem_nstring (n : Nat) (s : UInt32) : 0 ∉ nstring m n s := by
  induction n generalizing s with
  | zero => exact List.not_mem_nil
  | succ n ih =>
    rw [nstring]
    split
    · exact List.not_mem_nil
    · rename_i hzero
      rw [List.mem_cons, not_or]
      exact ⟨fun heq => hzero heq.symm, ih (s + 1)⟩

variable {m}

/-- The characters of a bounded string, up to the zero byte that may end it. -/
theorem nstring_getD {n : Nat} {s : UInt32} {j : Nat} (hj : j < n) (hend : j ≤ (nstring m n s).length) :
    (nstring m n s).getD j 0 = m (s + UInt32.ofNat j) := by
  induction n generalizing s j with
  | zero => omega
  | succ n ih =>
    rw [nstring] at hend ⊢
    split at hend
    · rename_i hzero
      obtain rfl := Nat.le_zero.mp hend
      rw [if_pos hzero]
      simpa using hzero.symm
    · rename_i hzero
      rw [if_neg hzero]
      cases j with
      | zero => simp
      | succ j =>
        rw [List.getD_cons_succ, ih (by omega) (by simpa using hend), add_ofNat_succ]

/-- An array that holds a text no longer than it. -/
theorem nstring_eq {n : Nat} {s : UInt32} {text : List UInt8} (hlength : text.length ≤ n) (hnonzero : 0 ∉ text)
    (hbytes : ∀ j < n, j ≤ text.length → m (s + UInt32.ofNat j) = text.getD j 0) : nstring m n s = text := by
  induction n generalizing s text with
  | zero =>
    rw [nstring, List.length_eq_zero_iff.mp (Nat.le_zero.mp hlength)]
  | succ n ih =>
    have hfirst := hbytes 0 (Nat.succ_pos n) (Nat.zero_le _)
    have hstart : s + UInt32.ofNat 0 = s := by simp
    rw [hstart] at hfirst
    cases text with
    | nil =>
      have hzero : m s = 0 := hfirst
      rw [nstring, if_pos hzero]
    | cons c rest =>
      rw [List.getD_cons_zero] at hfirst
      have hc : c ≠ 0 := fun heq => hnonzero (heq ▸ List.mem_cons_self)
      rw [nstring, hfirst, if_neg hc]
      congr 1
      refine ih (Nat.le_of_succ_le_succ hlength) (fun hmem => hnonzero (List.mem_cons_of_mem c hmem))
        fun j hj hjlen => ?_
      rw [← add_ofNat_succ, hbytes (j + 1) (by omega) (by simpa using hjlen), List.getD_cons_succ]

/-- A text without a zero is found whole, if as many bytes are looked at as it has. What lies
    behind the end does not matter. -/
theorem nstring_of_isText {n : Nat} {s : UInt32} {text : List UInt8} (htext : IsText m s text)
    (hlength : text.length ≤ n) (hnonzero : 0 ∉ text) : nstring m n s = text :=
  nstring_eq hlength hnonzero fun j _ hj => htext j hj

/-- A text in memory is followed by a zero. -/
theorem IsText.terminator {s : UInt32} {text : List UInt8} (htext : IsText m s text) :
    m (s + UInt32.ofNat text.length) = 0 := by
  rw [htext _ (Nat.le_refl _), List.getD_eq_default _ _ (Nat.le_refl _)]

/-- A text without a zero is a string of its own length. -/
theorem isString_of_isText {s : UInt32} {text : List UInt8} (htext : IsText m s text) (hnonzero : 0 ∉ text)
    (hlength : text.length < 2 ^ 32) : IsString m s text.length := by
  refine ⟨hlength, ?_, fun i hi => ?_⟩
  · exact htext.terminator
  · rw [htext i (Nat.le_of_lt hi), List.getD_eq_getElem _ _ hi]
    exact fun hzero => hnonzero (hzero ▸ List.getElem_mem hi)

/-- A text that ends in a zero byte is shorter than memory. -/
theorem IsText.length_lt {s : UInt32} {text : List UInt8} (htext : IsText m s text) (hnonzero : 0 ∉ text) :
    text.length < 2 ^ 32 := by
  by_contra hlong
  have hend := htext text.length (Nat.le_refl _)
  have hwrapped := htext (text.length - 2 ^ 32) (Nat.sub_le _ _)
  have hlt : text.length - 2 ^ 32 < text.length := by omega
  have hsame : UInt32.ofNat (text.length - 2 ^ 32) = UInt32.ofNat text.length := by
    apply UInt32.toNat_inj.mp
    rw [UInt32.toNat_ofNat', UInt32.toNat_ofNat']
    omega
  rw [hsame, hend, List.getD_eq_default _ _ (Nat.le_refl _), List.getD_eq_getElem _ _ hlt] at hwrapped
  exact hnonzero (hwrapped ▸ List.getElem_mem hlt)

/-- The length that `strlen` finds. -/
theorem IsText.strlen_toNat {s : UInt32} {text : List UInt8} (htext : IsText m s text) (hnonzero : 0 ∉ text) :
    (strlen m s).toNat = text.length := by
  have hlength := htext.length_lt hnonzero
  rw [strlen_eq (isString_of_isText htext hnonzero hlength), UInt32.toNat_ofNat_of_lt' hlength]

/-- A string that ends before its array does. -/
theorem isText_nstring {n : Nat} {s : UInt32} (hend : (nstring m n s).length < n) : IsText m s (nstring m n s) := by
  intro j hj
  exact (nstring_getD (by omega) hj).symm

end NString

section Compare

variable (m₁ m₂ : Mem) (s₁ s₂ : UInt32)

/-- `strncmp` gives zero exactly for equal strings, each cut at the limit. By induction on what is
    left of the limit. -/
private theorem strncmp_loop_nstring (n : Nat) (i : UInt32) :
    strncmp_loop m₁ m₂ s₁ s₂ n i = 0 ↔ nstring m₁ n (s₁ + i) = nstring m₂ n (s₂ + i) := by
  induction n generalizing i with
  | zero => simp [strncmp_loop, nstring]
  | succ n ih =>
    rw [strncmp_loop, nstring, nstring]
    by_cases hsame : m₁ (s₁ + i) = m₂ (s₂ + i)
    · by_cases hzero : m₁ (s₁ + i) = 0
      · rw [if_pos (.inr hzero), if_pos hzero, if_pos (hsame ▸ hzero), hsame, Int.sub_self]
        simp only
      · rw [if_neg (not_or.mpr ⟨not_not.mpr hsame, hzero⟩), if_neg hzero, if_neg (hsame ▸ hzero), ih, hsame,
          UInt32.add_assoc, UInt32.add_assoc]
        simp only [List.cons.injEq, true_and]
    · rw [if_pos (.inl hsame)]
      constructor
      · exact fun hdiff => absurd (toInt8_inj hdiff) hsame
      · intro heq
        exfalso
        split at heq
        · rename_i hzero₁
          split at heq
          · rename_i hzero₂
            exact hsame (hzero₁.trans hzero₂.symm)
          · cases heq
        · split at heq
          · cases heq
          · exact hsame (List.cons.inj heq).1

/-- `strncmp` compares the strings in two arrays. -/
theorem strncmp_eq_zero_iff_nstring (n : UInt32) :
    strncmp m₁ s₁ m₂ s₂ n = 0 ↔ nstring m₁ n.toNat s₁ = nstring m₂ n.toNat s₂ := by
  rw [strncmp, strncmp_loop_nstring, UInt32.add_zero, UInt32.add_zero]

end Compare

/-- `strncpy` writes the string and then zeros up to the limit. The source is read from a memory
    of its own here, which the stores do not reach. -/
private theorem strncpy_loop_nstring (source : Mem) (d s : UInt32) (n : Nat) (i : UInt32) (m : Mem)
    (hn : n < 2 ^ 32) :
    strncpy_loop (fun _ => source) d s n i m =
      fillWith m (d + i) (fun j => (nstring source n (s + i)).getD j 0) n := by
  induction n generalizing i m with
  | zero => rw [strncpy_loop, fillWith_zero]
  | succ n ih =>
    rw [strncpy_loop, nstring]
    by_cases hzero : source (s + i) = 0
    · rw [if_neg (not_not.mpr hzero), if_pos hzero, strncpy_zeros_eq _ _ _ _ hn]
      rfl
    · rw [if_pos hzero, if_neg hzero, ih _ _ (by omega), fillWith_cons _ _ _ _ hn]
      simp only [List.getD_cons_zero, List.getD_cons_succ, UInt32.add_assoc]

/-- `strncpy` from another memory writes the string in its source array and pads it
    with zeros. -/
theorem strncpy_from_eq (m : Mem) (dest : UInt32) (source : Mem) (src n : UInt32) :
    strncpy_from m dest source src n =
      fillWith m dest (fun j => (nstring source n.toNat src).getD j 0) n.toNat := by
  rw [strncpy_from, strncpy_loop_nstring _ _ _ _ _ _ n.toNat_lt, UInt32.add_zero, UInt32.add_zero]

/-- A text written over zeros. -/
theorem fillWith_text (m : Mem) (d : UInt32) {text : List UInt8} {k n : Nat} (hlength : text.length ≤ k)
    (hk : k ≤ n) :
    fillWith (fillWith m d (fun _ => 0) n) d (fun j => text.getD j 0) k = fillWith m d (fun j => text.getD j 0) n := by
  funext a
  by_cases hfirst : (a - d).toNat < k
  · have hin : (a - d).toNat < n := by omega
    simp only [fillWith, hfirst, hin, if_true]
  · have hbeyond : text.getD (a - d).toNat 0 = 0 := List.getD_eq_default _ _ (by omega)
    simp only [fillWith, hfirst, if_false, hbeyond]

end lacos.lib
