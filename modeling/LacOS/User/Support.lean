import LacOS.User

open memory program lacos.lib lacos.syscalls

namespace lacos.user

def ece391_strncmp (m : Mem) : UInt32 → UInt32 → Nat → Int
  | _, _, 0 => 0
  | s1, s2, n + 1 =>
    if m s1 = m s2 then if m s1 = 0 then 0 else ece391_strncmp m (s1 + 1) (s2 + 1) n
    else (m s1).toNat - (m s2).toNat

/-- The loop of `ece391_strcmp`, which goes on for ever on two memories without an end. -/
def strcmp_loop : Nat → Mem → UInt32 → Mem → UInt32 → Option Int
  | 0, _, _, _, _ => none
  | fuel + 1, m1, s1, m2, s2 =>
    if m1 s1 = m2 s2 then if m1 s1 = 0 then some 0 else strcmp_loop fuel m1 (s1 + 1) m2 (s2 + 1)
    else some ((m1 s1).toNat - (m2 s2).toNat)

def ece391_strcmp (m1 : Mem) (s1 : UInt32) (m2 : Mem) (s2 : UInt32) : Prog Task Int := fun t =>
  (strcmp_loop (2 ^ 32) m1 s1 m2 s2).map fun order => (order, t)

def strcpy_loop : Nat → Mem → UInt32 → UInt32 → Mem
  | 0, m, _, _ => m
  | fuel + 1, m, dst, src =>
    let c := m src
    let m := store m dst c
    if c ≠ 0 then strcpy_loop fuel m (dst + 1) (src + 1) else m

def ece391_strcpy (dst src : UInt32) : Prog Task Unit := fun t =>
  some ((), { t with mem := strcpy_loop (2 ^ 32) t.mem dst src })

/-- A string by its first character and the rest. -/
theorem isText_cons {m : Mem} {s : UInt32} {c : UInt8} {text : List UInt8} (htext : IsText m s (c :: text)) :
    m s = c ∧ IsText m (s + 1) text := by
  refine ⟨?_, fun j hj => ?_⟩
  · have hfirst := htext 0 (Nat.zero_le _)
    rw [List.getD_cons_zero] at hfirst
    rw [← hfirst]
    congr 1
    exact (UInt32.add_zero s).symm
  · have hnext := htext (j + 1) (Nat.succ_le_succ hj)
    rw [add_ofNat_succ, List.getD_cons_succ] at hnext
    exact hnext

theorem isText_nil {m : Mem} {s : UInt32} (htext : IsText m s []) : m s = 0 := by
  have hend := htext.terminator
  rw [List.length_nil] at hend
  rw [← hend]
  congr 1
  exact (UInt32.add_zero s).symm

/-- Different characters have a difference that is not zero. -/
theorem toNat_sub_ne_zero {a b : UInt8} (hne : a ≠ b) : ¬ ((a.toNat : Int) - b.toNat = 0) := by
  intro h
  exact hne (UInt8.toNat_inj.mp (by omega))

/-- Compared over the whole length of the second string, the first begins with it. -/
theorem strncmp_eq_zero_iff_prefix {m : Mem} {s1 s2 : UInt32} {text pattern : List UInt8} (htext : IsText m s1 text)
    (hpattern : IsText m s2 pattern) (hnonzero : 0 ∉ text) (hpnonzero : 0 ∉ pattern) :
    ece391_strncmp m s1 s2 pattern.length = 0 ↔ pattern <+: text := by
  induction pattern generalizing text s1 s2 with
  | nil => simp [ece391_strncmp]
  | cons p pattern ih =>
    obtain ⟨hp, hpattern⟩ := isText_cons hpattern
    have hp0 : p ≠ 0 := fun h => hpnonzero (h ▸ List.mem_cons_self)
    cases text with
    | nil =>
      have hend := isText_nil htext
      have hne : m s1 ≠ m s2 := by
        rw [hend, hp]
        exact hp0.symm
      rw [List.length_cons, ece391_strncmp, if_neg hne]
      exact ⟨fun h => absurd h (toNat_sub_ne_zero hne), fun h => absurd (List.prefix_nil.mp h) (List.cons_ne_nil _ _)⟩
    | cons c text =>
      obtain ⟨hc, htext⟩ := isText_cons htext
      have hc0 : c ≠ 0 := fun h => hnonzero (h ▸ List.mem_cons_self)
      rw [List.length_cons, ece391_strncmp, List.cons_prefix_cons, hc, hp]
      by_cases hsame : c = p
      · rw [if_pos hsame, if_neg hc0, ih htext hpattern (fun h => hnonzero (List.mem_cons_of_mem _ h))
          fun h => hpnonzero (List.mem_cons_of_mem _ h)]
        simp [hsame]
      · rw [if_neg hsame]
        exact ⟨fun h => absurd h (toNat_sub_ne_zero hsame), fun h => absurd h.1.symm hsame⟩

/-- The comparison ends, and finds two strings equal if they are. -/
theorem strcmp_loop_spec {m1 m2 : Mem} {s1 s2 : UInt32} {text1 text2 : List UInt8} (htext1 : IsText m1 s1 text1)
    (htext2 : IsText m2 s2 text2) (hnonzero1 : 0 ∉ text1) (hnonzero2 : 0 ∉ text2) {fuel : Nat}
    (hfuel : text1.length < fuel) :
    ∃ order, strcmp_loop fuel m1 s1 m2 s2 = some order ∧ (order = 0 ↔ text1 = text2) := by
  induction text1 generalizing text2 s1 s2 fuel with
  | nil =>
    obtain ⟨fuel, rfl⟩ := Nat.exists_eq_succ_of_ne_zero (Nat.ne_of_gt hfuel)
    have hend := isText_nil htext1
    cases text2 with
    | nil => exact ⟨0, by simp [strcmp_loop, hend, isText_nil htext2], by simp⟩
    | cons d text2 =>
      obtain ⟨hd, -⟩ := isText_cons htext2
      have hne : m1 s1 ≠ m2 s2 := by
        rw [hend, hd]
        exact fun h => hnonzero2 (h ▸ List.mem_cons_self)
      exact ⟨_, by rw [strcmp_loop, if_neg hne], by simp [toNat_sub_ne_zero hne]⟩
  | cons c text1 ih =>
    obtain ⟨fuel, rfl⟩ := Nat.exists_eq_succ_of_ne_zero (Nat.ne_of_gt (Nat.lt_of_le_of_lt (Nat.zero_le _) hfuel))
    rw [List.length_cons] at hfuel
    obtain ⟨hc, hrest⟩ := isText_cons htext1
    have hc0 : c ≠ 0 := fun h => hnonzero1 (h ▸ List.mem_cons_self)
    cases text2 with
    | nil =>
      have hne : m1 s1 ≠ m2 s2 := by
        rw [hc, isText_nil htext2]
        exact hc0
      exact ⟨_, by rw [strcmp_loop, if_neg hne], by simp [toNat_sub_ne_zero hne]⟩
    | cons d text2 =>
      obtain ⟨hd, hrest2⟩ := isText_cons htext2
      rw [strcmp_loop, hc, hd, List.cons.injEq]
      by_cases hsame : c = d
      · rw [if_pos hsame, if_neg hc0]
        simp only [hsame, true_and]
        exact ih hrest hrest2 (fun h => hnonzero1 (List.mem_cons_of_mem _ h))
          (fun h => hnonzero2 (List.mem_cons_of_mem _ h)) (by omega)
      · exact ⟨_, if_neg hsame, by simp [toNat_sub_ne_zero hsame, hsame]⟩

/-- A string is copied down by `d` bytes, over its own first part. -/
theorem strcpy_loop_down {text : List UInt8} (hnonzero : 0 ∉ text) {fuel : Nat} (hfuel : text.length < fuel) {m : Mem}
    {dst : UInt32} {d : Nat} (hfits : d + text.length + 1 < 2 ^ 32)
    (htext : IsText m (dst + UInt32.ofNat d) text) :
    strcpy_loop fuel m dst (dst + UInt32.ofNat d) = writeString m dst text := by
  induction text generalizing fuel m dst with
  | nil =>
    obtain ⟨fuel, rfl⟩ := Nat.exists_eq_succ_of_ne_zero (Nat.ne_of_gt hfuel)
    rw [strcpy_loop, isText_nil htext, if_neg (by decide), writeString]
    exact store_eq_fillWith m dst fun i => [(0 : UInt8)].getD i 0
  | cons c text ih =>
    obtain ⟨hc, hrest⟩ := isText_cons htext
    have hc0 : c ≠ 0 := fun h => hnonzero (h ▸ List.mem_cons_self)
    obtain ⟨fuel, rfl⟩ := Nat.exists_eq_succ_of_ne_zero (Nat.ne_of_gt (Nat.lt_of_le_of_lt (Nat.zero_le _) hfuel))
    have hshift : dst + UInt32.ofNat d + 1 = dst + 1 + UInt32.ofNat d := by
      rw [UInt32.add_assoc, UInt32.add_comm (UInt32.ofNat d), ← UInt32.add_assoc]
    rw [List.length_cons] at hfuel hfits
    -- The byte that is overwritten lies before what is still to be copied.
    have hkept : IsText (store m dst c) (dst + 1 + UInt32.ofNat d) text := by
      intro j hj
      have hne : dst + 1 + UInt32.ofNat d + UInt32.ofNat j ≠ dst := by
        intro heq
        have hzero := offset_toNat dst (i := d + j + 1) (by omega)
        have haddr : dst + UInt32.ofNat (d + j + 1) = dst := by
          rw [add_ofNat_succ, UInt32.ofNat_add, ← UInt32.add_assoc, heq]
        rw [haddr, UInt32.sub_self] at hzero
        exact absurd hzero (by simp)
      rw [store, Function.update_of_ne hne, ← hshift]
      exact hrest j hj
    have hfirst := fillWith_cons m dst (fun i => (c :: text ++ [0]).getD i 0) (text.length + 1) (by omega)
    have hnonzero' : 0 ∉ text := fun h => hnonzero (List.mem_cons_of_mem _ h)
    rw [strcpy_loop, hc, if_pos hc0, hshift, ih hnonzero' (by omega) (by omega) hkept]
    exact hfirst.symm

end lacos.user
