import LacOS.Base.Memory

open memory

namespace stack

def store32 (m : Mem) (addr word : UInt32) : Mem :=
  fillWith m addr (wordByte word) 4

/-- The words at `p` and above it, the one at `p` first. -/
def Holds (m : Mem) (p : UInt32) : List UInt32 → Prop
  | [] => True
  | w :: ws => load32 m p = w ∧ Holds m (p + 4) ws

/-- The memory after words are pushed from `p` down, the first of them first. -/
def pushWords (m : Mem) (p : UInt32) : List UInt32 → Mem
  | [] => m
  | w :: ws => pushWords (store32 m (p - 4) w) (p - 4) ws

/-- Two memories agree on the `n` bytes at an address. -/
def Keeps (m m' : Mem) (d : UInt32) (n : Nat) : Prop :=
  ∀ a, (a - d).toNat < n → m' a = m a

/-- The `n` bytes at `d` and the `k` bytes at `e` have no byte in common. -/
def Apart (d : UInt32) (n : Nat) (e : UInt32) (k : Nat) : Prop :=
  ∀ a, (a - d).toNat < n → k ≤ (a - e).toNat

instance instDecidableHolds (m : Mem) : (p : UInt32) → (ws : List UInt32) → Decidable (Holds m p ws)
  | _, [] => .isTrue trivial
  | p, _ :: ws => @instDecidableAnd _ _ _ (instDecidableHolds m (p + 4) ws)

section Frame

variable {m m' : Mem} {p d : UInt32} {n : Nat}

/-- Ranges that do not wrap are apart if one of them ends before the other. -/
theorem apart_of_toNat {d e : UInt32} {n k : Nat} (hd : d.toNat + n ≤ 2 ^ 32) (he : e.toNat + k ≤ 2 ^ 32)
    (hends : d.toNat + n ≤ e.toNat ∨ e.toNat + k ≤ d.toNat) : Apart d n e k := by
  intro a ha
  have hinside := (sub_toNat_lt_iff a d hd).mp ha
  have houtside := mt (sub_toNat_lt_iff a e he).mp (by omega)
  omega

theorem Keeps.trans {m'' : Mem} (h : Keeps m m' d n) (h' : Keeps m' m'' d n) : Keeps m m'' d n :=
  fun a ha => (h' a ha).trans (h a ha)

/-- A part of a range that is kept is kept. -/
theorem Keeps.part (h : Keeps m m' d n) {i k : Nat} (hpart : i + k ≤ n) (hn : n ≤ 2 ^ 32) :
    Keeps m m' (d + UInt32.ofNat i) k := by
  intro a ha
  apply h a
  obtain ⟨j, hj, rfl⟩ := (offset_lt_iff a _ k (by omega)).mp ha
  have hsum : d + UInt32.ofNat i + UInt32.ofNat j = d + UInt32.ofNat (i + j) := by
    rw [UInt32.add_assoc, UInt32.ofNat_add]
  rw [hsum, offset_toNat d (by omega)]
  omega

/-- A word in a range that is kept reads as before. -/
theorem Keeps.load32 (h : Keeps m m' p 4) : memory.load32 m' p = memory.load32 m p := by
  have hbyte : ∀ i < 4, m' (p + UInt32.ofNat i) = m (p + UInt32.ofNat i) := by
    intro i hi
    apply h
    rw [offset_toNat p (by omega)]
    exact hi
  have h0 : m' p = m p := by simpa using hbyte 0 (by omega)
  have h1 : m' (p + 1) = m (p + 1) := hbyte 1 (by omega)
  have h2 : m' (p + 2) = m (p + 2) := hbyte 2 (by omega)
  have h3 : m' (p + 3) = m (p + 3) := hbyte 3 (by omega)
  simp only [memory.load32, h0, h1, h2, h3]

/-- Words on the stack are still there if their range is kept. -/
theorem Holds.kept {ws : List UInt32} (h : Holds m p ws) (hfit : 4 * ws.length ≤ 2 ^ 32)
    (hkeep : Keeps m m' p (4 * ws.length)) : Holds m' p ws := by
  induction ws generalizing p with
  | nil => trivial
  | cons w ws ih =>
    rw [List.length_cons] at hfit hkeep
    have hfirst : Keeps m m' p 4 := by
      simpa using hkeep.part (i := 0) (k := 4) (by omega) hfit
    have hrest : Keeps m m' (p + 4) (4 * ws.length) :=
      hkeep.part (i := 4) (by omega) hfit
    exact ⟨hfirst.load32.trans h.1, ih h.2 (by omega) hrest⟩

/-- Two lists of words on the stack lie one behind the other. -/
theorem Holds.append (ws : List UInt32) {vs : List UInt32} :
    Holds m p (ws ++ vs) ↔ Holds m p ws ∧ Holds m (p + UInt32.ofNat (4 * ws.length)) vs := by
  induction ws generalizing p with
  | nil => simp [Holds]
  | cons w ws ih =>
    have haddr : p + UInt32.ofNat (4 * (w :: ws).length) = p + 4 + UInt32.ofNat (4 * ws.length) := by
      rw [List.length_cons, Nat.mul_add, UInt32.ofNat_add]
      grind
    rw [haddr, List.cons_append, Holds, Holds, ih, and_assoc]

/-- Each of the words can be read at its place. -/
theorem Holds.load {ws : List UInt32} (h : Holds m p ws) {i : Nat} {w : UInt32} (hi : ws[i]? = some w) :
    memory.load32 m (p + UInt32.ofNat (4 * i)) = w := by
  induction ws generalizing p i with
  | nil => cases hi
  | cons v ws ih =>
    cases i with
    | zero =>
      obtain rfl : v = w := by simpa using hi
      simpa using h.1
    | succ i =>
      have haddr : p + UInt32.ofNat (4 * (i + 1)) = p + 4 + UInt32.ofNat (4 * i) := by
        rw [Nat.mul_add, UInt32.ofNat_add]
        grind
      rw [haddr]
      exact ih h.2 (by simpa using hi)

end Frame

section Push

variable (m : Mem) (p : UInt32)

/-- A word that has been stored is read back, at any alignment. -/
theorem load32_store32 (addr word : UInt32) : load32 (store32 m addr word) addr = word := by
  apply load32_wordByte
  intro i hi
  rw [store32, fillWith, if_pos (by rw [offset_toNat addr (by omega)]; exact hi),
    offset_toNat addr (by omega)]

theorem store32_outside {addr a : UInt32} (word : UInt32) (ha : 4 ≤ (a - addr).toNat) :
    store32 m addr word a = m a := by
  rw [store32, fillWith, if_neg (by omega)]

/-- Words pushed from `p` down change nothing outside the bytes they take. -/
theorem pushWords_outside (ws : List UInt32) (hfit : 4 * ws.length ≤ 2 ^ 32) {a : UInt32}
    (ha : 4 * ws.length ≤ (a - (p - UInt32.ofNat (4 * ws.length))).toNat) :
    pushWords m p ws a = m a := by
  induction ws generalizing m p with
  | nil => rfl
  | cons w ws ih =>
    rw [List.length_cons] at hfit ha
    have hbase : p - UInt32.ofNat (4 * (ws.length + 1)) = p - 4 - UInt32.ofNat (4 * ws.length) := by
      rw [Nat.mul_add, UInt32.ofNat_add]
      grind
    rw [hbase] at ha
    have hoffset : (a - (p - 4)).toNat =
        ((a - (p - 4 - UInt32.ofNat (4 * ws.length))).toNat + 2 ^ 32 - 4 * ws.length) % 2 ^ 32 := by
      have hsub : a - (p - 4) =
          a - (p - 4 - UInt32.ofNat (4 * ws.length)) - UInt32.ofNat (4 * ws.length) := by
        grind
      have hlength : 4 * ws.length < 2 ^ 32 := by omega
      rw [hsub, UInt32.toNat_sub, UInt32.toNat_ofNat', Nat.mod_eq_of_lt hlength]
      congr 1
      omega
    have hlt := (a - (p - 4 - UInt32.ofNat (4 * ws.length))).toNat_lt
    rw [pushWords, ih _ _ (by omega) (by omega)]
    exact store32_outside m w (by omega)

/-- Pushing words changes nothing but the range below the stack pointer that they take. -/
theorem pushWords_keeps (ws : List UInt32) (hfit : 4 * ws.length ≤ 2 ^ 32) {d : UInt32} {n : Nat}
    (hapart : Apart d n (p - UInt32.ofNat (4 * ws.length)) (4 * ws.length)) :
    Keeps m (pushWords m p ws) d n :=
  fun a ha => pushWords_outside m p ws hfit (hapart a ha)

/-- Words can be pushed in two parts. -/
theorem pushWords_append (ws vs : List UInt32) :
    pushWords m p (ws ++ vs) =
      pushWords (pushWords m p ws) (p - UInt32.ofNat (4 * ws.length)) vs := by
  induction ws generalizing m p with
  | nil => simp [pushWords]
  | cons w ws ih =>
    have hbase : p - UInt32.ofNat (4 * (ws.length + 1)) = p - 4 - UInt32.ofNat (4 * ws.length) := by
      rw [Nat.mul_add, UInt32.ofNat_add]
      grind
    rw [List.cons_append, pushWords, pushWords, ih, List.length_cons, hbase]

/-- What is apart from the bytes below `p` is apart from those of them that are nearest. -/
theorem Apart.top {d : UInt32} {n i k : Nat} (h : Apart d n (p - UInt32.ofNat (i + k)) (i + k))
    (hfit : i + k < 2 ^ 32) : Apart d n (p - UInt32.ofNat k) k := by
  intro a ha
  have hfar := h a ha
  have hbase : p - UInt32.ofNat k = p - UInt32.ofNat (i + k) + UInt32.ofNat i := by
    rw [UInt32.ofNat_add]
    grind
  rw [hbase, sub_add_toNat a _ (by omega)]
  split <;> omega

/-- Pushed words stand below the words that were there, the last one pushed first. -/
theorem pushWords_holds (ws : List UInt32) {vs : List UInt32} (hvs : Holds m p vs)
    (hfit : 4 * (ws.length + vs.length) ≤ 2 ^ 32) :
    Holds (pushWords m p ws) (p - UInt32.ofNat (4 * ws.length)) (ws.reverse ++ vs) := by
  induction ws generalizing m p vs with
  | nil => simpa [pushWords] using hvs
  | cons w ws ih =>
    rw [List.length_cons] at hfit
    have hbase : p - UInt32.ofNat (4 * (ws.length + 1)) = p - 4 - UInt32.ofNat (4 * ws.length) := by
      rw [Nat.mul_add, UInt32.ofNat_add]
      grind
    have hback : p - 4 + 4 = p := by grind
    have hkeep : Keeps m (store32 m (p - 4) w) p (4 * vs.length) := by
      intro a ha
      apply store32_outside
      rw [← hback] at ha
      have hoffset := sub_add_toNat a (p - 4) (n := 4) (by omega)
      change (a - (p - 4 + 4)).toNat = _ at hoffset
      split at hoffset <;> omega
    have hheld : Holds (store32 m (p - 4) w) (p - 4) (w :: vs) :=
      ⟨load32_store32 m (p - 4) w, by rw [hback]; exact hvs.kept (by omega) hkeep⟩
    have hmore : 4 * (ws.length + (w :: vs).length) ≤ 2 ^ 32 := by
      rw [List.length_cons]
      omega
    rw [List.length_cons, hbase, List.reverse_cons, List.append_assoc]
    exact ih (store32 m (p - 4) w) (p - 4) hheld hmore

/-- The words pushed are on the stack in reverse order, the last one on top. -/
theorem pushWords_top (ws : List UInt32) (hfit : 4 * ws.length ≤ 2 ^ 32) :
    Holds (pushWords m p ws) (p - UInt32.ofNat (4 * ws.length)) ws.reverse := by
  have hholds := pushWords_holds m p ws (show Holds m p [] from trivial) hfit
  rw [List.append_nil] at hholds
  exact hholds

end Push

end stack
