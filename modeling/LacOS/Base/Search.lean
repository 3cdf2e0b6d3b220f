import Mathlib.Algebra.GroupWithZero.Nat
import Mathlib.Data.Nat.Find
import LacOS.Base.Memory

namespace memory

variable {α : Type*} (test : UInt32 → Prop) [DecidablePred test] (hit : UInt32 → α) (miss : α)

/-- A loop over `n` entries of an array from entry `i` on, which ends at the first one that
    passes the test. -/
def search : Nat → UInt32 → α
  | 0, _ => miss
  | n + 1, i => if test i then hit i else search n (i + 1)

/-- A function of what a search gives can be applied to what it may give. Nothing is asked of the
    function or the test. -/
theorem search_map {β : Type*} (f : α → β) (n : Nat) (i : UInt32) :
    f (search test hit miss n i) = search test (fun i => f (hit i)) (f miss) n i := by
  induction n generalizing i with
  | zero => rfl
  | succ n ih => rw [search, search, apply_ite f, ih]

variable {test}

/-- Every search is one for an index. -/
theorem search_index (n : Nat) (i : UInt32) :
    (search test some none n i).elim miss hit = search test hit miss n i :=
  search_map test some none (fun found => found.elim miss hit) n i

/-- The search passes over the entries that fail the test and stops at the next. -/
theorem search_hit {n j : Nat} {i : UInt32} (hj : j < n) (hfound : test (i + UInt32.ofNat j))
    (hbefore : ∀ l < j, ¬ test (i + UInt32.ofNat l)) : search test hit miss n i = hit (i + UInt32.ofNat j) := by
  have hstart : i + UInt32.ofNat 0 = i := UInt32.add_zero i
  induction j generalizing n i with
  | zero =>
    obtain ⟨n, rfl⟩ := Nat.exists_eq_succ_of_ne_zero (Nat.ne_of_gt hj)
    rw [hstart] at hfound ⊢
    rw [search, if_pos hfound]
  | succ j ih =>
    obtain ⟨n, rfl⟩ := Nat.exists_eq_succ_of_ne_zero (Nat.ne_of_gt (Nat.zero_lt_of_lt hj))
    have hother := hbefore 0 (Nat.succ_pos j)
    rw [hstart] at hother
    rw [add_ofNat_succ] at hfound ⊢
    rw [search, if_neg hother]
    refine ih (Nat.lt_of_succ_lt_succ hj) hfound (fun l hl => ?_) (UInt32.add_zero _)
    rw [← add_ofNat_succ]
    exact hbefore (l + 1) (Nat.succ_lt_succ hl)

/-- Without an entry that passes, the search goes through all of them. -/
theorem search_miss {n : Nat} {i : UInt32} (hnone : ∀ l < n, ¬ test (i + UInt32.ofNat l)) :
    search test hit miss n i = miss := by
  induction n generalizing i with
  | zero => rfl
  | succ n ih =>
    have hfirst := hnone 0 (Nat.succ_pos n)
    rw [show UInt32.ofNat 0 = 0 from rfl, UInt32.add_zero] at hfirst
    rw [search, if_neg hfirst]
    apply ih
    intro l hl
    rw [← add_ofNat_succ]
    exact hnone (l + 1) (Nat.succ_lt_succ hl)

variable (test) in
/-- Which entries there are to find decides where a search from the start ends. -/
theorem search_cases (n : Nat) :
    (∃ i < n, test (UInt32.ofNat i) ∧ (∀ j < i, ¬ test (UInt32.ofNat j)) ∧
      search test hit miss n 0 = hit (UInt32.ofNat i)) ∨
    (∀ i < n, ¬ test (UInt32.ofNat i)) ∧ search test hit miss n 0 = miss := by
  by_cases hexists : ∃ i, i < n ∧ test (UInt32.ofNat i)
  · left
    obtain ⟨hlt, hfound⟩ := Nat.find_spec hexists
    have hbefore (j : Nat) (hj : j < Nat.find hexists) : ¬ test (UInt32.ofNat j) := fun htest =>
      Nat.find_min hexists hj ⟨Nat.lt_trans hj hlt, htest⟩
    refine ⟨Nat.find hexists, hlt, hfound, hbefore, ?_⟩
    rw [← UInt32.zero_add (UInt32.ofNat (Nat.find hexists))]
    refine search_hit hit miss hlt ?_ fun l hl => ?_
    · rw [UInt32.zero_add]
      exact hfound
    · rw [UInt32.zero_add]
      exact hbefore l hl
  · right
    have hnone (i : Nat) (hi : i < n) : ¬ test (UInt32.ofNat i) := fun htest => hexists ⟨i, hi, htest⟩
    refine ⟨hnone, search_miss hit miss fun l hl => ?_⟩
    rw [UInt32.zero_add]
    exact hnone l hl

end memory
