import Mathlib.Algebra.BigOperators.Group.List.Basic
import Mathlib.Algebra.GroupWithZero.Nat
import Mathlib.Tactic.Common

namespace stream

/-- A sequence that is read from front to back. -/
structure Stream (α : Type*) where
  data : List α
  pos : Nat

variable {α : Type*} (s : Stream α)

/-- What is left to read. -/
def Stream.rest : List α := s.data.drop s.pos

/-- The next `n` elements, or as many as are left. -/
def Stream.read (n : Nat) : List α × Stream α :=
  (s.rest.take n, { s with pos := s.pos + min n s.rest.length })

def Stream.reads : Stream α → List Nat → List (List α) × Stream α
  | s, [] => ([], s)
  | s, n :: ns =>
    let (chunk, s) := s.read n
    let (chunks, s) := s.reads ns
    (chunk :: chunks, s)

/-- What is left is what there is, less what has been read. -/
theorem Stream.rest_length : s.rest.length = s.data.length - s.pos := by
  rw [Stream.rest, List.length_drop]

/-- A read takes from the front of what is left. -/
theorem Stream.read_rest (n : Nat) : (s.read n).2.rest = s.rest.drop n := by
  simp only [Stream.read, Stream.rest, List.drop_drop]
  by_cases hn : n ≤ (s.data.drop s.pos).length
  · rw [Nat.min_eq_left hn]
  · rw [List.length_drop] at hn
    rw [List.drop_eq_nil_of_le (by rw [List.length_drop]; omega), List.drop_eq_nil_of_le (by omega)]

/-- However a stream is read, the chunks are what it holds, in order. -/
theorem Stream.reads_flatten (ns : List Nat) : (s.reads ns).1.flatten = s.rest.take ns.sum := by
  induction ns generalizing s with
  | nil => simp [Stream.reads]
  | cons n ns ih =>
    simp only [Stream.reads, List.flatten_cons, ih, Stream.read_rest, List.sum_cons, List.take_add]
    rfl

/-- Any number of reads moves the position by their sum, or to the end. -/
theorem Stream.reads_pos (ns : List Nat) : (s.reads ns).2.pos = s.pos + min ns.sum s.rest.length := by
  induction ns generalizing s with
  | nil => simp [Stream.reads]
  | cons n ns ih =>
    simp only [Stream.reads, ih, Stream.read_rest, List.length_drop, List.sum_cons]
    simp only [Stream.read]
    omega

/-- The chunk of each read is as long as asked for, or ends the stream. -/
theorem Stream.reads_lengths (ns : List Nat) {j : Nat} (hj : j < ns.length) :
    (s.reads ns).1[j]?.map List.length = some (min ns[j] (s.rest.length - (ns.take j).sum)) := by
  induction ns generalizing s j with
  | nil => exact absurd hj (Nat.not_lt_zero j)
  | cons n ns ih =>
    cases j with
    | zero => simp [Stream.reads, Stream.read]
    | succ j =>
      have hnext := ih (s.read n).2 (Nat.lt_of_succ_lt_succ hj)
      rw [Stream.read_rest, List.length_drop, Nat.sub_sub] at hnext
      simpa [Stream.reads] using hnext

/-- A list cut into pieces of `n` elements, the last perhaps shorter. -/
def pieces (n : Nat) (l : List α) : List (List α) :=
  if l = [] ∨ n = 0 then [] else l.take n :: pieces n (l.drop n)
termination_by l.length
decreasing_by
  have hlength := List.length_pos_iff.mpr (not_or.mp ‹_›).1
  have hn := (not_or.mp ‹_›).2
  rw [List.length_drop]
  omega

section Pieces

variable {n : Nat}

theorem pieces_nil : pieces n ([] : List α) = [] := by rw [pieces, if_pos (.inl rfl)]

/-- A list that is not empty has a first piece, and the other pieces are those of the rest. -/
theorem pieces_of_ne_nil (hn : n ≠ 0) {l : List α} (hl : l ≠ []) : pieces n l = l.take n :: pieces n (l.drop n) := by
  rw [pieces, if_neg (not_or.mpr ⟨hl, hn⟩)]

/-- The pieces put together again. -/
theorem pieces_flatten (hn : n ≠ 0) (l : List α) : (pieces n l).flatten = l := by
  fun_induction pieces n l with
  | case1 l hl => exact (hl.resolve_right hn).symm
  | case2 l hl ih => rw [List.flatten_cons, ih, List.take_append_drop]

/-- What fits in one piece is one piece. -/
theorem pieces_of_length_le (hn : n ≠ 0) {l : List α} (hlength : l.length ≤ n) :
    pieces n l = if l = [] then [] else [l] := by
  split
  · rename_i hl
    rw [hl, pieces_nil]
  · rename_i hl
    rw [pieces_of_ne_nil hn hl, List.take_of_length_le hlength, List.drop_eq_nil_of_le hlength, pieces_nil]

/-- No piece is longer than it may be. -/
theorem pieces_length_le {l piece : List α} (hpiece : piece ∈ pieces n l) : piece.length ≤ n := by
  fun_induction pieces n l with
  | case1 l hl => exact absurd hpiece List.not_mem_nil
  | case2 l hl ih =>
    rcases List.mem_cons.mp hpiece with rfl | hrest
    · exact List.length_take_le _ _
    · exact ih hrest

end Pieces

section Cut

variable [BEq α]

/-- A text cut at its separators, and what is longer than `n` cut again. -/
def cut (n : Nat) (sep : α) (text : List α) : List (List α) := (text.splitOn sep).flatMap (pieces n)

variable [LawfulBEq α] {n : Nat} {sep : α} {l : List α}

/-- A text without a separator is only cut at the length. -/
theorem cut_of_notMem (hl : sep ∉ l) : cut n sep l = pieces n l := by
  rw [cut, List.splitOn_eq_singleton hl, List.flatMap_singleton]

/-- A separator ends a piece, so that both sides can be cut by themselves. -/
theorem cut_append_sep (l rest : List α) : cut n sep (l ++ sep :: rest) = cut n sep l ++ cut n sep rest := by
  rw [cut, List.splitOn_append_cons_self, List.flatMap_append]
  rfl

/-- As much as `n` elements without a separator are cut off together. -/
theorem cut_append_full (hn : n ≠ 0) (hl : sep ∉ l) (hlength : l.length = n) (rest : List α) :
    cut n sep (l ++ rest) = l :: cut n sep rest := by
  have hcut {rest : List α} (hrest : sep ∉ rest) : cut n sep (l ++ rest) = l :: pieces n rest := by
    have hboth : sep ∉ l ++ rest := by
      rw [List.mem_append, not_or]
      exact ⟨hl, hrest⟩
    have hne : l ++ rest ≠ [] := by
      intro hnil
      rw [(List.append_eq_nil_iff.mp hnil).1] at hlength
      exact hn hlength.symm
    rw [cut_of_notMem hboth, pieces_of_ne_nil hn hne, List.take_left' hlength, List.drop_left' hlength]
  by_cases hsep : sep ∈ rest
  · obtain ⟨first, rest, rfl, hfirst⟩ := List.eq_append_cons_of_mem hsep
    rw [← List.append_assoc, cut_append_sep, cut_append_sep, hcut hfirst, cut_of_notMem hfirst, List.cons_append]
  · rw [hcut hsep, cut_of_notMem hsep]

end Cut

end stream
