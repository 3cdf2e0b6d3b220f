import LacOS.Base.Memory

open memory

/-- A list of at most `cap` elements. -/
abbrev Capped (α : Type*) (cap : Nat) := { l : List α // l.length ≤ cap }

namespace capped

variable {α : Type*} {cap size : Nat}

def empty : Capped α cap := ⟨[], Nat.zero_le _⟩

/-- Add an element at the end, if there is room. -/
def push (l : Capped α cap) (a : α) : Capped α cap :=
  if h : l.val.length < cap then ⟨l.val ++ [a], by rw [List.length_append]; exact h⟩ else l

/-- Drop the last element, if there is one. -/
def pop (l : Capped α cap) : Capped α cap :=
  ⟨l.val.dropLast, by rw [List.length_dropLast]; exact Nat.le_trans (Nat.sub_le _ _) l.property⟩

/-- The first `cap` elements of a list of any length. -/
def ofList (l : List α) : Capped α cap := ⟨l.take cap, List.length_take_le cap l⟩

/-- An element is taken as long as there is room for it. -/
theorem push_of_lt {l : Capped α cap} (a : α) (hroom : l.val.length < cap) : (push l a).val = l.val ++ [a] := by
  rw [push, dif_pos hroom]

/-- A full list refuses the element and stays as it is. -/
theorem push_of_full {l : Capped α cap} (a : α) (hfull : l.val.length = cap) : push l a = l := by
  rw [push, dif_neg (Nat.not_lt_of_le (Nat.le_of_eq hfull.symm))]

/-- There is nothing to drop from an empty list. -/
theorem pop_of_nil {l : Capped α cap} (hnil : l.val = []) : pop l = l := by
  apply Subtype.ext
  change l.val.dropLast = l.val
  rw [hnil, List.dropLast_nil]

/-- Cutting a list is the same as pushing its elements in turn, since a full list refuses the
    rest. -/
theorem ofList_snoc (l : List α) (a : α) : (ofList (l ++ [a]) : Capped α cap) = push (ofList l) a := by
  have hlength : (ofList l : Capped α cap).val.length = min cap l.length := List.length_take
  by_cases hroom : l.length < cap
  · apply Subtype.ext
    rw [push_of_lt a (by omega)]
    change (l ++ [a]).take cap = l.take cap ++ [a]
    rw [List.take_of_length_le (by rw [List.length_append]; exact hroom), List.take_of_length_le (Nat.le_of_lt hroom)]
  · rw [push_of_full a (by omega)]
    exact Subtype.ext (List.take_append_of_le_length (Nat.not_lt.mp hroom))

/-- Dropping and cutting can be exchanged as long as nothing has been cut off. -/
theorem pop_ofList {l : List α} (hlength : l.length ≤ cap) : pop (ofList l : Capped α cap) = ofList l.dropLast := by
  apply Subtype.ext
  change (l.take cap).dropLast = l.dropLast.take cap
  rw [List.take_of_length_le hlength, List.take_of_length_le (by rw [List.length_dropLast]; omega)]

/-- The array holds the list and nothing but `fill` behind it. -/
def Stores (buf : Fin size → α) (fill : α) (l : List α) : Prop := ∀ i : Fin size, buf i = l.getD i fill

section Stores

variable {buf : Fin size → α} {fill : α} {l : List α} (hstores : Stores buf fill l)
include hstores

/-- The element goes to the first place behind the list. -/
theorem Stores.append (a : α) : Stores (fun i => if i.val = l.length then a else buf i) fill (l ++ [a]) := by
  intro i
  beta_reduce
  rw [getD_snoc]
  split
  · rfl
  · exact hstores i

/-- The last place is filled again. For an empty list that is the first place, which was filled
    already. -/
theorem Stores.dropLast : Stores (fun i => if i.val = l.length - 1 then fill else buf i) fill l.dropLast := by
  intro i
  beta_reduce
  rw [List.getD_eq_getElem?_getD, List.getElem?_dropLast]
  split
  · rename_i hlast
    rw [if_neg (by omega)]
    rfl
  · rename_i hlast
    rw [hstores i, List.getD_eq_getElem?_getD]
    split
    · rfl
    · rw [List.getElem?_eq_none (by omega)]

/-- Cut the list to `n` elements and end it with `a`, where at most one element is lost. -/
theorem Stores.terminate (a : α) {n last : Nat} (hlength : l.length ≤ n + 1) (hlast : last = min l.length n) :
    Stores (fun i => if i.val = last + 1 then fill else if i.val = last then a else buf i) fill
      (l.take n ++ [a]) := by
  intro i
  have htake : (l.take n).length = last := by rw [List.length_take, hlast, Nat.min_comm]
  beta_reduce
  rw [getD_snoc, htake, List.getD_eq_getElem?_getD, List.getElem?_take]
  split
  · rename_i hend
    rw [if_neg (by omega)]
    split
    · rw [List.getElem?_eq_none (by omega)]
      rfl
    · rfl
  · split
    · rfl
    · rename_i hend hat
      rw [hstores i, List.getD_eq_getElem?_getD]
      split
      · rfl
      · rw [List.getElem?_eq_none (by omega)]

/-- Filling the places of the list is enough to empty the array. -/
theorem Stores.clear : Stores (fun i => if i.val < l.length then fill else buf i) fill [] := by
  intro i
  beta_reduce
  rw [List.getD_nil]
  split
  · rfl
  · rename_i hi
    rw [hstores i, List.getD_eq_default _ _ (Nat.not_lt.mp hi)]

end Stores

end capped
