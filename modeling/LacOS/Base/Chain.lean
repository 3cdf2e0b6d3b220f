import Mathlib.Data.Fintype.Card
import Mathlib.Logic.Function.Basic
import Mathlib.Tactic.Common

namespace chain

/-- A list in a pool of cells: where it starts, and the link from each cell to the next. -/
@[ext] structure Links (ι : Type*) where
  head : Option ι
  next : ι → Option ι

variable {ι : Type*} {l l' : Links ι} {start stop : Option ι} {is js : List ι} {i : ι}

/-- From `start` the links lead through these cells to `stop`. -/
def Links.Leads (l : Links ι) : Option ι → List ι → Option ι → Prop
  | start, [], stop => start = stop
  | start, i :: is, stop => start = some i ∧ l.Leads (l.next i) is stop

/-- The list consists of these cells. -/
def Links.Chain (l : Links ι) (is : List ι) : Prop := l.Leads l.head is none

/-- A way through the cells can be cut at any of them. -/
theorem Links.leads_append :
    l.Leads start (is ++ js) stop ↔ ∃ mid, l.Leads start is mid ∧ l.Leads mid js stop := by
  induction is generalizing start with
  | nil => simp [Links.Leads]
  | cons i is ih => simp [Links.Leads, ih, and_assoc]

/-- Only the links of the cells on the way matter. -/
theorem Links.Leads.congr (his : l.Leads start is stop) (hnext : ∀ i ∈ is, l'.next i = l.next i) :
    l'.Leads start is stop := by
  induction is generalizing start with
  | nil => exact his
  | cons i is ih =>
    refine ⟨his.1, ?_⟩
    rw [hnext i List.mem_cons_self]
    exact ih his.2 fun j hj => hnext j (List.mem_cons_of_mem _ hj)

/-- Links that end go on through the same cells, however far they have been followed. -/
theorem Links.Leads.rest (his : l.Leads start is stop) (hjs : l.Leads start js none) :
    ∃ ks, js = is ++ ks ∧ l.Leads stop ks none := by
  induction is generalizing start js with
  | nil => exact ⟨js, rfl, his ▸ hjs⟩
  | cons i is ih =>
    obtain ⟨rfl, his⟩ := his
    cases js with
    | nil => cases hjs
    | cons j js =>
      obtain ⟨hij, hjs⟩ := hjs
      obtain rfl := Option.some.inj hij
      obtain ⟨ks, rfl, hks⟩ := ih his hjs
      exact ⟨ks, rfl, hks⟩

/-- Links that come back to where they were do not end. -/
theorem Links.Leads.not_ends (his : l.Leads start is start) (hne : is ≠ []) : ¬ ∃ js, l.Leads start js none := by
  rintro ⟨js, hjs⟩
  obtain ⟨ks, rfl, hks⟩ := his.rest hjs
  obtain ⟨ms, hms, -⟩ := hjs.rest hks
  have hlength := congrArg List.length hms
  have hpos := List.length_pos_iff.mpr hne
  simp only [List.length_append] at hlength
  omega

/-- Links that end pass no cell twice. -/
theorem Links.Leads.nodup (his : l.Leads start is none) : is.Nodup := by
  induction is generalizing start with
  | nil => exact List.nodup_nil
  | cons i is ih =>
    obtain ⟨rfl, hrest⟩ := his
    refine List.nodup_cons.mpr ⟨fun hmem => ?_, ih hrest⟩
    obtain ⟨before, after, rfl⟩ := List.append_of_mem hmem
    obtain ⟨mid, hbefore, hafter⟩ := Links.leads_append.mp hrest
    obtain ⟨rfl, -⟩ := hafter
    have hround : l.Leads (some i) (i :: before) (some i) := ⟨rfl, hbefore⟩
    exact hround.not_ends (List.cons_ne_nil _ _) ⟨i :: (before ++ i :: after), rfl, hrest⟩

/-- There is one list of cells at most, since every link leads to one cell. -/
theorem Links.Chain.unique (his : l.Chain is) (hjs : l.Chain js) : is = js := by
  obtain ⟨ks, rfl, hks⟩ := Links.Leads.rest his hjs
  cases ks with
  | nil => exact (List.append_nil is).symm
  | cons k ks => cases hks.1

/-- A list that ends has at most as many cells as there are. -/
theorem Links.Chain.length_le [Fintype ι] (his : l.Chain is) : is.length ≤ Fintype.card ι :=
  (Links.Leads.nodup his).length_le_card

/-- The cells before and after one of them. -/
theorem Links.Chain.split (his : l.Chain (is ++ i :: js)) :
    l.Leads l.head is (some i) ∧ l.Leads (l.next i) js none ∧ i ∉ is ∧ i ∉ js := by
  obtain ⟨mid, hbefore, rfl, hafter⟩ := Links.leads_append.mp his
  have hnodup := Links.Leads.nodup his
  rw [List.nodup_middle, List.nodup_cons, List.mem_append, not_or] at hnodup
  exact ⟨hbefore, hafter, hnodup.1⟩

/-- The link of a cell, or the start of the list. -/
def Links.link (l : Links ι) : Option ι → Option ι
  | none => l.head
  | some i => l.next i

section Update

variable [DecidableEq ι]

/-- The list with another cell in front. -/
def Links.push (l : Links ι) (i : ι) : Links ι where
  head := some i
  next := Function.update l.next i l.head

/-- Pushing a cell does not touch a way that avoids it. -/
theorem Links.Leads.pushed (his : l.Leads start is stop) (hi : i ∉ is) : (l.push i).Leads start is stop := by
  refine his.congr fun j hj => Function.update_of_ne ?_ _ _
  rintro rfl
  exact hi hj

/-- A cell that is not on the list becomes its first one. -/
theorem Links.Chain.push (his : l.Chain is) (hi : i ∉ is) : (l.push i).Chain (i :: is) := by
  refine ⟨rfl, ?_⟩
  change (l.push i).Leads (Function.update l.next i l.head i) is none
  rw [Function.update_self]
  exact Links.Leads.pushed his hi

/-- What is put in front of the list it is on makes the list go round. -/
theorem Links.Chain.not_push (his : l.Chain is) (hi : i ∈ is) : ¬ ∃ js, (l.push i).Chain js := by
  obtain ⟨before, after, rfl⟩ := List.append_of_mem hi
  obtain ⟨hbefore, -, hnot, -⟩ := his.split
  have hnext : (l.push i).next i = l.head := Function.update_self ..
  have hround : (l.push i).Leads (some i) (i :: before) (some i) := by
    refine ⟨rfl, ?_⟩
    rw [hnext]
    exact hbefore.pushed hnot
  exact hround.not_ends (List.cons_ne_nil _ _)

def Links.setLink (l : Links ι) (target : Option ι) : Option ι → Links ι
  | none => { l with head := target }
  | some i => { l with next := Function.update l.next i target }

/-- A cell is taken off the list by linking the one before it to the one after it. -/
theorem Links.Chain.unlink (his : l.Chain (is ++ i :: js)) :
    (l.setLink (l.next i) is.getLast?).Chain (is ++ js) := by
  obtain ⟨hbefore, hafter, -, -⟩ := his.split
  have hnodup := Links.Leads.nodup his
  rcases List.eq_nil_or_concat' is with rfl | ⟨is, p, rfl⟩
  · exact hafter.congr fun _ _ => rfl
  · rw [List.getLast?_concat]
    obtain ⟨mid, hfirst, rfl, -⟩ := Links.leads_append.mp hbefore
    have hp : p ∉ is ∧ p ∉ js := by
      rw [List.append_assoc, List.singleton_append, List.nodup_middle, List.nodup_cons] at hnodup
      exact ⟨fun h => hnodup.1 (List.mem_append_left _ h), fun h =>
        hnodup.1 (List.mem_append_right _ (List.mem_cons_of_mem _ h))⟩
    have hkeep (ks : List ι) (hks : p ∉ ks) (k : ι) (hk : k ∈ ks) :
        (l.setLink (l.next i) (some p)).next k = l.next k := by
      refine Function.update_of_ne ?_ _ _
      rintro rfl
      exact hks hk
    have hlink : (l.setLink (l.next i) (some p)).next p = l.next i := Function.update_self ..
    refine Links.leads_append.mpr ⟨l.next i, Links.leads_append.mpr ⟨some p, ?_, rfl, hlink⟩, ?_⟩
    · exact hfirst.congr (hkeep is hp.1)
    · exact hafter.congr (hkeep js hp.2)

end Update

end chain
