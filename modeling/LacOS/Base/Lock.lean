import Mathlib.Tactic.Common

namespace lock

/-- What code that shares a state does: it takes or releases the lock, writes to the shared
    state, or does something else. -/
inductive Action (W O : Type*) where
  | acquire
  | release
  | write (w : W)
  | other (o : O)

variable {W O : Type*}

/-- Whether the lock is held after the actions. -/
def held : Bool → List (Action W O) → Bool
  | taken, [] => taken
  | _, .acquire :: rest => held true rest
  | _, .release :: rest => held false rest
  | taken, .write _ :: rest | taken, .other _ :: rest => held taken rest

/-- Every write finds the lock held. -/
def Guards : Bool → List (Action W O) → Prop
  | _, [] => True
  | _, .acquire :: rest => Guards true rest
  | _, .release :: rest => Guards false rest
  | taken, .write _ :: rest => taken = true ∧ Guards taken rest
  | taken, .other _ :: rest => Guards taken rest

instance decidableGuards : (taken : Bool) → (actions : List (Action W O)) → Decidable (Guards taken actions)
  | _, [] => isTrue trivial
  | _, .acquire :: rest => decidableGuards true rest
  | _, .release :: rest => decidableGuards false rest
  | true, .write _ :: rest =>
    match decidableGuards true rest with
    | isTrue hrest => isTrue ⟨rfl, hrest⟩
    | isFalse hrest => isFalse fun h => hrest h.2
  | false, .write _ :: _ => isFalse fun h => Bool.false_ne_true h.1
  | taken, .other _ :: rest => decidableGuards taken rest

section Append

variable {taken : Bool} {actions rest : List (Action W O)}

@[simp] theorem held_append : held taken (actions ++ rest) = held (held taken actions) rest := by
  induction actions generalizing taken with
  | nil => rfl
  | cons action actions ih => cases action <;> exact ih

@[simp] theorem guards_append :
    Guards taken (actions ++ rest) ↔ Guards taken actions ∧ Guards (held taken actions) rest := by
  induction actions generalizing taken with
  | nil => simp [Guards, held]
  | cons action actions ih =>
    cases action with
    | acquire => exact ih
    | release => exact ih
    | write w =>
      simp only [List.cons_append, Guards, held, ih]
      exact and_assoc.symm
    | other o => exact ih

/-- Once the lock is released, the next write is not guarded. -/
theorem not_guards_of_released (hreleased : held taken actions = false) (w : W) :
    ¬Guards taken (actions ++ .write w :: rest) := by
  rw [guards_append, hreleased]
  intro ⟨_, hwrite, _⟩
  exact Bool.false_ne_true hwrite

/-- A part that leaves the lock released does so when it is repeated. -/
theorem held_repeat {part : List (Action W O)} {n : Nat} (hn : n ≠ 0) (hpart : ∀ taken, held taken part = false) :
    held taken (List.replicate n part).flatten = false := by
  obtain ⟨m, rfl⟩ := Nat.exists_eq_succ_of_ne_zero hn
  rw [List.replicate_succ', List.flatten_append, held_append, List.flatten_singleton, hpart]

end Append

end lock
