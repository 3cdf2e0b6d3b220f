import Mathlib.Tactic.Common

namespace program

universe u

/-- A program over a state. It has no result where it does not end. -/
abbrev Prog (σ α : Type u) := StateT σ Option α

/-- A loop over local variables. Its body ends the loop with a result, or goes round with
    other values; `fuel` is how often it may start. -/
def loop {σ α β : Type u} (body : β → Prog σ (β ⊕ α)) : Nat → β → Prog σ α
  | 0, _, _ => none
  | fuel + 1, b, s =>
    (body b s).bind fun (next, s) =>
      match next with
      | .inl b => loop body fuel b s
      | .inr a => some (a, s)

/-- The program ends, with a result and a state that satisfy `post`. -/
def wp {σ α : Type u} (x : Prog σ α) (post : α → σ → Prop) (s : σ) : Prop :=
  ∃ a s', x s = some (a, s') ∧ post a s'

section Rules

variable {σ α β : Type u} {s : σ}

theorem wp_pure {post : α → σ → Prop} {a : α} (hpost : post a s) : wp (pure a : Prog σ α) post s :=
  ⟨a, s, rfl, hpost⟩

/-- A program goes on with the result and the state of its first part. -/
theorem bind_of_eq {x : Prog σ α} {a : α} {s' : σ} (hx : x s = some (a, s')) (f : α → Prog σ β) :
    (x >>= f) s = f a s' := by
  change (x s).bind (fun r => f r.1 r.2) = f a s'
  rw [hx]
  rfl

/-- The rule for two programs one after the other. -/
theorem wp_bind {x : Prog σ α} {f : α → Prog σ β} {post : β → σ → Prop}
    (hx : wp x (fun a s' => wp (f a) post s') s) : wp (x >>= f) post s := by
  obtain ⟨a, s', hx, b, s'', hf, hpost⟩ := hx
  exact ⟨b, s'', (bind_of_eq hx f).trans hf, hpost⟩

/-- A postcondition can be replaced by any that follows from it. -/
theorem wp_mono {x : Prog σ α} {post post' : α → σ → Prop} (hx : wp x post s)
    (hpost : ∀ a s', post a s' → post' a s') : wp x post' s := by
  obtain ⟨a, s', hx, h⟩ := hx
  exact ⟨a, s', hx, hpost a s' h⟩

/-- A loop ends if its body keeps an invariant and makes the number in it smaller whenever
    it goes round. -/
theorem wp_loop {body : β → Prog σ (β ⊕ α)} {post : α → σ → Prop} (inv : Nat → β → σ → Prop)
    (hbody : ∀ n b s, inv n b s →
      wp (body b) (fun next s' => next.elim (fun b' => ∃ n' < n, inv n' b' s') (fun a => post a s')) s)
    {n fuel : Nat} (hfuel : n < fuel) {b : β} (hinv : inv n b s) : wp (loop body fuel b) post s := by
  induction fuel generalizing n b s with
  | zero => exact absurd hfuel (Nat.not_lt_zero _)
  | succ fuel ih =>
    obtain ⟨next, s', hround, hnext⟩ := hbody n b s hinv
    cases next with
    | inl b' =>
      obtain ⟨n', hn', hinv'⟩ := hnext
      obtain ⟨a, s'', hrest, hpost⟩ := ih (Nat.lt_of_lt_of_le hn' (Nat.le_of_lt_succ hfuel)) hinv'
      refine ⟨a, s'', ?_, hpost⟩
      rw [loop, hround]
      exact hrest
    | inr a =>
      refine ⟨a, s', ?_, hnext⟩
      rw [loop, hround]
      rfl

end Rules

end program
