import Mathlib.Algebra.GroupWithZero.Nat
import Mathlib.Tactic.Common

namespace trace

variable {σ ε : Type*} (step : σ → ε → Option σ)

/-- The state a sequence of events leads to. There is none once an event is not
    possible in the state it finds. -/
def run : σ → List ε → Option σ
  | s, [] => some s
  | s, e :: es => (step s e).bind (run · es)

/-- Every event of the sequence meets `guard` in the state it finds. -/
def Guarded (guard : σ → ε → Prop) : σ → List ε → Prop
  | _, [] => True
  | s, e :: es => guard s e ∧ ∀ s', step s e = some s' → Guarded guard s' es

/-- Whether a sequence is guarded can be found out by running it. -/
instance decidableGuarded (guard : σ → ε → Prop) [∀ s e, Decidable (guard s e)] :
    ∀ s es, Decidable (Guarded step guard s es)
  | _, [] => isTrue trivial
  | s, e :: es =>
    match hstep : step s e with
    | none => decidable_of_iff (guard s e) (by simp [Guarded, hstep])
    | some s' =>
      have := decidableGuarded guard s' es
      decidable_of_iff (guard s e ∧ Guarded step guard s' es) (by simp [Guarded, hstep])

variable {step} {guard : σ → ε → Prop} {inv : σ → Prop} {s s' : σ} {e : ε} {es es' : List ε}

/-- A run makes its first step and goes on from there. -/
theorem run_cons_eq_some : run step s (e :: es) = some s' ↔ ∃ t, step s e = some t ∧ run step t es = some s' := by
  simp only [run, Option.bind_eq_some_iff]

/-- A run that is computed ends in a state of which a property can be computed too. -/
theorem exists_run {prop : σ → Prop} [DecidablePred prop]
    (hany : (run step s es).any (fun s => decide (prop s)) = true) : ∃ s', run step s es = some s' ∧ prop s' := by
  obtain ⟨s', hrun, hprop⟩ := (Option.any_eq_true _ _).mp hany
  exact ⟨s', hrun, of_decide_eq_true hprop⟩

/-- A run over two lists of events is a run over the second from where the first one ends. -/
theorem run_append : run step s (es ++ es') = (run step s es).bind (run step · es') := by
  induction es generalizing s with
  | nil => rfl
  | cons e es ih =>
    cases hstep : step s e with
    | none => simp only [List.cons_append, run, hstep, Option.bind_none]
    | some t => simp only [List.cons_append, run, hstep, Option.bind_some, ih]

/-- A guard that always holds does not restrict runs. -/
theorem guarded_of_forall (hguard : ∀ s e, guard s e) : Guarded step guard s es := by
  induction es generalizing s with
  | nil => exact trivial
  | cons e es ih => exact ⟨hguard s e, fun _ _ => ih⟩

/-- What every guarded step preserves holds at the end of every guarded run. -/
theorem run_invariant (hstep : ∀ s e s', inv s → guard s e → step s e = some s' → inv s') (hs : inv s)
    (hguard : Guarded step guard s es) (hrun : run step s es = some s') : inv s' := by
  induction es generalizing s with
  | nil =>
    cases hrun
    exact hs
  | cons e es ih =>
    obtain ⟨t, ht, hrest⟩ := run_cons_eq_some.mp hrun
    exact ih (hstep s e t hs hguard.1 ht) (hguard.2 t ht) hrest

/-- What every step preserves holds at the end of every run. -/
theorem run_invariant_of_step (hstep : ∀ s e s', inv s → step s e = some s' → inv s') (hs : inv s)
    (hrun : run step s es = some s') : inv s' := by
  have hguard : Guarded step (fun _ _ => True) s es := guarded_of_forall fun _ _ => trivial
  exact run_invariant (fun s e s' hinv _ => hstep s e s' hinv) hs hguard hrun

/-- What the invariant and the guard imply about a step holds for every step of a
    guarded run. -/
theorem guarded_of_invariant {prop : σ → ε → Prop} (hprop : ∀ s e, inv s → guard s e → prop s e)
    (hstep : ∀ s e s', inv s → guard s e → step s e = some s' → inv s') (hs : inv s)
    (hguard : Guarded step guard s es) : Guarded step prop s es := by
  induction es generalizing s with
  | nil => exact trivial
  | cons e es ih =>
    exact ⟨hprop s e hs hguard.1, fun t ht => ih (hstep s e t hs hguard.1 ht) (hguard.2 t ht)⟩

/-- If a guarded step keeps the invariant and any other step breaks the property,
    the property holds all along a run exactly when every step is guarded. -/
theorem always_iff_guarded {prop : σ → Prop} (hprop : ∀ s, inv s → prop s)
    (hkeep : ∀ s e s', inv s → guard s e → step s e = some s' → inv s')
    (hbreak : ∀ s e, inv s → ¬ guard s e → ∃ s', step s e = some s' ∧ ¬ prop s') (hs : inv s) :
    (∀ es', es' <+: es → ∀ s', run step s es' = some s' → prop s') ↔ Guarded step guard s es := by
  induction es generalizing s with
  | nil =>
    simp only [Guarded, iff_true, List.prefix_nil]
    rintro es' rfl s' hrun
    cases hrun
    exact hprop s hs
  | cons e es ih =>
    constructor
    · intro hall
      have hguard : guard s e := by
        by_contra hnot
        obtain ⟨t, ht, hbad⟩ := hbreak s e hs hnot
        refine hbad (hall [e] (by simp) t ?_)
        rw [run, ht, Option.bind_some, run]
      refine ⟨hguard, fun t ht => (ih (hkeep s e t hs hguard ht)).mp fun es' hes' s' hrun => ?_⟩
      exact hall (e :: es') (by simpa using hes') s' (run_cons_eq_some.mpr ⟨t, ht, hrun⟩)
    · rintro ⟨hguard, hrest⟩ es' hes' s' hrun
      cases es' with
      | nil =>
        cases hrun
        exact hprop s hs
      | cons e' es' =>
        obtain ⟨rfl, hprefix⟩ := List.cons_prefix_cons.mp hes'
        obtain ⟨t, ht, hrun⟩ := run_cons_eq_some.mp hrun
        exact (ih (hkeep s _ t hs hguard ht)).mpr (hrest t ht) es' hprefix s' hrun

end trace
