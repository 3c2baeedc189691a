import Mathlib.Logic.Function.Iterate
import Mathlib.Tactic.Common

set_option autoImplicit false

/-! # Deterministic loops as iterated steps

A loop is a step function whose exit states are its fixed points.  Two fixed points on one orbit
are equal, so a run found by composing small runs is the run of the loop.
-/

namespace FerroEngine.StepIteration

variable {σ : Type*} {step : σ → σ} {s t u : σ}

/-- Some number of turns of the loop leads from `s` to `t`. -/
def Reaches (step : σ → σ) (s t : σ) : Prop :=
  ∃ n : Nat, step^[n] s = t

theorem Reaches.refl (s : σ) : Reaches step s s :=
  ⟨0, rfl⟩

theorem Reaches.single (s : σ) : Reaches step s (step s) :=
  ⟨1, rfl⟩

theorem Reaches.trans (first : Reaches step s t) (second : Reaches step t u) :
    Reaches step s u := by
  obtain ⟨m, rfl⟩ := first
  obtain ⟨n, rfl⟩ := second
  exact ⟨n + m, Function.iterate_add_apply step n m s⟩

theorem Reaches.head (rest : Reaches step (step s) u) : Reaches step s u :=
  (Reaches.single s).trans rest

/-- A property that one turn preserves holds after any number of turns. -/
theorem Reaches.preserves (P : σ → Prop) (preserved : ∀ s, P s → P (step s))
    (run : Reaches step s t) (holds : P s) : P t := by
  obtain ⟨n, rfl⟩ := run
  induction n generalizing s with
  | zero => exact holds
  | succ n ih => exact ih (preserved s holds)

/-- When every turn from a state of the invariant either stays or lowers the measure, the measure
bounds the turns. -/
theorem iterate_fixed (Inv : σ → Prop) (preserved : ∀ s, Inv s → Inv (step s))
    (measure : σ → Nat) (progress : ∀ s, Inv s → step s = s ∨ measure (step s) < measure s)
    (n : Nat) (s : σ) (holds : Inv s) (enough : measure s ≤ n) :
    step (step^[n] s) = step^[n] s := by
  induction n generalizing s with
  | zero =>
    rcases progress s holds with fixed | lower
    · exact fixed
    · omega
  | succ n ih =>
    rw [Function.iterate_succ_apply]
    rcases progress s holds with fixed | lower
    · rw [fixed, Function.iterate_fixed fixed, fixed]
    · exact ih (step s) (preserved s holds) (by omega)

theorem iterate_eq_of_fixed (n extra : Nat) (fixed : step (step^[n] s) = step^[n] s) :
    step^[extra + n] s = step^[n] s := by
  rw [Function.iterate_add_apply, Function.iterate_fixed fixed]

/-- Two fixed points on the orbit of one state are the same state. -/
theorem Reaches.eq_iterate (run : Reaches step s t) (exit : step t = t) (n : Nat)
    (fixed : step (step^[n] s) = step^[n] s) : step^[n] s = t := by
  obtain ⟨m, rfl⟩ := run
  rcases Nat.le_total m n with before | after
  · obtain ⟨extra, rfl⟩ := Nat.exists_eq_add_of_le' before
    exact iterate_eq_of_fixed m extra exit
  · obtain ⟨extra, rfl⟩ := Nat.exists_eq_add_of_le' after
    exact (iterate_eq_of_fixed n extra fixed).symm

/-- A run never raises the measure. -/
theorem Reaches.measure_le (Inv : σ → Prop) (preserved : ∀ s, Inv s → Inv (step s))
    (measure : σ → Nat) (progress : ∀ s, Inv s → step s = s ∨ measure (step s) < measure s)
    (holds : Inv s) (run : Reaches step s t) : measure t ≤ measure s := by
  obtain ⟨n, rfl⟩ := run
  induction n generalizing s with
  | zero => exact Nat.le_refl _
  | succ n ih =>
    refine Nat.le_trans (ih (preserved s holds)) ?_
    rcases progress s holds with fixed | lower
    · exact Nat.le_of_eq (congrArg measure fixed)
    · exact Nat.le_of_lt lower

/-- Two states of one run with the same measure are the same state. -/
theorem Reaches.unique (Inv : σ → Prop) (preserved : ∀ s, Inv s → Inv (step s))
    (measure : σ → Nat) (progress : ∀ s, Inv s → step s = s ∨ measure (step s) < measure s)
    (holds : Inv s) (first : Reaches step s t) (second : Reaches step s u)
    (same : measure t = measure u) : t = u := by
  have ordered : ∀ t : σ, Inv t → ∀ n : Nat, measure t = measure (step^[n] t) →
      t = step^[n] t := by
    intro t holds n same
    cases n with
    | zero => rfl
    | succ n =>
      rcases progress t holds with fixed | lower
      · exact (Function.iterate_fixed fixed (n + 1)).symm
      · have bound := Reaches.measure_le Inv preserved measure progress (preserved t holds)
          ⟨n, rfl⟩
        rw [Function.iterate_succ_apply] at same
        omega
  obtain ⟨m, rfl⟩ := first
  obtain ⟨n, rfl⟩ := second
  have holdsAt : ∀ k : Nat, Inv (step^[k] s) := fun k =>
    Reaches.preserves Inv preserved ⟨k, rfl⟩ holds
  rcases Nat.le_total m n with before | after
  · obtain ⟨extra, rfl⟩ := Nat.exists_eq_add_of_le' before
    rw [Function.iterate_add_apply] at same ⊢
    exact ordered _ (holdsAt m) extra same
  · obtain ⟨extra, rfl⟩ := Nat.exists_eq_add_of_le' after
    rw [Function.iterate_add_apply] at same ⊢
    exact (ordered _ (holdsAt n) extra same.symm).symm

/-- A fixed point that the loop ends in is reached from every state on the way. -/
theorem Reaches.to_fixed (run : Reaches step s t) (n : Nat)
    (fixed : step (step^[n] s) = step^[n] s) : Reaches step t (step^[n] s) := by
  obtain ⟨m, rfl⟩ := run
  rcases Nat.le_total m n with before | after
  · obtain ⟨extra, rfl⟩ := Nat.exists_eq_add_of_le' before
    exact ⟨extra, (Function.iterate_add_apply step extra m s).symm⟩
  · obtain ⟨extra, rfl⟩ := Nat.exists_eq_add_of_le' after
    exact ⟨0, iterate_eq_of_fixed n extra fixed⟩

end FerroEngine.StepIteration
