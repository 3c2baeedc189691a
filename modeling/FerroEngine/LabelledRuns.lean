import Mathlib.Data.List.Basic

set_option autoImplicit false

/-! # Runs of a labelled step function

A step function may refuse a label; a run is the sequence of its labels.
-/

namespace FerroEngine.LabelledRuns

variable {σ α : Type} (step : σ → α → Option σ)

def run (s : σ) : List α → Option σ
  | [] => some s
  | a :: as => (step s a).bind fun t => run t as

@[simp] theorem run_nil (s : σ) : run step s [] = some s := rfl

theorem run_cons (s : σ) (a : α) (as : List α) :
    run step s (a :: as) = (step s a).bind fun t => run step t as := rfl

theorem run_append (s : σ) (as bs : List α) :
    run step s (as ++ bs) = (run step s as).bind fun t => run step t bs := by
  induction as generalizing s with
  | nil => rfl
  | cons a as ih =>
    rw [List.cons_append, run_cons, run_cons, Option.bind_assoc]
    congr 1
    funext t
    exact ih t

/-- Every step of the run meets the condition in the state it is taken in. -/
def Meets (cond : σ → α → Prop) (s : σ) : List α → Prop
  | [] => True
  | a :: as => cond s a ∧ ∀ t, step s a = some t → Meets cond t as

theorem meets_cons {cond : σ → α → Prop} {s t : σ} {a : α} {as : List α} (holds : cond s a)
    (taken : step s a = some t) (rest : Meets step cond t as) : Meets step cond s (a :: as) := by
  refine ⟨holds, ?_⟩
  intro u taken'
  rw [taken, Option.some.injEq] at taken'
  exact taken' ▸ rest

/-- What every step that meets the condition preserves holds in every state reached. -/
theorem run_invariant {cond : σ → α → Prop} {Inv : σ → Prop}
    (keep : ∀ {s t : σ} {a : α}, Inv s → cond s a → step s a = some t → Inv t)
    {s t : σ} {as : List α} (start : Inv s) (meets : Meets step cond s as)
    (reached : run step s as = some t) : Inv t := by
  induction as generalizing s with
  | nil =>
    rw [run_nil, Option.some.injEq] at reached
    exact reached ▸ start
  | cons a as ih =>
    rw [run_cons, Option.bind_eq_some_iff] at reached
    obtain ⟨u, first, rest⟩ := reached
    exact ih (keep start meets.1 first) (meets.2 u first) rest

theorem meets_of_forall {cond : σ → α → Prop} {as : List α}
    (holds : ∀ a ∈ as, ∀ s, cond s a) (s : σ) : Meets step cond s as := by
  induction as generalizing s with
  | nil => trivial
  | cons a as ih =>
    refine ⟨holds a (.head as) s, ?_⟩
    intro t _
    exact ih (fun b member => holds b (.tail a member)) t

/-- What every step preserves holds in every state reached. -/
theorem run_always {Inv : σ → Prop}
    (keep : ∀ {s t : σ} {a : α}, Inv s → step s a = some t → Inv t)
    {s t : σ} {as : List α} (start : Inv s) (reached : run step s as = some t) : Inv t :=
  run_invariant step (fun holds _ => keep holds) start
    (meets_of_forall step (fun _ _ _ => trivial) s) reached

/-! ## Continuations -/

/-- Some continuation leads to a state with the property. -/
def CanReach (P : σ → Prop) (s : σ) : Prop :=
  ∃ as t, run step s as = some t ∧ P t

variable {step} {P Q : σ → Prop}

theorem CanReach.here {s : σ} (holds : P s) : CanReach step P s :=
  ⟨[], s, rfl, holds⟩

theorem CanReach.next {s t : σ} {a : α} (taken : step s a = some t) (rest : CanReach step P t) :
    CanReach step P s := by
  obtain ⟨as, u, reached, holds⟩ := rest
  refine ⟨a :: as, u, ?_, holds⟩
  rw [run_cons, taken]
  exact reached

theorem CanReach.trans {s : σ} (first : CanReach step P s)
    (rest : ∀ t, P t → CanReach step Q t) : CanReach step Q s := by
  obtain ⟨as, t, reached, holds⟩ := first
  obtain ⟨bs, u, reached', holds'⟩ := rest t holds
  refine ⟨as ++ bs, u, ?_, holds'⟩
  rw [run_append, reached]
  exact reached'

/-- What every step preserves still holds at the end of the continuation. -/
theorem CanReach.keeps {Inv : σ → Prop}
    (keep : ∀ {s t : σ} {a : α}, Inv s → step s a = some t → Inv t) {s : σ} (start : Inv s)
    (reach : CanReach step P s) : CanReach step (fun t => P t ∧ Inv t) s := by
  obtain ⟨as, t, reached, holds⟩ := reach
  exact ⟨as, t, reached, holds, run_always step keep start reached⟩

/-! ## Replies -/

section Replies

variable {τ β : Type}

/-- A step function that answers, with the answers so far. -/
def replying (step : σ → α → Option (σ × β)) (p : σ × List β) (a : α) :
    Option (σ × List β) :=
  (step p.1 a).map fun q => (q.1, p.2 ++ [q.2])

theorem replying_eq_some {step : σ → α → Option (σ × β)} {p q : σ × List β} {a : α}
    (taken : replying step p a = some q) :
    ∃ b, step p.1 a = some (q.1, b) ∧ q.2 = p.2 ++ [b] := by
  rw [replying, Option.map_eq_some_iff] at taken
  obtain ⟨⟨t, b⟩, moved, rfl⟩ := taken
  exact ⟨b, moved, rfl⟩

/-- A relation that the steps keep, with the same answers, carries every run over. -/
theorem run_simulates {step : σ → α → Option (σ × β)} {target : τ → α → Option (τ × β)}
    {R : σ → τ → Prop}
    (simulates : ∀ {s s' : σ} {r : τ} {a : α} {b : β}, R s r → step s a = some (s', b) →
      ∃ r', target r a = some (r', b) ∧ R s' r')
    {s s' : σ} {r : τ} {as : List α} {before after : List β} (related : R s r)
    (ran : run (replying step) (s, before) as = some (s', after)) :
    ∃ r', run (replying target) (r, before) as = some (r', after) ∧ R s' r' := by
  induction as generalizing s r before with
  | nil =>
    rw [run_nil] at ran
    cases ran
    exact ⟨r, rfl, related⟩
  | cons a as ih =>
    rw [run_cons, Option.bind_eq_some_iff] at ran
    obtain ⟨⟨u, middle⟩, first, rest⟩ := ran
    obtain ⟨b, moved, answers⟩ := replying_eq_some first
    obtain ⟨r', moved', related'⟩ := simulates related moved
    obtain ⟨r'', rest', related''⟩ := ih related' rest
    refine ⟨r'', ?_, related''⟩
    have first' : replying target (r, before) a = some (r', middle) := by
      rw [replying, moved', Option.map_some]
      exact congrArg (fun l => some (r', l)) answers.symm
    rw [run_cons, first']
    exact rest'

end Replies

end FerroEngine.LabelledRuns
