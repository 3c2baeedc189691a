import Mathlib.Data.List.Perm.Basic
import FerroEngine.PoolCheckout

set_option autoImplicit false

/-! # The capacity of the pool

Idle connections hold no permit. The bound on them and on what the permit holders have in hand
rests on the one step that adds a connection: a dial begins only with the idle stack empty.
-/

namespace FerroEngine.PoolCapacity

open LabelledRuns PoolStatements PoolCheckout

def permitOf : Phase → Option Nat
  | .popping permit | .dialling permit | .armingFresh permit _ | .inspecting permit _
  | .rollingBack permit _ _ | .resetting permit _ _ | .arming permit _ | .guarded permit _
  | .leaving permit | .reapPopping permit _ | .reapInspecting permit _ _ | .pinging permit _ _
  | .reapLeaving permit _ _ | .reapStopping permit => some permit
  | .waiting | .finished | .sleeping | .reaping _ | .evicting _ _ => none

/-- A guard, a dial, or a connection in the hands of a checkout or of the reaper. -/
def committed : Phase → Bool
  | .dialling _ | .armingFresh _ _ | .inspecting _ _ | .rollingBack _ _ _ | .resetting _ _ _
  | .arming _ _ | .guarded _ _ | .reapInspecting _ _ _ | .pinging _ _ _ => true
  | .reapLeaving _ evicted _ => evicted.isSome
  | _ => false

def isGuard : Phase → Bool
  | .guarded _ _ => true
  | _ => false

def held (s : State) : List Nat :=
  s.tasks.filterMap permitOf

def guards (s : State) : Nat :=
  s.tasks.countP isGuard

/-- Every connection that is idle, being dialled, or with a holder of a permit. -/
def connections (s : State) : Nat :=
  s.idle.length + s.tasks.countP committed

theorem committed_holds (phase : Phase) (found : committed phase = true) :
    (permitOf phase).isSome = true := by
  cases phase with
  | waiting | popping | leaving | finished | sleeping | reaping | reapPopping | reapStopping
    | evicting => cases found
  | _ => rfl

theorem committed_le_held (s : State) : s.tasks.countP committed ≤ (held s).length := by
  rw [held, List.length_filterMap_eq_countP]
  exact List.countP_mono_left fun phase _ => committed_holds phase

/-! ## Steps -/

def weight (phase : Phase) : Nat :=
  (committed phase).toNat

/-- No permit changes hands, and a connection is added only next to an empty stack. -/
structure Kept (s t : State) (old new : Phase) : Prop where
  available : t.available = s.available
  next : t.next = s.next
  returned : t.returned = s.returned
  permit : permitOf new = permitOf old
  room : t.idle.length + weight new ≤ s.idle.length + weight old ∨ t.idle = []

structure Took (s t : State) (old new : Phase) : Prop where
  free : 0 < s.available
  available : t.available = s.available - 1
  next : t.next = s.next + 1
  returned : t.returned = s.returned
  before : permitOf old = none
  after : permitOf new = some s.next
  room : t.idle.length + weight new ≤ s.idle.length + weight old

structure Gave (s t : State) (old new : Phase) (permit : Nat) : Prop where
  available : t.available = s.available + 1
  next : t.next = s.next
  returned : t.returned = permit :: s.returned
  before : permitOf old = some permit
  after : permitOf new = none
  room : t.idle.length + weight new ≤ s.idle.length + weight old

def Effect (s t : State) (old new : Phase) : Prop :=
  Kept s t old new ∨ Took s t old new ∨ ∃ permit, Gave s t old new permit

theorem put_kept (s : State) (i : Nat) {old new : Phase} (permit : permitOf new = permitOf old)
    (room : weight new ≤ weight old) : Effect s (s.put i new) old new :=
  .inl ⟨rfl, rfl, rfl, permit, .inl (Nat.add_le_add_left room _)⟩

theorem lets_kept (s : State) (i : Nat) (conn : Conn) {old new : Phase}
    (permit : permitOf new = permitOf old) (room : weight new ≤ weight old) :
    Effect s ((s.lets conn).put i new) old new :=
  .inl ⟨rfl, rfl, rfl, permit, .inl (Nat.add_le_add_left room _)⟩

theorem pushes_kept (s : State) (i : Nat) (conn : IdleConn) {old new : Phase}
    (permit : permitOf new = permitOf old) (room : weight new + 1 ≤ weight old) :
    Effect s ((s.pushes conn).put i new) old new := by
  refine .inl ⟨rfl, rfl, rfl, permit, .inl ?_⟩
  dsimp only [State.put, State.pushes, List.length_cons]
  omega

theorem pops_kept {s : State} (i : Nat) {popped : IdleConn} {idle : List IdleConn}
    (stack : s.idle = popped :: idle) {old new : Phase} (permit : permitOf new = permitOf old)
    (room : weight new ≤ weight old + 1) : Effect s ({ s with idle := idle }.put i new) old new := by
  refine .inl ⟨rfl, rfl, rfl, permit, .inl ?_⟩
  rw [stack, List.length_cons]
  dsimp only [State.put]
  omega

theorem empty_kept {s : State} (i : Nat) (stack : s.idle = []) {old new : Phase}
    (permit : permitOf new = permitOf old) : Effect s (s.put i new) old new :=
  .inl ⟨rfl, rfl, rfl, permit, .inr stack⟩

theorem takes_effect {s : State} (i : Nat) (free : 0 < s.available) {old new : Phase}
    (before : permitOf old = none) (after : permitOf new = some s.next)
    (room : weight new ≤ weight old) : Effect s (s.takesPermit.put i new) old new :=
  .inr (.inl ⟨free, rfl, rfl, rfl, before, after, Nat.add_le_add_left room _⟩)

theorem gives_effect (s : State) (i : Nat) {permit : Nat} {old new : Phase}
    (before : permitOf old = some permit) (after : permitOf new = none)
    (room : weight new ≤ weight old) : Effect s ((s.givesBack permit).put i new) old new :=
  .inr (.inr ⟨permit, rfl, rfl, rfl, before, after, Nat.add_le_add_left room _⟩)

theorem afterRollback_same (permit : Nat) (popped : IdleConn) (profile : Option ResetProfile) :
    permitOf (afterRollback permit popped profile) = some permit ∧
      weight (afterRollback permit popped profile) = 1 := by
  cases profile with
  | none => exact ⟨rfl, rfl⟩
  | some profile => exact ⟨rfl, rfl⟩

theorem cleanup_same (cfg : Config) (permit : Nat) (popped : IdleConn) :
    permitOf (cleanup cfg permit popped) = some permit ∧
      weight (cleanup cfg permit popped) = 1 := by
  rw [cleanup]
  split
  · exact ⟨rfl, rfl⟩
  · exact afterRollback_same permit popped _

theorem checkoutStep_effect {cfg : Config} {s t : State} {i : Nat} {old : Phase} {e : Step}
    (taken : checkoutStep cfg s i old e = some t) :
    ∃ new, t.tasks = s.tasks.set i new ∧ Effect s t old new := by
  unfold checkoutStep at taken
  split at taken
  · split at taken
    · rename_i free
      cases taken
      exact ⟨_, rfl, takes_effect i free rfl rfl (Nat.le_refl _)⟩
    · cases taken
  · cases taken
    exact ⟨_, rfl, put_kept s i rfl (Nat.le_refl _)⟩
  · cases taken
    exact ⟨_, rfl, put_kept s i rfl (Nat.le_refl _)⟩
  · split at taken
    · rename_i popped idle stack
      cases taken
      exact ⟨_, rfl, pops_kept i stack rfl (Nat.le_refl _)⟩
    · rename_i stack
      cases taken
      exact ⟨_, rfl, empty_kept i stack rfl⟩
  · cases taken
    exact ⟨_, rfl, .inl ⟨rfl, rfl, rfl, rfl, .inl (Nat.le_refl _)⟩⟩
  · cases taken
    exact ⟨_, rfl, put_kept s i rfl (Nat.zero_le _)⟩
  · cases taken
    exact ⟨_, rfl, put_kept s i rfl (Nat.zero_le _)⟩
  · cases taken
    exact ⟨_, rfl, put_kept s i rfl (Nat.zero_le _)⟩
  · cases taken
    exact ⟨_, rfl, put_kept s i rfl (Nat.le_refl _)⟩
  · cases taken
    exact ⟨_, rfl, lets_kept s i _ rfl (Nat.zero_le _)⟩
  · cases taken
    exact ⟨_, rfl, lets_kept s i _ rfl (Nat.zero_le _)⟩
  · rename_i permit popped tooOld closed
    have same := cleanup_same cfg permit popped
    split at taken
    · cases taken
      exact ⟨_, rfl, lets_kept s i _ rfl (Nat.zero_le _)⟩
    · cases taken
      exact ⟨_, rfl, put_kept s i same.1 (Nat.le_of_eq same.2)⟩
  · rename_i permit popped profile
    cases taken
    have same := afterRollback_same permit
      { popped.logs (.rolledBack true) with txOpen := false } profile
    exact ⟨_, rfl, put_kept s i same.1 (Nat.le_of_eq same.2)⟩
  · cases taken
    exact ⟨_, rfl, put_kept s i rfl (Nat.le_refl _)⟩
  · cases taken
    exact ⟨_, rfl, lets_kept s i _ rfl (Nat.zero_le _)⟩
  · cases taken
    exact ⟨_, rfl, lets_kept s i _ rfl (Nat.zero_le _)⟩
  · cases taken
    exact ⟨_, rfl, lets_kept s i _ rfl (Nat.zero_le _)⟩
  · cases taken
    exact ⟨_, rfl, lets_kept s i _ rfl (Nat.zero_le _)⟩
  · cases taken
    exact ⟨_, rfl, lets_kept s i _ rfl (Nat.zero_le _)⟩
  · cases taken
    exact ⟨_, rfl, lets_kept s i _ rfl (Nat.zero_le _)⟩
  · cases taken
    exact ⟨_, rfl, lets_kept s i _ rfl (Nat.zero_le _)⟩
  · cases taken
    exact ⟨_, rfl, put_kept s i rfl (Nat.le_refl _)⟩
  · cases taken
    exact ⟨_, rfl, lets_kept s i _ rfl (Nat.zero_le _)⟩
  · obtain ⟨co, -, rfl⟩ := Option.map_eq_some_iff.mp taken
    exact ⟨_, rfl, put_kept s i rfl (Nat.le_refl _)⟩
  · split at taken
    · cases taken
    split at taken
    · cases taken
      exact ⟨_, rfl, lets_kept s i _ rfl (Nat.zero_le _)⟩
    · cases taken
      exact ⟨_, rfl, pushes_kept s i _ rfl (Nat.le_refl _)⟩
  · cases taken
    exact ⟨_, rfl, gives_effect s i rfl rfl (Nat.le_refl _)⟩
  · cases taken

theorem reaperStep_effect {s t : State} {i : Nat} {old : Phase} {e : Step}
    (taken : reaperStep s i old e = some t) :
    ∃ new, t.tasks = s.tasks.set i new ∧ Effect s t old new := by
  unfold reaperStep at taken
  split at taken
  · cases taken
    exact ⟨_, rfl, put_kept s i rfl (Nat.le_refl _)⟩
  · cases taken
    exact ⟨_, rfl, put_kept s i rfl (Nat.le_refl _)⟩
  · split at taken
    · rename_i free
      cases taken
      exact ⟨_, rfl, takes_effect i free rfl rfl (Nat.le_refl _)⟩
    · cases taken
      exact ⟨_, rfl, put_kept s i rfl (Nat.le_refl _)⟩
  · split at taken
    · rename_i popped idle stack
      cases taken
      exact ⟨_, rfl, pops_kept i stack rfl (Nat.le_refl _)⟩
    · rename_i stack
      cases taken
      exact ⟨_, rfl, empty_kept i stack rfl⟩
  · rename_i tooOld closed
    cases taken
    cases tooOld || closed with
    | true => exact ⟨_, rfl, put_kept s i rfl (Nat.le_refl _)⟩
    | false => exact ⟨_, rfl, put_kept s i rfl (Nat.le_refl _)⟩
  · cases taken
    exact ⟨_, rfl, pushes_kept s i _ rfl (Nat.le_refl _)⟩
  · cases taken
    exact ⟨_, rfl, put_kept s i rfl (Nat.le_refl _)⟩
  · cases taken
    exact ⟨_, rfl, gives_effect s i rfl rfl (Nat.zero_le _)⟩
  · cases taken
    exact ⟨_, rfl, gives_effect s i rfl rfl (Nat.le_refl _)⟩
  · cases taken
    exact ⟨_, rfl, gives_effect s i rfl rfl (Nat.le_refl _)⟩
  · cases taken
    exact ⟨_, rfl, lets_kept s i _ rfl (Nat.le_refl _)⟩
  · cases taken

/-- A step changes the phase of one task. -/
theorem task_effect {cfg : Config} {s t : State} {i : Nat} {e : Step}
    (taken : step cfg s (.task i e) = some t) :
    ∃ old new, s.tasks[i]? = some old ∧ t.tasks = s.tasks.set i new ∧ Effect s t old new := by
  rw [step] at taken
  split at taken
  · rename_i old found
    split at taken
    · obtain ⟨new, tasks, effect⟩ := reaperStep_effect taken
      exact ⟨old, new, found, tasks, effect⟩
    · obtain ⟨new, tasks, effect⟩ := checkoutStep_effect taken
      exact ⟨old, new, found, tasks, effect⟩
  · cases taken

/-! ## The ledger -/

/-- Every permit is free or held, every permit ever given out is held or was returned, once, and
the connections fit. -/
structure Ledger (cfg : Config) (s : State) : Prop where
  balance : s.available + (held s).length = cfg.maxSize
  once : (held s ++ s.returned).Perm (List.range s.next)
  bound : connections s ≤ cfg.maxSize

/-- One task and the others, before and after. -/
theorem tasks_split {s t : State} {i : Nat} {old new : Phase} (found : s.tasks[i]? = some old)
    (tasks : t.tasks = s.tasks.set i new) :
    ∃ others : List Phase, s.tasks.Perm (old :: others) ∧ t.tasks.Perm (new :: others) := by
  have inside : i < s.tasks.length := (List.getElem?_eq_some_iff.mp found).1
  have here : s.tasks[i] = old := (List.getElem?_eq_some_iff.mp found).2
  refine ⟨s.tasks.eraseIdx i, ?_, ?_⟩
  · rw [← here]
    exact (List.getElem_cons_eraseIdx_perm inside).symm
  · rw [tasks]
    exact List.set_perm_cons_eraseIdx inside new

theorem held_perm {s : State} {phase : Phase} {others : List Phase}
    (perm : s.tasks.Perm (phase :: others)) :
    (held s).Perm ((permitOf phase).toList ++ others.filterMap permitOf) := by
  have mapped := perm.filterMap permitOf
  rw [List.filterMap_cons] at mapped
  cases permit : permitOf phase with
  | none =>
    rw [permit] at mapped
    exact mapped
  | some p =>
    rw [permit] at mapped
    exact mapped

theorem committed_split {s : State} {phase : Phase} {others : List Phase}
    (perm : s.tasks.Perm (phase :: others)) :
    s.tasks.countP committed = weight phase + others.countP committed := by
  rw [perm.countP_eq, List.countP_cons, weight, Nat.add_comm]
  cases committed phase with
  | true => rfl
  | false => rfl

theorem bound_of_empty {cfg : Config} {s : State} (balance : s.available + (held s).length = cfg.maxSize)
    (empty : s.idle = []) : connections s ≤ cfg.maxSize := by
  have few := committed_le_held s
  rw [connections, empty, List.length_nil]
  omega

theorem effect_ledger {cfg : Config} {s t : State} {i : Nat} {old new : Phase}
    (inv : Ledger cfg s) (found : s.tasks[i]? = some old) (tasks : t.tasks = s.tasks.set i new)
    (effect : Effect s t old new) : Ledger cfg t := by
  obtain ⟨balance, once, bound⟩ := inv
  obtain ⟨others, before, after⟩ := tasks_split found tasks
  have heldBefore := held_perm before
  have heldAfter := held_perm after
  have room : t.idle.length + weight new ≤ s.idle.length + weight old →
      connections t ≤ cfg.maxSize := by
    intro room
    rw [connections, committed_split before] at bound
    rw [connections, committed_split after]
    omega
  rcases effect with kept | took | ⟨permit, gave⟩
  · have same : (held t).Perm (held s) := by
      rw [kept.permit] at heldAfter
      exact heldAfter.trans heldBefore.symm
    have balance' : t.available + (held t).length = cfg.maxSize := by
      rw [kept.available, same.length_eq]
      exact balance
    refine ⟨balance', ?_, ?_⟩
    · rw [kept.returned, kept.next]
      exact (same.append_right s.returned).trans once
    · rcases kept.room with fits | empty
      · exact room fits
      · exact bound_of_empty balance' empty
  · rw [took.before, Option.toList_none, List.nil_append] at heldBefore
    rw [took.after, Option.toList_some] at heldAfter
    have grown : (held t).Perm (s.next :: held s) := heldAfter.trans (heldBefore.symm.cons s.next)
    refine ⟨?_, ?_, room took.room⟩
    · have free := took.free
      rw [took.available, grown.length_eq, List.length_cons]
      omega
    · rw [took.returned, took.next, List.range_succ]
      exact (grown.append_right s.returned).trans
        ((once.cons s.next).trans (List.perm_append_singleton _ _).symm)
  · rw [gave.before, Option.toList_some] at heldBefore
    rw [gave.after, Option.toList_none, List.nil_append] at heldAfter
    have shrunk : (held s).Perm (permit :: held t) := heldBefore.trans (heldAfter.symm.cons permit)
    refine ⟨?_, ?_, room gave.room⟩
    · have size := shrunk.length_eq
      rw [List.length_cons] at size
      rw [gave.available]
      omega
    · rw [gave.returned, gave.next]
      exact List.perm_middle.trans ((shrunk.append_right s.returned).symm.trans once)

theorem step_ledger {cfg : Config} {s t : State} {a : Label} (inv : Ledger cfg s)
    (taken : step cfg s a = some t) : Ledger cfg t := by
  cases a with
  | checksOut =>
    cases taken
    obtain ⟨balance, once, bound⟩ := inv
    have same : held { s with tasks := s.tasks ++ [.waiting] } = held s := by
      simp [held, permitOf]
    refine ⟨?_, ?_, ?_⟩
    · rw [same]
      exact balance
    · rw [same]
      exact once
    · simpa [connections, committed] using bound
  | task i e =>
    obtain ⟨old, new, found, tasks, effect⟩ := task_effect taken
    exact effect_ledger inv found tasks effect

theorem start_ledger (cfg : Config) (reaper : Bool) : Ledger cfg (.start cfg reaper) := by
  cases reaper with
  | true => exact ⟨rfl, .refl _, Nat.zero_le _⟩
  | false => exact ⟨rfl, .refl _, Nat.zero_le _⟩

/-! ## Handing out again -/

variable {cfg : Config}

/-- Whatever else the state is, a task in this phase can get to one with the property, and no other
task moves meanwhile. -/
def Leads (cfg : Config) (P : Phase → Prop) (phase : Phase) : Prop :=
  ∀ (s : State) (i : Nat), s.tasks[i]? = some phase →
    CanReach (step cfg) (fun u => ∃ new, P new ∧ u.tasks = s.tasks.set i new) s

theorem leads_here {P : Phase → Prop} {phase : Phase} (holds : P phase) : Leads cfg P phase := by
  intro s i found
  refine .here ⟨phase, holds, ?_⟩
  obtain ⟨inside, here⟩ := List.getElem?_eq_some_iff.mp found
  rw [← here, List.set_getElem_self]

theorem leads_next {P : Phase → Prop} {old : Phase}
    (moves : ∀ (s : State) (i : Nat), s.tasks[i]? = some old → ∃ e t new,
      step cfg s (.task i e) = some t ∧ t.tasks = s.tasks.set i new ∧ Leads cfg P new) :
    Leads cfg P old := by
  intro s i found
  obtain ⟨e, t, new, taken, tasks, rest⟩ := moves s i found
  have inside : i < s.tasks.length := (List.getElem?_eq_some_iff.mp found).1
  have found' : t.tasks[i]? = some new := by
    rw [tasks, List.getElem?_set_self inside]
  refine .next taken ((rest t i found').trans ?_)
  rintro u ⟨last, holds, tasks'⟩
  refine .here ⟨last, holds, ?_⟩
  rw [tasks', tasks, List.set_set]

/-- The next step of a checkout. -/
theorem leads_checkout {P : Phase → Prop} {old : Phase} (checkout : old.reaper = false)
    (moves : ∀ (s : State) (i : Nat), ∃ e t new,
      checkoutStep cfg s i old e = some t ∧ t.tasks = s.tasks.set i new ∧ Leads cfg P new) :
    Leads cfg P old := by
  apply leads_next
  intro s i found
  obtain ⟨e, t, new, taken, rest⟩ := moves s i
  refine ⟨e, t, new, ?_, rest⟩
  rw [step, found]
  dsimp only
  rw [checkout]
  exact taken

theorem leads_reaper {P : Phase → Prop} {old : Phase} (reaper : old.reaper = true)
    (moves : ∀ (s : State) (i : Nat), ∃ e t new,
      reaperStep s i old e = some t ∧ t.tasks = s.tasks.set i new ∧ Leads cfg P new) :
    Leads cfg P old := by
  apply leads_next
  intro s i found
  obtain ⟨e, t, new, taken, rest⟩ := moves s i
  refine ⟨e, t, new, ?_, rest⟩
  rw [step, found]
  dsimp only
  rw [reaper]
  exact taken

/-- A checkout that holds its permit goes through the idle stack or dials. -/
theorem leads_popping {P : Phase → Prop} (permit : Nat) (dials : Leads cfg P (.dialling permit))
    (cleans : ∀ popped, Leads cfg P (cleanup cfg permit popped)) :
    Leads cfg P (.popping permit) := by
  have inspects : ∀ popped, Leads cfg P (.inspecting permit popped) := by
    intro popped
    exact leads_checkout rfl fun s i => ⟨.inspects false false, _, _, rfl, rfl, cleans popped⟩
  apply leads_checkout rfl
  intro s i
  cases stack : s.idle with
  | nil => exact ⟨.pops, _, _, by rw [checkoutStep, stack], rfl, dials⟩
  | cons popped idle => exact ⟨.pops, _, _, by rw [checkoutStep, stack], rfl, inspects popped⟩

theorem leads_cleanup {P : Phase → Prop} (permit : Nat) (popped : IdleConn)
    (rollsBack : ∀ popped profile, Leads cfg P (.rollingBack permit popped profile))
    (resets : ∀ popped profile, Leads cfg P (.resetting permit popped profile))
    (arms : ∀ popped, Leads cfg P (.arming permit popped)) :
    Leads cfg P (cleanup cfg permit popped) := by
  rw [cleanup]
  split
  · exact rollsBack popped _
  · cases profileOf cfg popped with
    | none => exact arms popped
    | some profile => exact resets popped profile

/-! ### What is under way ends -/

/-- A guard, a task that is over, or the reaper between two passes. -/
def AtRest : Phase → Prop
  | .guarded _ _ | .finished | .sleeping => True
  | _ => False

theorem leaving_rests (permit : Nat) : Leads cfg AtRest (.leaving permit) :=
  leads_checkout rfl fun _ _ => ⟨.returnsPermit, _, _, rfl, rfl, leads_here trivial⟩

theorem popping_rests (permit : Nat) : Leads cfg AtRest (.popping permit) := by
  have leaving := (leaving_rests permit : Leads cfg AtRest _)
  apply leads_popping
  · exact leads_checkout rfl fun _ _ => ⟨.timesOut, _, _, rfl, rfl, leaving⟩
  · intro popped
    apply leads_cleanup
    · intro popped profile
      exact leads_checkout rfl fun _ _ => ⟨.cancelled, _, _, rfl, rfl, leaving⟩
    · intro popped profile
      exact leads_checkout rfl fun _ _ => ⟨.cancelled, _, _, rfl, rfl, leaving⟩
    · intro popped
      exact leads_checkout rfl fun _ _ => ⟨.cancelled, _, _, rfl, rfl, leaving⟩

theorem reapLeaving_rests (permit budget : Nat) (rest : Leads cfg AtRest (.reaping budget))
    (evicted : Option IdleConn) : Leads cfg AtRest (.reapLeaving permit evicted budget) := by
  cases evicted with
  | none => exact leads_reaper rfl fun _ _ => ⟨.returnsPermit, _, _, rfl, rfl, rest⟩
  | some conn =>
    have evicting : Leads cfg AtRest (.evicting conn budget) :=
      leads_reaper rfl fun _ _ => ⟨.evicts, _, _, rfl, rfl, rest⟩
    exact leads_reaper rfl fun _ _ => ⟨.returnsPermit, _, _, rfl, rfl, evicting⟩

theorem reapInspecting_rests (permit budget : Nat) (rest : Leads cfg AtRest (.reaping budget))
    (popped : IdleConn) : Leads cfg AtRest (.reapInspecting permit popped budget) :=
  leads_reaper rfl fun _ _ =>
    ⟨.inspects true false, _, _, rfl, rfl, reapLeaving_rests permit budget rest (some popped)⟩

theorem reapStopping_rests (permit : Nat) : Leads cfg AtRest (.reapStopping permit) :=
  leads_reaper rfl fun _ _ => ⟨.returnsPermit, _, _, rfl, rfl, leads_here trivial⟩

theorem reapPopping_rests (permit budget : Nat) (rest : Leads cfg AtRest (.reaping budget)) :
    Leads cfg AtRest (.reapPopping permit budget) := by
  apply leads_reaper rfl
  intro s i
  cases stack : s.idle with
  | nil => exact ⟨.pops, _, _, by rw [reaperStep, stack], rfl, reapStopping_rests permit⟩
  | cons popped idle =>
    exact ⟨.pops, _, _, by rw [reaperStep, stack], rfl,
      reapInspecting_rests permit budget rest popped⟩

/-- A pass takes as many turns as its budget. -/
theorem reaping_rests (budget : Nat) : Leads cfg AtRest (.reaping budget) := by
  induction budget with
  | zero => exact leads_reaper rfl fun _ _ => ⟨.tries, _, _, rfl, rfl, leads_here trivial⟩
  | succ budget ih =>
    apply leads_reaper rfl
    intro s i
    by_cases free : 0 < s.available
    · exact ⟨.tries, _, _, by rw [reaperStep, if_pos free], rfl,
        reapPopping_rests s.next budget ih⟩
    · exact ⟨.tries, s.put i .sleeping, .sleeping, by rw [reaperStep, if_neg free], rfl,
        leads_here trivial⟩

theorem phase_rests (phase : Phase) : Leads cfg AtRest phase := by
  have leaving : ∀ permit, Leads cfg AtRest (.leaving permit) := leaving_rests
  cases phase with
  | waiting => exact leads_checkout rfl fun _ _ => ⟨.timesOut, _, _, rfl, rfl, leads_here trivial⟩
  | popping permit => exact popping_rests permit
  | dialling permit =>
    exact leads_checkout rfl fun _ _ => ⟨.timesOut, _, _, rfl, rfl, leaving permit⟩
  | armingFresh permit conn =>
    exact leads_checkout rfl fun _ _ => ⟨.cancelled, _, _, rfl, rfl, leaving permit⟩
  | inspecting permit popped =>
    exact leads_checkout rfl fun _ _ =>
      ⟨.inspects true false, _, _, rfl, rfl, popping_rests permit⟩
  | rollingBack permit popped profile =>
    exact leads_checkout rfl fun _ _ => ⟨.cancelled, _, _, rfl, rfl, leaving permit⟩
  | resetting permit popped profile =>
    exact leads_checkout rfl fun _ _ => ⟨.cancelled, _, _, rfl, rfl, leaving permit⟩
  | arming permit popped =>
    exact leads_checkout rfl fun _ _ => ⟨.cancelled, _, _, rfl, rfl, leaving permit⟩
  | leaving permit => exact leaving permit
  | guarded permit co => exact leads_here trivial
  | finished => exact leads_here trivial
  | sleeping => exact leads_here trivial
  | reaping budget => exact reaping_rests budget
  | reapPopping permit budget => exact reapPopping_rests permit budget (reaping_rests budget)
  | reapInspecting permit popped budget =>
    exact reapInspecting_rests permit budget (reaping_rests budget) popped
  | pinging permit popped budget =>
    exact leads_reaper rfl fun _ _ => ⟨.pings false, _, _, rfl, rfl,
      reapLeaving_rests permit budget (reaping_rests budget) (some popped)⟩
  | reapLeaving permit evicted budget =>
    exact reapLeaving_rests permit budget (reaping_rests budget) evicted
  | reapStopping permit => exact reapStopping_rests permit
  | evicting evicted budget =>
    exact leads_reaper rfl fun _ _ => ⟨.evicts, _, _, rfl, rfl, reaping_rests budget⟩

def Quiet (s : State) : Prop :=
  ∀ phase ∈ s.tasks, AtRest phase

/-- One task after the other comes to rest. -/
theorem tasks_rest (s : State) (k : Nat) : CanReach (step cfg)
    (fun u => u.tasks.length = s.tasks.length ∧
      ∀ (j : Nat) (phase : Phase), j < k → u.tasks[j]? = some phase → AtRest phase) s := by
  induction k with
  | zero => exact .here ⟨rfl, fun j phase small => absurd small (Nat.not_lt_zero j)⟩
  | succ k ih =>
    refine ih.trans ?_
    rintro u ⟨size, before⟩
    cases found : u.tasks[k]? with
    | none =>
      refine .here ⟨size, ?_⟩
      intro j phase small here
      by_cases last : j = k
      · rw [last, found] at here
        cases here
      · exact before j phase (by omega) here
    | some phase =>
      refine (phase_rests phase u k found).trans ?_
      rintro v ⟨new, rests, tasks⟩
      refine .here ⟨?_, ?_⟩
      · rw [tasks, List.length_set, size]
      intro j phase' small here
      rw [tasks] at here
      by_cases last : j = k
      · rw [last, List.getElem?_set_self (List.getElem?_eq_some_iff.mp found).1] at here
        cases here
        exact rests
      · rw [List.getElem?_set_ne (fun same => last same.symm)] at here
        exact before j phase' (by omega) here

theorem quiet_reached (s : State) : CanReach (step cfg) Quiet s := by
  refine (tasks_rest s s.tasks.length).trans ?_
  rintro u ⟨size, rests⟩
  refine .here ?_
  intro phase member
  obtain ⟨j, found⟩ := List.mem_iff_getElem?.mp member
  exact rests j phase (size ▸ (List.getElem?_eq_some_iff.mp found).1) found

/-- Only the guards hold permits. -/
theorem quiet_guards {s : State} (quiet : Quiet s) : (held s).length = guards s := by
  rw [held, List.length_filterMap_eq_countP, guards]
  apply List.countP_congr
  intro phase member
  have rests := quiet phase member
  cases phase with
  | guarded | finished | sleeping => simp [permitOf, isGuard]
  | _ => exact absurd rests id

/-! ### The next guard -/

theorem dialling_hands (permit : Nat) : Leads cfg (fun new => isGuard new) (.dialling permit) := by
  have arming : ∀ conn, Leads cfg (fun new => isGuard new) (.armingFresh permit conn) := by
    intro conn
    exact leads_checkout rfl fun _ _ => ⟨.arms true, _, _, rfl, rfl, leads_here rfl⟩
  exact leads_checkout rfl fun s _ => ⟨.dials true, _, _, rfl, rfl, arming ⟨s.dialled, []⟩⟩

theorem cleanup_hands (permit : Nat) (popped : IdleConn) :
    Leads cfg (fun new => isGuard new) (cleanup cfg permit popped) := by
  have arming : ∀ popped, Leads cfg (fun new => isGuard new) (.arming permit popped) := by
    intro popped
    exact leads_checkout rfl fun _ _ => ⟨.arms true, _, _, rfl, rfl, leads_here rfl⟩
  have resetting : ∀ popped profile,
      Leads cfg (fun new => isGuard new) (.resetting permit popped profile) := by
    intro popped profile
    exact leads_checkout rfl fun _ _ => ⟨.resets true, _, _, rfl, rfl, arming _⟩
  apply leads_cleanup
  · intro popped profile
    refine leads_checkout rfl fun _ _ => ⟨.rollsBack true, _, _, rfl, rfl, ?_⟩
    cases profile with
    | none => exact arming _
    | some profile => exact resetting _ profile
  · exact resetting
  · exact arming

/-- A free permit is a guard for the next caller. -/
theorem next_guard {s : State} (quiet : Quiet s) (free : 0 < s.available) :
    CanReach (step cfg) (fun u => Quiet u ∧ guards u = guards s + 1) s := by
  have waits : step cfg s .checksOut = some { s with tasks := s.tasks ++ [.waiting] } := rfl
  have found : (s.tasks ++ [Phase.waiting])[s.tasks.length]? = some .waiting :=
    List.getElem?_concat_length
  have acquires : step cfg { s with tasks := s.tasks ++ [.waiting] }
      (.task s.tasks.length .acquires) =
      some ({ s with tasks := s.tasks ++ [Phase.waiting] }.takesPermit.put s.tasks.length
        (.popping s.next)) := by
    rw [step]
    dsimp only
    rw [found]
    dsimp only
    rw [if_neg (by decide), checkoutStep, if_pos free]
  have hands : Leads cfg (fun new => isGuard new) (.popping s.next) :=
    leads_popping s.next (dialling_hands s.next) fun popped => cleanup_hands s.next popped
  have tasks : (s.tasks ++ [Phase.waiting]).set s.tasks.length (.popping s.next) =
      s.tasks ++ [.popping s.next] := by
    simp
  refine .next waits (.next acquires ((hands _ s.tasks.length ?_).trans ?_))
  · dsimp only [State.put, State.takesPermit]
    rw [tasks]
    exact List.getElem?_concat_length
  rintro u ⟨new, isGuard, after⟩
  dsimp only [State.put, State.takesPermit] at after
  have last : u.tasks = s.tasks ++ [new] := by
    rw [after]
    simp
  refine .here ⟨?_, ?_⟩
  · intro phase member
    rw [last, List.mem_append, List.mem_singleton] at member
    rcases member with old | rfl
    · exact quiet phase old
    · cases phase with
      | guarded => trivial
      | _ => cases isGuard
  · rw [guards, last, List.countP_append, List.countP_singleton, if_pos isGuard, guards]

theorem all_guards (missing : Nat) {s : State} (inv : Ledger cfg s) (quiet : Quiet s)
    (short : guards s + missing = cfg.maxSize) :
    CanReach (step cfg) (fun u => guards u = cfg.maxSize) s := by
  induction missing generalizing s with
  | zero => exact .here short
  | succ missing ih =>
    have balance := inv.balance
    rw [quiet_guards quiet] at balance
    have next := (next_guard quiet (by omega)).keeps (fun inv taken => step_ledger inv taken) inv
    refine next.trans ?_
    rintro u ⟨⟨quiet', more⟩, inv'⟩
    exact ih inv' quiet' (by omega)

/-! ## Runs -/

/-- In every reachable state the connections are within `max_size`, every permit given out is held
by one task or was returned, once, and the pool can hand out `max_size` guards. -/
theorem poolCapacity_safe {cfg : Config} {reaper : Bool} {labels : List Label} {s : State}
    (reached : run (step cfg) (.start cfg reaper) labels = some s) :
    connections s ≤ cfg.maxSize ∧ s.available + (held s).length = cfg.maxSize ∧
      (held s ++ s.returned).Perm (List.range s.next) ∧
      CanReach (step cfg) (fun u => guards u = cfg.maxSize) s := by
  have ledger : Ledger cfg s :=
    run_always (step cfg) (fun inv taken => step_ledger inv taken) (start_ledger cfg reaper) reached
  refine ⟨ledger.bound, ledger.balance, ledger.once, ?_⟩
  have quiet := (quiet_reached s).keeps (fun inv taken => step_ledger inv taken) ledger
  refine quiet.trans ?_
  rintro u ⟨quiet', inv⟩
  have balance := inv.balance
  rw [quiet_guards quiet'] at balance
  exact all_guards u.available inv quiet' (by omega)

def pgPool : Config :=
  { maxSize := 2, supportsCopy := true, cleanResetProfile := some .targeted,
    classifies := fun sql => (PinClassifier.classify sql [] true).isSome }

/-- The reaper pings the connection that the first guard has left, and the second checkout
dials. -/
def overlap : List Label :=
  [.checksOut, .task 1 .acquires, .task 1 .pops, .task 1 (.dials true), .task 1 (.arms true),
    .checksOut, .task 2 .acquires, .task 2 .pops, .task 1 (.drops false), .task 1 .returnsPermit,
    .task 0 .ticks, .task 0 .tries, .task 0 .pops, .task 0 (.inspects false false)]

def overlapping : State :=
  { available := 0
    idle := []
    tasks := [.pinging 2 ⟨⟨0, [.handedOut]⟩, false, false⟩ 0, .finished, .dialling 1]
    next := 3
    returned := [0]
    dialled := 1
    dropped := [] }

theorem poolCapacity_safe_overlap :
    run (step pgPool) (.start pgPool true) overlap = some overlapping ∧
      connections overlapping = 2 ∧ (held overlapping ++ overlapping.returned).Perm [0, 1, 2] ∧
      CanReach (step pgPool) (fun u => guards u = 2) overlapping := by
  have reached : run (step pgPool) (.start pgPool true) overlap = some overlapping := by decide
  obtain ⟨-, -, once, hands⟩ := poolCapacity_safe reached
  exact ⟨reached, rfl, once, hands⟩

end FerroEngine.PoolCapacity
