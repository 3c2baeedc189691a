import FerroEngine.HttpPool

set_option autoImplicit false

/-! # The steps of an HTTP pool

What a step outside the decision may change, and what one of the decision may.
-/

namespace FerroEngine.HttpPoolSteps

open HttpPool

def NoneUsable (s : State) (policy : ReusePolicy) : Prop :=
  ∀ c ∈ s.idle, c.usable policy s.now = false

/-! ## Steps outside the decision -/

def Stirs (s t : State) : Prop :=
  s.generation < t.generation ∨ s.notifying < t.notifying

/-- A decision has just begun. -/
def Fresh (s : State) (d : Decision) : Prop :=
  d.stage = .pops ∧ d.now = s.now ∧ ∃ k ∈ s.takers, k.phase = .locking d.seen

/-- What a step that is not one of the decision may change. -/
structure Outside (s t : State) : Prop where
  caps : t.caps = s.caps
  lock : ∀ d, t.lock = some d → s.lock = some d ∨ Fresh s d
  live : t.live ≤ s.live
  dialing : t.dialing ≤ s.dialing
  now : s.now ≤ t.now
  generation : s.generation ≤ t.generation
  locking : ∀ k ∈ t.takers, ∀ seen, k.phase = .locking seen → k ∈ s.takers ∨ seen = s.generation
  waiting : ∀ k ∈ t.takers, ∀ seen, k.phase = .waiting seen → k ∈ s.takers
  stirs : Stirs s t ∨
    (t.generation = s.generation ∧ t.notifying = s.notifying ∧ t.live = s.live ∧
      t.dialing = s.dialing)
  idle : s.lock ≠ none ∨ ¬Stirs s t → ∀ policy, NoneUsable s policy → NoneUsable t policy

/-- The part of the state that takes and their decisions look at. -/
def view (s : State) : Caps × Nat × Nat × Nat × Nat × Option Decision × List HttpConn ×
    List Taker × Nat :=
  (s.caps, s.live, s.dialing, s.generation, s.notifying, s.lock, s.idle, s.takers, s.now)

theorem outside_of_view {s t : State} (same : view t = view s) : Outside s t := by
  injection same with caps same
  injection same with live same
  injection same with dialing same
  injection same with generation same
  injection same with notifying same
  injection same with lock same
  injection same with idle same
  injection same with takers now
  refine ⟨caps, ?_, by omega, by omega, by omega, by omega, ?_, ?_, ?_, ?_⟩
  · intro d locked
    exact .inl (lock ▸ locked)
  · intro k member seen _
    exact .inl (takers ▸ member)
  · intro k member seen _
    exact takers ▸ member
  · exact .inr ⟨generation, notifying, live, dialing⟩
  · intro _ policy none c member
    rw [now]
    exact none c (idle ▸ member)

theorem usable_before {c : HttpConn} {policy : ReusePolicy} {now later : Nat} (le : now ≤ later)
    (usable : c.usable policy later = true) : c.usable policy now = true := by
  simp only [HttpConn.usable, HttpConn.unusable, HttpConn.tooIdle, Bool.and_eq_true,
    Bool.not_eq_true', Bool.or_eq_false_iff, Bool.and_eq_false_iff, Bool.not_eq_false',
    decide_eq_false_iff_not] at usable ⊢
  obtain ⟨⟨⟨alive, young⟩, fresh⟩, recent⟩ := usable
  refine ⟨⟨⟨alive, by omega⟩, by omega⟩, ?_⟩
  rcases recent with idempotent | recent
  · exact .inl idempotent
  · right
    omega

theorem noneUsable_later {s t : State} (now : s.now ≤ t.now) (idle : ∀ c ∈ t.idle, c ∈ s.idle)
    {policy : ReusePolicy} (none : NoneUsable s policy) : NoneUsable t policy := by
  intro c member
  rw [Bool.eq_false_iff]
  intro usable
  exact Bool.eq_false_iff.mp (none c (idle c member)) (usable_before now usable)

/-- A connection that is closed is usable for no one. -/
theorem noneUsable_closing {s : State} {slot : Nat} {policy : ReusePolicy}
    (none : NoneUsable s policy) :
    ∀ c ∈ closing slot s.idle, c.usable policy s.now = false := by
  intro c member
  rw [closing, List.mem_map] at member
  obtain ⟨b, member, rfl⟩ := member
  split
  · rfl
  · exact none b member

theorem outside_put {s : State} {i : Nat} {policy : ReusePolicy} {phase : Phase}
    (locking : ∀ seen, phase = .locking seen → seen = s.generation)
    (waiting : ∀ seen, phase ≠ .waiting seen) : Outside s (s.put i policy phase) := by
  refine ⟨rfl, fun d locked => .inl locked, Nat.le_refl _, Nat.le_refl _, Nat.le_refl _,
    Nat.le_refl _, ?_, ?_, .inr ⟨rfl, rfl, rfl, rfl⟩, fun _ _ none => none⟩
  · intro k' member seen here
    rcases List.mem_or_eq_of_mem_set member with old | rfl
    · exact .inl old
    · exact .inr (locking seen here)
  · intro k' member seen here
    rcases List.mem_or_eq_of_mem_set member with old | rfl
    · exact old
    · exact absurd here (waiting seen)

theorem outside_putBack {s t : State} {k maxIdle : Nat}
    (taken : step s (.putBack k maxIdle) = some t) : Outside s t := by
  dsimp only [step] at taken
  split at taken
  · rename_i c found free
    split at taken
    · cases taken
      exact outside_of_view rfl
    · cases taken
      have stirs : Stirs s { s with
          returning := s.returning.eraseIdx k
          idle := c :: s.idle
          generation := s.generation + 1 } := .inl (Nat.lt_succ_self _)
      refine ⟨rfl, fun d locked => .inl locked, Nat.le_refl _, Nat.le_refl _, Nat.le_refl _,
        Nat.le_succ _, fun k member _ _ => .inl member, fun k member _ _ => member, .inl stirs, ?_⟩
      intro quiet
      rcases quiet with locked | quiet
      · exact absurd free locked
      · exact absurd stirs quiet
  · cases taken

theorem outside_subtracts {s t : State} {k : Nat} (taken : step s (.subtracts k) = some t) :
    Outside s t := by
  dsimp only [step] at taken
  rw [Option.map_eq_some_iff] at taken
  obtain ⟨g, -, rfl⟩ := taken
  cases g with
  | conn slot =>
    exact ⟨rfl, fun d locked => .inl locked, Nat.sub_le .., Nat.le_refl _, Nat.le_refl _,
      Nat.le_refl _, fun k member _ _ => .inl member, fun k member _ _ => member,
      .inl (.inr (Nat.lt_succ_self _)), fun _ _ none => none⟩
  | dialing slot =>
    exact ⟨rfl, fun d locked => .inl locked, Nat.le_refl _, Nat.sub_le .., Nat.le_refl _,
      Nat.le_refl _, fun k member _ _ => .inl member, fun k member _ _ => member,
      .inl (.inr (Nat.lt_succ_self _)), fun _ _ none => none⟩

theorem outside_locks {s t : State} {i : Nat} (taken : step s (.locks i) = some t) :
    Outside s t := by
  dsimp only [step] at taken
  rw [Option.bind_eq_some_iff] at taken
  obtain ⟨k, found, taken⟩ := taken
  split at taken
  · rename_i seen phase free
    cases taken
    have put : Outside s (s.put i k.policy .deciding) :=
      outside_put (fun _ here => nomatch here) (fun _ here => nomatch here)
    refine ⟨rfl, ?_, Nat.le_refl _, Nat.le_refl _, Nat.le_refl _, Nat.le_refl _, put.locking,
      put.waiting, .inr ⟨rfl, rfl, rfl, rfl⟩, fun _ _ none => none⟩
    intro d locked
    cases locked
    exact .inr ⟨rfl, rfl, k, List.mem_of_getElem? found, phase⟩
  · cases taken

theorem step_outside {s t : State} {a : Label} (taken : step s a = some t)
    (outside : a ≠ .decides) : Outside s t := by
  cases a with
  | calls policy =>
    cases taken
    refine ⟨rfl, fun d locked => .inl locked, Nat.le_refl _, Nat.le_refl _, Nat.le_refl _,
      Nat.le_refl _, ?_, ?_, .inr ⟨rfl, rfl, rfl, rfl⟩, fun _ _ none => none⟩
    · intro k member seen here
      rcases List.mem_append.mp member with old | new
      · exact .inl old
      · rw [List.mem_singleton.mp new] at here
        cases here
    · intro k member seen here
      rcases List.mem_append.mp member with old | new
      · exact old
      · rw [List.mem_singleton.mp new] at here
        cases here
  | registers i =>
    dsimp only [step] at taken
    rw [Option.bind_eq_some_iff] at taken
    obtain ⟨k, -, taken⟩ := taken
    split at taken
    · cases taken
      refine outside_put ?_ (fun _ here => nomatch here)
      intro seen here
      cases here
      rfl
    · cases taken
  | locks i => exact outside_locks taken
  | decides => exact absurd rfl outside
  | wakes i =>
    dsimp only [step] at taken
    rw [Option.bind_eq_some_iff] at taken
    obtain ⟨k, -, taken⟩ := taken
    split at taken
    · split at taken
      · cases taken
        exact outside_put (fun _ here => nomatch here) (fun _ here => nomatch here)
      · cases taken
    · cases taken
  | cancels i =>
    dsimp only [step] at taken
    rw [Option.bind_eq_some_iff] at taken
    obtain ⟨k, -, taken⟩ := taken
    split at taken
    · cases taken
      exact outside_put (fun _ here => nomatch here) (fun _ here => nomatch here)
    · cases taken
  | connects k idleLimit =>
    obtain ⟨slot, -, rfl⟩ := Option.map_eq_some_iff.mp taken
    exact outside_of_view rfl
  | fails k =>
    obtain ⟨slot, -, rfl⟩ := Option.map_eq_some_iff.mp taken
    exact outside_of_view rfl
  | clamps k idleLimit =>
    obtain ⟨c, -, rfl⟩ := Option.map_eq_some_iff.mp taken
    exact outside_of_view rfl
  | checkin k =>
    obtain ⟨c, -, rfl⟩ := Option.map_eq_some_iff.mp taken
    exact outside_of_view rfl
  | returnUnused k =>
    obtain ⟨c, -, rfl⟩ := Option.map_eq_some_iff.mp taken
    exact outside_of_view rfl
  | putBack k maxIdle => exact outside_putBack taken
  | discards k =>
    obtain ⟨c, -, rfl⟩ := Option.map_eq_some_iff.mp taken
    exact outside_of_view rfl
  | closes slot =>
    cases taken
    exact ⟨rfl, fun d locked => .inl locked, Nat.le_refl _, Nat.le_refl _, Nat.le_refl _,
      Nat.le_refl _, fun k member _ _ => .inl member, fun k member _ _ => member,
      .inr ⟨rfl, rfl, rfl, rfl⟩, fun _ _ none => noneUsable_closing none⟩
  | ticks =>
    cases taken
    refine ⟨rfl, fun d locked => .inl locked, Nat.le_refl _, Nat.le_refl _, Nat.le_succ _,
      Nat.le_refl _, fun k member _ _ => .inl member, fun k member _ _ => member,
      .inr ⟨rfl, rfl, rfl, rfl⟩, ?_⟩
    intro _ policy none
    have later : s.now ≤ ({ s with now := s.now + 1 } : State).now := Nat.le_succ s.now
    exact noneUsable_later later (fun _ member => member) none
  | subtracts k => exact outside_subtracts taken
  | notifies =>
    dsimp only [step] at taken
    split at taken
    · cases taken
      exact ⟨rfl, fun d locked => .inl locked, Nat.le_refl _, Nat.le_refl _, Nat.le_refl _,
        Nat.le_succ _, fun k member _ _ => .inl member, fun k member _ _ => member,
        .inl (.inl (Nat.lt_succ_self _)), fun _ _ none => none⟩
    · cases taken

/-! ## The idle stack outside the decision -/

/-- A connection that a return pushes on the stack. -/
structure Pushed (s t : State) (a : Label) (k maxIdle : Nat) (c : HttpConn) : Prop where
  label : a = .putBack k maxIdle
  free : s.lock = none
  found : s.returning[k]? = some c
  room : s.idle.length < maxIdle
  idle : t.idle = c :: s.idle

/-- Since when each connection of the stack has been idle. -/
def ages (s : State) : List Nat :=
  s.idle.map HttpConn.idleSince

theorem ages_closing (slot : Nat) (conns : List HttpConn) :
    (closing slot conns).map HttpConn.idleSince = conns.map HttpConn.idleSince := by
  rw [closing, List.map_map]
  apply List.map_congr_left
  intro c _
  rw [Function.comp]
  split <;> rfl

theorem ages_taker {s t : State} {i : Nat} {next : Taker → Option State}
    (taken : s.takers[i]?.bind next = some t) (keeps : ∀ k t, next k = some t → t.idle = s.idle) :
    ages t = ages s := by
  rw [Option.bind_eq_some_iff] at taken
  obtain ⟨k, -, taken⟩ := taken
  rw [ages, keeps k t taken]
  rfl

theorem putBack_shelves {s t : State} {k maxIdle : Nat}
    (taken : step s (.putBack k maxIdle) = some t) :
    ages t = ages s ∨ ∃ c, Pushed s t (.putBack k maxIdle) k maxIdle c := by
  dsimp only [step] at taken
  split at taken
  · rename_i c found free
    split at taken
    · cases taken
      exact .inl rfl
    · rename_i room
      cases taken
      exact .inr ⟨c, rfl, free, found, Nat.lt_of_not_le room, rfl⟩
  · cases taken

/-- Outside the decision only a return changes who is on the stack. -/
theorem step_shelves {s t : State} {a : Label} (taken : step s a = some t)
    (outside : a ≠ .decides) :
    ages t = ages s ∨ ∃ k maxIdle c, Pushed s t a k maxIdle c := by
  cases a with
  | decides => exact absurd rfl outside
  | putBack k maxIdle =>
    rcases putBack_shelves taken with same | ⟨c, pushed⟩
    · exact .inl same
    · exact .inr ⟨k, maxIdle, c, pushed⟩
  | calls policy =>
    cases taken
    exact .inl rfl
  | registers i =>
    refine .inl (ages_taker taken ?_)
    intro k t taken
    split at taken
    · cases taken
      rfl
    · cases taken
  | locks i =>
    refine .inl (ages_taker taken ?_)
    intro k t taken
    split at taken
    · cases taken
      rfl
    · cases taken
  | wakes i =>
    refine .inl (ages_taker taken ?_)
    intro k t taken
    split at taken
    · split at taken
      · cases taken
        rfl
      · cases taken
    · cases taken
  | cancels i =>
    refine .inl (ages_taker taken ?_)
    intro k t taken
    split at taken
    · cases taken
      rfl
    · cases taken
  | connects k idleLimit =>
    obtain ⟨slot, -, rfl⟩ := Option.map_eq_some_iff.mp taken
    exact .inl rfl
  | fails k =>
    obtain ⟨slot, -, rfl⟩ := Option.map_eq_some_iff.mp taken
    exact .inl rfl
  | clamps k idleLimit =>
    obtain ⟨c, -, rfl⟩ := Option.map_eq_some_iff.mp taken
    exact .inl rfl
  | checkin k =>
    obtain ⟨c, -, rfl⟩ := Option.map_eq_some_iff.mp taken
    exact .inl rfl
  | returnUnused k =>
    obtain ⟨c, -, rfl⟩ := Option.map_eq_some_iff.mp taken
    exact .inl rfl
  | discards k =>
    obtain ⟨c, -, rfl⟩ := Option.map_eq_some_iff.mp taken
    exact .inl rfl
  | closes slot =>
    cases taken
    exact .inl (ages_closing slot s.idle)
  | ticks =>
    cases taken
    exact .inl rfl
  | subtracts k =>
    obtain ⟨g, -, rfl⟩ := Option.map_eq_some_iff.mp taken
    cases g with
    | conn slot => exact .inl rfl
    | dialing slot => exact .inl rfl
  | notifies =>
    dsimp only [step] at taken
    split at taken
    · cases taken
      exact .inl rfl
    · cases taken

/-! ## The decision -/

/-- The stage that the decision goes on with under the lock. -/
inductive Follows (s : State) (d : Decision) : Stage → Prop where
  | pops (here : d.stage = .pops) : Follows s d .pops
  | bare (here : d.stage = .pops) (empty : s.idle = []) : Follows s d .readsLive
  | stops (here : d.stage = .pops) {c : HttpConn} {below : List HttpConn}
      (stack : s.idle = c :: below) (sound : c.unusable d.policy d.now = false)
      (idle : c.tooIdle d.policy d.now = true) : Follows s d .readsLive
  | fits (here : d.stage = .readsLive) (below : s.live < s.caps.maxConnections) :
      Follows s d .readsDialing
  | full (here : d.stage = .readsLive) (reached : s.caps.maxConnections ≤ s.live) :
      Follows s d .rereadsLive
  | dials (here : d.stage = .readsDialing) (below : s.dialing < s.caps.maxDials) :
      Follows s d .addsLive
  | busy (here : d.stage = .readsDialing) (reached : s.caps.maxDials ≤ s.dialing) :
      Follows s d .rereadsLive
  | counts (here : d.stage = .addsLive) : Follows s d .addsDialing

/-- The phases in which a decision leaves its taker. -/
inductive Leaves (d : Decision) : Phase → Prop where
  | again : Leaves d .arriving
  | got : Leaves d .gone
  | wait (here : d.stage = .rereadsLive) : Leaves d (.waiting d.seen)

/-- What a decision may change. -/
structure Decided (s t : State) (d : Decision) : Prop where
  caps : t.caps = s.caps
  generation : t.generation = s.generation
  notifying : t.notifying = s.notifying
  now : t.now = s.now
  live : t.live = s.live ∨ (d.stage = .addsLive ∧ t.live = s.live + 1)
  dialing : t.dialing = s.dialing ∨ (d.stage = .addsDialing ∧ t.dialing = s.dialing + 1)
  idle : t.idle.Sublist s.idle
  takers : ∀ k ∈ t.takers, k ∈ s.takers ∨ (k.policy = d.policy ∧ Leaves d k.phase)
  lock : ∀ d', t.lock = some d' → d'.policy = d.policy ∧ d'.seen = d.seen ∧ d'.now = d.now ∧
    Follows s d d'.stage

theorem decided_goes {s : State} {d : Decision} {stage : Stage} (follows : Follows s d stage) :
    Decided s (s.goes d stage) d := by
  refine ⟨rfl, rfl, rfl, rfl, .inl rfl, .inl rfl, .refl _, fun _ member => .inl member, ?_⟩
  intro d' locked
  cases locked
  exact ⟨rfl, rfl, rfl, follows⟩

theorem leaves_takers {takers : List Taker} {d : Decision} {phase : Phase}
    (leaves : Leaves d phase) :
    ∀ k ∈ takers.set d.taker ⟨d.policy, phase⟩,
      k ∈ takers ∨ (k.policy = d.policy ∧ Leaves d k.phase) := by
  intro k member
  rcases List.mem_or_eq_of_mem_set member with old | rfl
  · exact .inl old
  · exact .inr ⟨rfl, leaves⟩

theorem decided_leaves {s : State} {d : Decision} {phase : Phase} (leaves : Leaves d phase) :
    Decided s (s.leaves d phase) d :=
  ⟨rfl, rfl, rfl, rfl, .inl rfl, .inl rfl, .refl _, leaves_takers leaves, fun _ locked => nomatch locked⟩

theorem decided_looked {s : State} {d : Decision} (follows : Follows s d .readsLive) :
    Decided s (s.looked d) d := by
  rw [State.looked]
  split
  · exact decided_goes follows
  · exact decided_leaves .again

theorem decided_popStep {s : State} {d : Decision} (pops : d.stage = .pops) :
    Decided s (popStep s d) d := by
  rw [popStep]
  split
  · rename_i empty
    exact decided_looked (.bare pops empty)
  · rename_i c below stack
    have below_idle : below.Sublist s.idle := by
      rw [stack]
      exact List.sublist_cons_self c below
    split
    · refine ⟨rfl, rfl, rfl, rfl, .inl rfl, .inl rfl, below_idle, fun _ member => .inl member, ?_⟩
      intro d' locked
      cases locked
      rw [pops]
      exact ⟨rfl, rfl, rfl, .pops pops⟩
    · rename_i sound
      split
      · rename_i idle
        exact decided_looked (.stops pops stack (Bool.eq_false_iff.mpr sound) idle)
      · exact ⟨rfl, rfl, rfl, rfl, .inl rfl, .inl rfl, below_idle, leaves_takers .got,
          fun _ locked => nomatch locked⟩

theorem decideStep_decided (s : State) (d : Decision) : Decided s (decideStep s d) d := by
  rw [decideStep]
  split
  · rename_i stage
    exact decided_popStep stage
  · rename_i stage
    apply decided_goes
    split
    · rename_i below
      exact .fits stage below
    · rename_i reached
      exact .full stage (Nat.le_of_not_lt reached)
  · rename_i stage
    apply decided_goes
    split
    · rename_i below
      exact .dials stage below
    · rename_i reached
      exact .busy stage (Nat.le_of_not_lt reached)
  · rename_i stage
    refine ⟨rfl, rfl, rfl, rfl, .inr ⟨stage, rfl⟩, .inl rfl, .refl _,
      fun _ member => .inl member, ?_⟩
    intro d' locked
    cases locked
    exact ⟨rfl, rfl, rfl, .counts stage⟩
  · rename_i stage
    exact ⟨rfl, rfl, rfl, rfl, .inl rfl, .inr ⟨stage, rfl⟩, .refl _, leaves_takers .got,
      fun _ locked => nomatch locked⟩
  · rename_i stage
    split
    · split
      · exact ⟨rfl, rfl, rfl, rfl, .inl rfl, .inl rfl, List.dropLast_sublist _,
          leaves_takers (d := d) .again, fun _ locked => nomatch locked⟩
      · exact decided_leaves (.wait stage)
    · exact decided_leaves (.wait stage)

end FerroEngine.HttpPoolSteps
