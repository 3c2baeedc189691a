import FerroEngine.HttpPoolWaiters

set_option autoImplicit false

/-! # The order of the idle stack

A take looks at the ends of the stack only. What it concludes from them about the rest is right in
exactly the runs that put every connection back on top of ones that have been idle for longer.
-/

namespace FerroEngine.HttpPoolOrder

open LabelledRuns HttpPool HttpPoolSteps HttpPoolWaiters

/-! ## What a take may conclude -/

/-- Every idle connection is too idle for the request of the decision. -/
def NoneFresh (s : State) (d : Decision) : Prop :=
  ∀ c ∈ s.idle, c.tooIdle d.policy d.now = true

/-- The decision ends with its take waiting. -/
def Waits (d : Decision) (t : State) : Prop :=
  t.lock = none ∧ t.takers[d.taker]? = some ⟨d.policy, .waiting d.seen⟩

/-- The decision reserves a slot to dial. -/
def Dials (s t : State) : Prop :=
  s.live < t.live ∨ s.dialing < t.dialing

/-- The decision closes a connection, found at the bottom of the stack, to make room. -/
def MakesRoom (s : State) (d : Decision) (t : State) (c : HttpConn) : Prop :=
  d.stage ≠ .pops ∧ s.idle = t.idle ++ [c]

structure Reuses (s : State) : Prop where
  order : Stacked s
  fresh : ∀ d t, s.lock = some d → step s .decides = some t →
    (Waits d t ∨ Dials s t ∨ ∃ c, MakesRoom s d t c) → NoneFresh s d
  idlest : ∀ d t c, s.lock = some d → step s .decides = some t → MakesRoom s d t c →
    ∀ b ∈ s.idle, c.idleSince ≤ b.idleSince

/-- What a return pushes has been idle for no longer than the top of the stack. -/
def OnTop (s : State) : Label → Prop
  | .putBack k maxIdle => ∀ c top, s.lock = none → s.returning[k]? = some c →
    s.idle.length < maxIdle → s.idle.head? = some top → top.idleSince ≤ c.idleSince
  | _ => True

/-- The loop of `pop` ends with no idle connection that the request may use. -/
structure Searched (s : State) : Prop where
  order : Stacked s
  ended : ∀ d, s.lock = some d → d.stage ≠ .pops → NoneFresh s d

/-! ## The steps -/

theorem stacked_push {s t : State} {a : Label} {k maxIdle : Nat} {c : HttpConn}
    (stacked : Stacked s) (onTop : OnTop s a) (pushed : Pushed s t a k maxIdle c) :
    Stacked t := by
  have label := pushed.label
  subst label
  rw [Stacked, pushed.idle, List.pairwise_cons]
  refine ⟨?_, stacked⟩
  intro b member
  cases stack : s.idle with
  | nil =>
    rw [stack] at member
    cases member
  | cons top below =>
    have first : top.idleSince ≤ c.idleSince :=
      onTop c top pushed.free pushed.found pushed.room (by rw [stack]; rfl)
    rw [Stacked, stack, List.pairwise_cons] at stacked
    rw [stack] at member
    rcases List.mem_cons.mp member with rfl | member
    · exact first
    · exact Nat.le_trans (stacked.1 b member) first

theorem tooIdle_of_older {b c : HttpConn} {policy : ReusePolicy} {now : Nat}
    (older : b.idleSince ≤ c.idleSince) (idle : c.tooIdle policy now = true) :
    b.tooIdle policy now = true := by
  rw [HttpConn.tooIdle, Bool.and_eq_true, decide_eq_true_eq] at idle ⊢
  exact ⟨idle.1, by omega⟩

theorem noneFresh_of_ages {s t : State} {d : Decision} (same : ages t = ages s)
    (none : NoneFresh s d) : NoneFresh t d := by
  intro c member
  have age : c.idleSince ∈ ages s := by
    rw [← same]
    exact List.mem_map_of_mem member
  rw [ages, List.mem_map] at age
  obtain ⟨b, member', age⟩ := age
  exact tooIdle_of_older (Nat.le_of_eq age.symm) (none b member')

theorem noneFresh_of_stops {s : State} {d : Decision} {c : HttpConn} {below : List HttpConn}
    (stacked : Stacked s) (stack : s.idle = c :: below)
    (idle : c.tooIdle d.policy d.now = true) : NoneFresh s d := by
  intro b member
  rw [Stacked, stack, List.pairwise_cons] at stacked
  rw [stack] at member
  rcases List.mem_cons.mp member with rfl | member
  · exact idle
  · exact tooIdle_of_older (stacked.1 b member) idle

theorem searched_decides {s : State} {d : Decision} (searched : Searched s)
    (locked : s.lock = some d) : Searched (decideStep s d) := by
  have decided := decideStep_decided s d
  refine ⟨List.Pairwise.sublist decided.idle searched.order, ?_⟩
  intro d' locked' ended c member
  obtain ⟨policy, -, now, follows⟩ := decided.lock d' locked'
  have before : c ∈ s.idle := decided.idle.subset member
  rw [policy, now]
  have late : d.stage ≠ .pops → c.tooIdle d.policy d.now = true :=
    fun stage => searched.ended d locked stage c before
  generalize d'.stage = after at follows ended
  cases follows with
  | pops here => exact absurd rfl ended
  | bare here empty =>
    rw [empty] at before
    cases before
  | stops here stack sound idle => exact noneFresh_of_stops searched.order stack idle c before
  | fits here below => exact late (by rw [here]; nofun)
  | full here reached => exact late (by rw [here]; nofun)
  | dials here below => exact late (by rw [here]; nofun)
  | busy here reached => exact late (by rw [here]; nofun)
  | counts here => exact late (by rw [here]; nofun)

theorem step_searched {s t : State} {a : Label} (searched : Searched s) (onTop : OnTop s a)
    (taken : step s a = some t) : Searched t := by
  by_cases decides : a = .decides
  · subst decides
    obtain ⟨d, locked, rfl⟩ := Option.map_eq_some_iff.mp taken
    exact searched_decides searched locked
  · have outside := step_outside taken decides
    rcases step_shelves taken decides with same | ⟨k, maxIdle, c, pushed⟩
    · refine ⟨stacked_of_ages same searched.order, ?_⟩
      intro d locked ended
      rcases outside.lock d locked with old | ⟨pops, -, -⟩
      · exact noneFresh_of_ages same (searched.ended d old ended)
      · exact absurd pops ended
    · refine ⟨stacked_push searched.order onTop pushed, ?_⟩
      intro d locked ended
      -- The lock is free while a connection is pushed.
      rcases outside.lock d locked with old | ⟨pops, -, -⟩
      · rw [pushed.free] at old
        cases old
      · exact absurd pops ended

/-! ## The ends of a decision -/

/-- A decision leaves its taker in the phase it ends with. -/
theorem phase_of_leaves {takers : List Taker} {d : Decision} {phase : Phase} {k : Taker}
    (found : (takers.set d.taker ⟨d.policy, phase⟩)[d.taker]? = some k) : k.phase = phase := by
  rw [List.getElem?_set_self'] at found
  obtain ⟨old, -, rfl⟩ := Option.map_eq_some_iff.mp found
  rfl

theorem looked_not_waits (s : State) (d : Decision) : ¬Waits d (s.looked d) := by
  rintro ⟨free, waiting⟩
  rw [State.looked] at free waiting
  split at free
  · cases free
  · rename_i closed
    rw [if_neg closed] at waiting
    cases phase_of_leaves waiting

theorem popStep_not_waits (s : State) (d : Decision) : ¬Waits d (popStep s d) := by
  rw [popStep]
  split
  · exact looked_not_waits s d
  · split
    · rintro ⟨free, -⟩
      cases free
    · split
      · exact looked_not_waits s d
      · rintro ⟨-, waiting⟩
        cases phase_of_leaves waiting

theorem not_pops_of_waits {s : State} {d : Decision} (waits : Waits d (decideStep s d)) :
    d.stage ≠ .pops := by
  intro pops
  rw [decideStep, pops] at waits
  exact popStep_not_waits s d waits

theorem not_pops_of_dials {s : State} {d : Decision} (dials : Dials s (decideStep s d)) :
    d.stage ≠ .pops := by
  have decided := decideStep_decided s d
  intro pops
  rcases dials with more | more
  · rcases decided.live with same | ⟨stage, -⟩
    · omega
    · rw [pops] at stage
      cases stage
  · rcases decided.dialing with same | ⟨stage, -⟩
    · omega
    · rw [pops] at stage
      cases stage

theorem reuses_of_searched {s : State} (searched : Searched s) : Reuses s := by
  refine ⟨searched.order, ?_, ?_⟩
  · intro d t locked taken outcome
    obtain ⟨d', locked', rfl⟩ := Option.map_eq_some_iff.mp taken
    have same : d = d' := Option.some.inj (locked.symm.trans locked')
    subst same
    apply searched.ended d locked
    rcases outcome with waits | dials | ⟨c, late, -⟩
    · exact not_pops_of_waits waits
    · exact not_pops_of_dials dials
    · exact late
  · intro d t c _ _ room b member
    have order := searched.order
    rw [Stacked, room.2, List.pairwise_append] at order
    rw [room.2] at member
    rcases List.mem_append.mp member with above | last
    · exact order.2.2 b above c (List.mem_singleton.mpr rfl)
    · exact Nat.le_of_eq (congrArg _ (List.mem_singleton.mp last).symm)

/-! ## Every run -/

/-- A return that does not put its connection on top of idler ones spoils the order. -/
theorem onTop_of_stacked {s : State} {a : Label}
    (next : ∀ t, step s a = some t → Stacked t) : OnTop s a := by
  cases a with
  | putBack k maxIdle =>
    intro c top free found room first
    have taken : step s (.putBack k maxIdle) = some { s with
        returning := s.returning.eraseIdx k
        idle := c :: s.idle
        generation := s.generation + 1 } := by
      dsimp only [step]
      rw [found, free]
      dsimp only
      rw [if_neg (Nat.not_le_of_lt room)]
    have stacked := next _ taken
    rw [Stacked, List.pairwise_cons] at stacked
    exact stacked.1 top (List.mem_of_mem_head? first)
  | _ => trivial

theorem onTop_of_prefixes {s : State} {labels : List Label}
    (ordered : ∀ before t, before <+: labels → run step s before = some t → Stacked t) :
    Meets step OnTop s labels := by
  induction labels generalizing s with
  | nil => trivial
  | cons a labels ih =>
    constructor
    · apply onTop_of_stacked
      intro t taken
      refine ordered [a] t (List.prefix_append [a] labels) ?_
      rw [run_cons, taken]
      rfl
    · intro t taken
      apply ih
      intro before u shorter reached
      refine ordered (a :: before) u ((List.prefix_cons_inj a).mpr shorter) ?_
      rw [run_cons, taken]
      exact reached

theorem meets_of_shorter {s : State} {before labels : List Label} (shorter : before <+: labels)
    (meets : Meets step OnTop s labels) : Meets step OnTop s before := by
  induction before generalizing s labels with
  | nil => trivial
  | cons a before ih =>
    obtain ⟨after, rfl⟩ := shorter
    refine ⟨meets.1, ?_⟩
    intro t taken
    exact ih (List.prefix_append before after) (meets.2 t taken)

theorem searched_start (caps : Caps) : Searched (State.start caps) :=
  ⟨.nil, fun _ locked => (nomatch locked)⟩

theorem reuses_iff_onTop (caps : Caps) (labels : List Label) :
    (∀ before s, before <+: labels → run step (State.start caps) before = some s → Reuses s) ↔
      Meets step OnTop (State.start caps) labels := by
  constructor
  · intro reuses
    apply onTop_of_prefixes
    intro before s shorter reached
    exact (reuses before s shorter reached).order
  · intro onTop before s shorter reached
    apply reuses_of_searched
    exact run_invariant step step_searched (searched_start caps) (meets_of_shorter shorter onTop)
      reached

/-! ## A connection returned unused -/

/-- The decision of the last take of the run. -/
def lastTake : Decision :=
  { taker := 4, policy := unsafeRequest, seen := 5, now := 5, closed := [], stage := .rereadsLive }

/-- It finds a connection idle for five on top of one that has just been used. -/
def mixed : State :=
  { caps := ⟨4, 1⟩, live := 3, dialing := 1, generation := 5, notifying := 0,
    lock := some lastTake,
    idle := [⟨0, 0, 0, 60, false⟩, ⟨1, 0, 5, 60, false⟩],
    takers := [⟨anyRequest, .gone⟩, ⟨anyRequest, .gone⟩, ⟨anyRequest, .gone⟩, ⟨anyRequest, .gone⟩,
      ⟨unsafeRequest, .deciding⟩],
    dials := [2], used := [], returning := [], dropping := [],
    released := [.dialing 1, .dialing 0], next := 3, now := 5 }

theorem returnedOnTop_mixes :
    run step (State.start ⟨4, 1⟩) returnedOnTop.dropLast = some mixed ∧ ¬Stacked mixed ∧
      Waits lastTake (decideStep mixed lastTake) ∧
      (∃ c ∈ mixed.idle, c.usable unsafeRequest mixed.now = true) ∧ ¬Reuses mixed := by
  have unordered : ¬Stacked mixed := by
    intro stacked
    have first := List.rel_of_pairwise_cons stacked (List.mem_singleton.mpr rfl)
    exact absurd first (by decide)
  refine ⟨rfl, unordered, ⟨rfl, rfl⟩, ⟨⟨1, 0, 5, 60, false⟩, by decide, rfl⟩, ?_⟩
  intro reuses
  exact unordered reuses.order

end FerroEngine.HttpPoolOrder
