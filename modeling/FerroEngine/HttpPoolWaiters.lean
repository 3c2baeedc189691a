import Mathlib.Data.List.Nodup
import FerroEngine.HttpPoolSlots
import FerroEngine.HttpPoolSteps

set_option autoImplicit false

/-! # The waiting takes of an HTTP pool

The limits hold in every run. A waiting take that no wake-up is on its way to has neither room to
dial nor an idle connection to use, in every run that skips no usable connection.
-/

namespace FerroEngine.HttpPoolWaiters

open LabelledRuns HttpPool HttpPoolSlots HttpPoolSteps

/-! ## The limits -/

/-- What the decision has read under the lock still holds. -/
structure Admits (s : State) (d : Decision) : Prop where
  live : d.stage = .readsDialing ∨ d.stage = .addsLive → s.live < s.caps.maxConnections
  dialing : d.stage = .addsLive ∨ d.stage = .addsDialing → s.dialing < s.caps.maxDials

structure Capped (caps : Caps) (s : State) : Prop where
  caps : s.caps = caps
  counted : Counted s
  live : s.live ≤ s.caps.maxConnections
  dialing : s.dialing ≤ s.caps.maxDials
  admits : ∀ d, s.lock = some d → Admits s d

theorem admits_of_stage {s : State} {d : Decision} (early : d.stage = .pops ∨
    d.stage = .readsLive ∨ d.stage = .rereadsLive) : Admits s d := by
  constructor
  · intro late
    rcases early with early | early | early <;> rw [early] at late <;> simp at late
  · intro late
    rcases early with early | early | early <;> rw [early] at late <;> simp at late

theorem capped_decides {caps : Caps} {s : State} {d : Decision} (capped : Capped caps s)
    (locked : s.lock = some d) (counted : Counted (decideStep s d)) :
    Capped caps (decideStep s d) := by
  have decided := decideStep_decided s d
  have admits := capped.admits d locked
  have live := capped.live
  have dialing := capped.dialing
  refine ⟨decided.caps.trans capped.caps, counted, ?_, ?_, ?_⟩
  · rw [decided.caps]
    rcases decided.live with same | ⟨stage, more⟩
    · omega
    · have room := admits.live (.inr stage)
      omega
  · rw [decided.caps]
    rcases decided.dialing with same | ⟨stage, more⟩
    · omega
    · have room := admits.dialing (.inr stage)
      omega
  · intro d' locked'
    obtain ⟨-, -, -, follows⟩ := decided.lock d' locked'
    -- The counters change only in the two stages that add to them.
    have sameLive : d.stage ≠ .addsLive → (decideStep s d).live = s.live := by
      intro other
      rcases decided.live with same | ⟨stage, -⟩
      · exact same
      · exact absurd stage other
    have sameDialing : d.stage ≠ .addsDialing → (decideStep s d).dialing = s.dialing := by
      intro other
      rcases decided.dialing with same | ⟨stage, -⟩
      · exact same
      · exact absurd stage other
    generalize next : d'.stage = stage at follows
    cases follows with
    | pops here => exact admits_of_stage (.inl next)
    | bare here empty => exact admits_of_stage (.inr (.inl next))
    | stops here stack sound idle => exact admits_of_stage (.inr (.inl next))
    | full here reached => exact admits_of_stage (.inr (.inr next))
    | busy here reached => exact admits_of_stage (.inr (.inr next))
    | fits here below =>
      constructor
      · intro _
        rw [decided.caps, sameLive (by rw [here]; nofun)]
        exact below
      · intro late
        rw [next] at late
        simp at late
    | dials here below =>
      constructor
      · intro _
        rw [decided.caps, sameLive (by rw [here]; nofun)]
        exact admits.live (.inl here)
      · intro _
        rw [decided.caps, sameDialing (by rw [here]; nofun)]
        exact below
    | counts here =>
      constructor
      · intro late
        rw [next] at late
        simp at late
      · intro _
        rw [decided.caps, sameDialing (by rw [here]; nofun)]
        exact admits.dialing (.inl here)

theorem capped_outside {caps : Caps} {s t : State} (capped : Capped caps s) (outside : Outside s t)
    (counted : Counted t) : Capped caps t := by
  have live := capped.live
  have dialing := capped.dialing
  have less := outside.live
  have fewer := outside.dialing
  refine ⟨outside.caps.trans capped.caps, counted, ?_, ?_, ?_⟩
  · rw [outside.caps]
    omega
  · rw [outside.caps]
    omega
  · intro d locked
    rcases outside.lock d locked with old | ⟨stage, -, -⟩
    · have admits := capped.admits d old
      constructor
      · intro stage
        rw [outside.caps]
        exact Nat.lt_of_le_of_lt less (admits.live stage)
      · intro stage
        rw [outside.caps]
        exact Nat.lt_of_le_of_lt fewer (admits.dialing stage)
    · exact admits_of_stage (.inl stage)

theorem step_capped {caps : Caps} {s t : State} {a : Label} (capped : Capped caps s)
    (taken : step s a = some t) : Capped caps t := by
  have counted := step_counted capped.counted taken
  by_cases decides : a = .decides
  · subst decides
    obtain ⟨d, locked, rfl⟩ := Option.map_eq_some_iff.mp taken
    exact capped_decides capped locked counted
  · exact capped_outside capped (step_outside taken decides) counted

theorem capped_start (caps : Caps) : Capped caps (State.start caps) :=
  ⟨rfl, counted_start caps, Nat.zero_le _, Nat.zero_le _, fun _ locked => nomatch locked⟩

/-! ## The waiting takes -/

def Woken (s : State) (seen : Nat) : Prop :=
  seen < s.generation ∨ 0 < s.notifying

def Room (s : State) : Prop :=
  s.live < s.caps.maxConnections ∧ s.dialing < s.caps.maxDials

/-- A loop that stops at a connection too idle for its request leaves no usable one below. -/
def SkipsNone (s : State) : Label → Prop
  | .decides => ∀ d c below, s.lock = some d → d.stage = .pops → s.idle = c :: below →
    c.unusable d.policy d.now = false → c.tooIdle d.policy d.now = true →
      ∀ b ∈ below, b.usable d.policy s.now = false
  | _ => True

/-- What the decision knows of the idle connections and of the room to dial. -/
structure Informed (s : State) (d : Decision) : Prop where
  seen : d.seen ≤ s.generation
  now : d.now ≤ s.now
  idle : d.stage = .readsLive ∨ d.stage = .readsDialing ∨ d.stage = .rereadsLive →
    NoneUsable s d.policy
  room : d.stage = .rereadsLive → Woken s d.seen ∨ ¬Room s

structure Attended (s : State) : Prop where
  seen : ∀ k ∈ s.takers, ∀ seen, k.phase = .locking seen ∨ k.phase = .waiting seen →
    seen ≤ s.generation
  informed : ∀ d, s.lock = some d → Informed s d
  waits : ∀ k ∈ s.takers, ∀ seen, k.phase = .waiting seen →
    Woken s seen ∨ (¬Room s ∧ NoneUsable s k.policy)

theorem woken_outside {s t : State} (outside : Outside s t) {seen : Nat}
    (known : seen ≤ s.generation) (stirred : Stirs s t ∨ Woken s seen) : Woken t seen := by
  have generation := outside.generation
  rcases stirred with (later | more) | woken
  · exact .inl (Nat.lt_of_le_of_lt known later)
  · exact .inr (Nat.lt_of_le_of_lt (Nat.zero_le _) more)
  · rcases outside.stirs with (later | more) | ⟨same, same', -, -⟩
    · exact .inl (Nat.lt_of_le_of_lt known later)
    · exact .inr (Nat.lt_of_le_of_lt (Nat.zero_le _) more)
    · rw [Woken, same, same']
      exact woken

theorem room_outside {s t : State} (outside : Outside s t) (quiet : ¬Stirs s t)
    (full : ¬Room s) : ¬Room t := by
  rcases outside.stirs with stirs | ⟨-, -, live, dialing⟩
  · exact absurd stirs quiet
  · rw [Room, live, dialing, outside.caps]
    exact full

theorem attended_outside {s t : State} (attended : Attended s) (outside : Outside s t) :
    Attended t := by
  have generation := outside.generation
  constructor
  · intro k member seen phase
    rcases phase with locking | waiting
    · rcases outside.locking k member seen locking with old | rfl
      · exact Nat.le_trans (attended.seen k old seen (.inl locking)) generation
      · exact generation
    · have old := outside.waiting k member seen waiting
      exact Nat.le_trans (attended.seen k old seen (.inr waiting)) generation
  · intro d locked
    rcases outside.lock d locked with old | ⟨pops, now, k, member, locking⟩
    · have informed := attended.informed d old
      refine ⟨Nat.le_trans informed.seen generation, Nat.le_trans informed.now outside.now, ?_, ?_⟩
      · intro stage
        have busy : s.lock ≠ none := by rw [old]; nofun
        exact outside.idle (.inl busy) d.policy (informed.idle stage)
      · intro stage
        by_cases stirs : Stirs s t
        · exact .inl (woken_outside outside informed.seen (.inl stirs))
        · rcases informed.room stage with woken | full
          · exact .inl (woken_outside outside informed.seen (.inr woken))
          · exact .inr (room_outside outside stirs full)
    · have known := attended.seen k member d.seen (.inl locking)
      refine ⟨Nat.le_trans known generation, now ▸ outside.now, ?_, ?_⟩
      · intro stage
        rw [pops] at stage
        simp at stage
      · intro stage
        rw [pops] at stage
        cases stage
  · intro k member seen waiting
    have old := outside.waiting k member seen waiting
    have known := attended.seen k old seen (.inr waiting)
    by_cases stirs : Stirs s t
    · exact .inl (woken_outside outside known (.inl stirs))
    · rcases attended.waits k old seen waiting with woken | ⟨full, idle⟩
      · exact .inl (woken_outside outside known (.inr woken))
      · exact .inr ⟨room_outside outside stirs full, outside.idle (.inr stirs) k.policy idle⟩

/-- A connection too idle for a request is not usable for it. -/
theorem not_usable_of_tooIdle {c : HttpConn} {policy : ReusePolicy} {now later : Nat}
    (le : now ≤ later) (idle : c.tooIdle policy now = true) : c.usable policy later = false := by
  rw [Bool.eq_false_iff]
  intro usable
  have before := usable_before le usable
  rw [HttpConn.usable, idle] at before
  simp at before

theorem attended_decides {s : State} {d : Decision} (attended : Attended s)
    (locked : s.lock = some d) (skips : SkipsNone s .decides) : Attended (decideStep s d) := by
  have decided := decideStep_decided s d
  have informed := attended.informed d locked
  have same := decided.now
  have none_kept : ∀ policy, NoneUsable s policy → NoneUsable (decideStep s d) policy :=
    fun _ none => noneUsable_later (Nat.le_of_eq same.symm)
      (fun _ member => decided.idle.subset member) none
  have woken_kept : ∀ seen, Woken s seen → Woken (decideStep s d) seen := by
    intro seen woken
    rw [Woken, decided.generation, decided.notifying]
    exact woken
  have full_kept : ¬Room s → ¬Room (decideStep s d) := by
    intro full room
    rw [Room, decided.caps] at room
    apply full
    refine ⟨Nat.lt_of_le_of_lt ?_ room.1, Nat.lt_of_le_of_lt ?_ room.2⟩
    · rcases decided.live with same | ⟨-, more⟩ <;> omega
    · rcases decided.dialing with same | ⟨-, more⟩ <;> omega
  constructor
  · intro k member seen phase
    rw [decided.generation]
    rcases decided.takers k member with old | ⟨-, leaves⟩
    · exact attended.seen k old seen phase
    · generalize k.phase = after at leaves phase
      cases leaves with
      | again => simp at phase
      | got => simp at phase
      | wait here =>
        rcases phase with locking | waiting
        · cases locking
        · cases waiting
          exact informed.seen
  · intro d' locked'
    obtain ⟨policy, seen, now, follows⟩ := decided.lock d' locked'
    refine ⟨by rw [seen, decided.generation]; exact informed.seen,
      by rw [now, decided.now]; exact informed.now, ?_, ?_⟩
    · intro stage
      rw [policy]
      apply none_kept
      generalize d'.stage = after at follows stage
      cases follows with
      | pops here => simp at stage
      | bare here empty =>
        intro c member
        rw [empty] at member
        cases member
      | @stops here c below stack sound idle =>
        intro b member
        rw [stack] at member
        rcases List.mem_cons.mp member with rfl | member
        · exact not_usable_of_tooIdle informed.now idle
        · exact skips d c below locked here stack sound idle b member
      | fits here below => exact informed.idle (.inl here)
      | full here reached => exact informed.idle (.inl here)
      | dials here below => simp at stage
      | busy here reached => exact informed.idle (.inr (.inl here))
      | counts here => simp at stage
    · intro stage
      rw [seen]
      generalize d'.stage = after at follows stage
      cases follows with
      | full here reached => exact .inr (full_kept fun room => by have below := room.1; omega)
      | busy here reached => exact .inr (full_kept fun room => by have below := room.2; omega)
      | _ => cases stage
  · intro k member seen waiting
    rcases decided.takers k member with old | ⟨policy, leaves⟩
    · rcases attended.waits k old seen waiting with woken | ⟨full, none⟩
      · exact .inl (woken_kept seen woken)
      · exact .inr ⟨full_kept full, none_kept _ none⟩
    · rw [policy]
      generalize k.phase = after at leaves waiting
      cases leaves with
      | again => cases waiting
      | got => cases waiting
      | wait here =>
        cases waiting
        rcases informed.room here with woken | full
        · exact .inl (woken_kept _ woken)
        · exact .inr ⟨full_kept full, none_kept _ (informed.idle (.inr (.inr here)))⟩

theorem step_attended {s t : State} {a : Label} (attended : Attended s) (skips : SkipsNone s a)
    (taken : step s a = some t) : Attended t := by
  by_cases decides : a = .decides
  · subst decides
    obtain ⟨d, locked, rfl⟩ := Option.map_eq_some_iff.mp taken
    exact attended_decides attended locked skips
  · exact attended_outside attended (step_outside taken decides)

theorem attended_start (caps : Caps) : Attended (State.start caps) :=
  ⟨fun _ member => (nomatch member), fun _ locked => (nomatch locked),
    fun _ member => (nomatch member)⟩

/-! ## Every run -/

/-- The limits, the slots, and the waiting takes. -/
structure Sound (caps : Caps) (s : State) : Prop where
  connections : (held s).countP isConn ≤ s.live ∧ s.live ≤ caps.maxConnections
  dials : s.dials.length ≤ s.dialing ∧ s.dialing ≤ caps.maxDials
  once : (held s ++ s.released).Perm (issued s.next) ∧ (held s ++ s.released).Nodup
  waits : ∀ k ∈ s.takers, ∀ seen, k.phase = .waiting seen → s.generation ≤ seen →
    s.notifying = 0 → ¬Room s ∧ NoneUsable s k.policy

theorem issued_nodup (slots : Nat) : (issued slots).Nodup := by
  rw [issued, List.nodup_flatMap]
  refine ⟨fun slot _ => by simp [dialSlot], ?_⟩
  refine List.Pairwise.imp ?_ List.nodup_range
  intro a b different
  simp only [Function.onFun, dialSlot, List.disjoint_left, List.mem_cons, List.not_mem_nil, or_false]
  rintro g (rfl | rfl) (same | same)
  · exact different (Guard.conn.inj same)
  · cases same
  · cases same
  · exact different (Guard.dialing.inj same)

theorem dials_length_le (s : State) : s.dials.length ≤ (held s).countP (!isConn ·) := by
  have counted : ∀ dials : List Nat, (dials.flatMap dialSlot).countP (!isConn ·) = dials.length := by
    intro dials
    induction dials with
    | nil => rfl
    | cons slot dials ih =>
      have one : (dialSlot slot).countP (!isConn ·) = 1 := rfl
      rw [List.flatMap_cons, List.countP_append, ih, one, List.length_cons, Nat.add_comm]
  rw [held, List.countP_append, counted]
  exact Nat.le_add_right ..

/-- The limits hold and each slot is given back once, whatever the steps. -/
theorem run_capped {caps : Caps} {labels : List Label} {s : State}
    (reached : run step (State.start caps) labels = some s) : Capped caps s :=
  run_always step step_capped (capped_start caps) reached

theorem sound_of_attended {caps : Caps} {s : State} (capped : Capped caps s)
    (attended : Attended s) : Sound caps s := by
  have live := capped.counted.live
  have dialing := capped.counted.dialing
  have dials := dials_length_le s
  refine ⟨⟨by omega, capped.caps ▸ capped.live⟩, ⟨by omega, capped.caps ▸ capped.dialing⟩,
    ⟨capped.counted.slots, capped.counted.slots.nodup_iff.mpr (issued_nodup s.next)⟩, ?_⟩
  intro k member seen waiting unheard quiet
  rcases attended.waits k member seen waiting with (later | pending) | settled
  · omega
  · omega
  · exact settled

theorem run_attended {caps : Caps} {labels : List Label} {s : State}
    (skips : Meets step SkipsNone (State.start caps) labels)
    (reached : run step (State.start caps) labels = some s) : Attended s :=
  run_invariant step step_attended (attended_start caps) skips reached

theorem sound_of_skipsNone {caps : Caps} {labels : List Label} {s : State}
    (skips : Meets step SkipsNone (State.start caps) labels)
    (reached : run step (State.start caps) labels = some s) : Sound caps s :=
  sound_of_attended (run_capped reached) (run_attended skips reached)

/-- A take that may use the one connection of the pool finds it busy. -/
def oneSlot (policy : ReusePolicy) : List Label :=
  [.calls policy, .registers 0, .locks 0, .decides, .decides, .decides, .decides, .decides,
    .calls policy, .registers 1, .locks 1, .decides, .decides, .decides]

def anyRequest : ReusePolicy :=
  { maxLifetime := 60, idempotent := true, unsafeReuseMaxIdle := 2 }

theorem sound_of_skipsNone_oneSlot :
    ∃ s, run step (State.start ⟨1, 1⟩) (oneSlot anyRequest) = some s ∧ Sound ⟨1, 1⟩ s ∧
      ⟨anyRequest, .waiting 0⟩ ∈ s.takers := by
  have reached : run step (State.start ⟨1, 1⟩) (oneSlot anyRequest) =
      some ((run step (State.start ⟨1, 1⟩) (oneSlot anyRequest)).get rfl) := rfl
  have skips : Meets step SkipsNone (State.start ⟨1, 1⟩) (oneSlot anyRequest) := by
    have empty : ∀ {s : State}, s.idle = [] → SkipsNone s .decides := by
      intro s empty d c below _ _ stack
      rw [empty] at stack
      cases stack
    refine meets_cons step trivial rfl (meets_cons step trivial rfl (meets_cons step trivial rfl ?_))
    refine meets_cons step (empty rfl) rfl (meets_cons step (empty rfl) rfl
      (meets_cons step (empty rfl) rfl (meets_cons step (empty rfl) rfl
        (meets_cons step (empty rfl) rfl ?_))))
    refine meets_cons step trivial rfl (meets_cons step trivial rfl (meets_cons step trivial rfl ?_))
    exact meets_cons step (empty rfl) rfl (meets_cons step (empty rfl) rfl
      (meets_cons step (empty rfl) rfl trivial))
  exact ⟨_, reached, sound_of_skipsNone skips reached, by decide⟩

/-! ## The order of the stack -/

/-- What a step puts on the stack has been idle for no longer than what is there. -/
def InOrder (s : State) : Label → Prop
  | .putBack k _ => ∀ c, s.returning[k]? = some c → ∀ b ∈ s.idle, b.idleSince ≤ c.idleSince
  | _ => True

/-- The top of the stack is the least idle. -/
def Stacked (s : State) : Prop :=
  s.idle.Pairwise fun c b => b.idleSince ≤ c.idleSince

theorem stacked_iff_ages (s : State) : Stacked s ↔ (ages s).Pairwise fun a b => b ≤ a := by
  rw [ages, List.pairwise_map]
  rfl

theorem stacked_of_ages {s t : State} (same : ages t = ages s) (stacked : Stacked s) :
    Stacked t := by
  rw [stacked_iff_ages, same]
  exact (stacked_iff_ages s).mp stacked

theorem step_stacked {s t : State} {a : Label} (stacked : Stacked s) (order : InOrder s a)
    (taken : step s a = some t) : Stacked t := by
  by_cases decides : a = .decides
  · subst decides
    obtain ⟨d, -, rfl⟩ := Option.map_eq_some_iff.mp taken
    exact List.Pairwise.sublist (decideStep_decided s d).idle stacked
  · rcases step_shelves taken decides with same | ⟨k, maxIdle, c, pushed⟩
    · exact stacked_of_ages same stacked
    · have label := pushed.label
      subst label
      rw [Stacked, pushed.idle]
      exact List.Pairwise.cons (order c pushed.found) stacked

/-- Below a connection too idle for a request of an ordered stack every connection is idler still. -/
theorem skipsNone_of_stacked {s : State} {a : Label} (stacked : Stacked s)
    (attended : Attended s) : SkipsNone s a := by
  cases a with
  | decides =>
    intro d c below locked pops stack sound idle b member
    have order := stacked
    rw [Stacked, stack, List.pairwise_cons] at order
    have older := order.1 b member
    have before := (attended.informed d locked).now
    have idler : b.tooIdle d.policy d.now = true := by
      rw [HttpConn.tooIdle, Bool.and_eq_true, decide_eq_true_eq] at idle ⊢
      exact ⟨idle.1, by omega⟩
    exact not_usable_of_tooIdle before idler
  | _ => trivial

/-- A run that puts the connections back in the order of their idleness skips no usable one. -/
theorem skipsNone_of_inOrder {s : State} {labels : List Label} (stacked : Stacked s)
    (attended : Attended s) (order : Meets step InOrder s labels) :
    Meets step SkipsNone s labels := by
  induction labels generalizing s with
  | nil => trivial
  | cons a labels ih =>
    have skips : SkipsNone s a := skipsNone_of_stacked stacked attended
    refine ⟨skips, ?_⟩
    intro t taken
    exact ih (step_stacked stacked order.1 taken) (step_attended attended skips taken)
      (order.2 t taken)

theorem sound_of_inOrder {caps : Caps} {labels : List Label} {s : State}
    (order : Meets step InOrder (State.start caps) labels)
    (reached : run step (State.start caps) labels = some s) : Sound caps s := by
  have stacked : Stacked (State.start caps) := .nil
  exact sound_of_attended (run_capped reached)
    (run_attended (skipsNone_of_inOrder stacked (attended_start caps) order) reached)

/-! ## A connection returned unused -/

def unsafeRequest : ReusePolicy :=
  { maxLifetime := 60, idempotent := false, unsafeReuseMaxIdle := 2 }

/-- The calls of one take up to its decision. -/
def enters (i : Nat) (policy : ReusePolicy) : List Label :=
  [.calls policy, .registers i, .locks i]

/-- A take dials, and the dial ends in a connection. -/
def opens (i : Nat) : List Label :=
  enters i anyRequest ++ [.decides, .decides, .decides, .decides, .decides, .connects 0 60,
    .subtracts 0, .notifies]

/-- The older of two connections is handed out and comes back unused, on top of the one that has
just been used, while a dial is in progress. -/
def returnedOnTop : List Label :=
  opens 0 ++ opens 1 ++ [.checkin 1, .putBack 0 4, .ticks, .ticks, .ticks, .ticks, .ticks] ++
    enters 2 anyRequest ++ [.decides] ++
    enters 3 anyRequest ++ [.decides, .decides, .decides, .decides, .decides] ++
    [.checkin 1, .putBack 0 4, .returnUnused 0, .putBack 0 4] ++
    enters 4 unsafeRequest ++ [.decides, .decides, .decides, .decides]

theorem returnedOnTop_skips :
    ∃ s, run step (State.start ⟨4, 1⟩) returnedOnTop = some s ∧
      ∃ k ∈ s.takers, ∃ seen, k.phase = .waiting seen ∧ s.generation ≤ seen ∧ s.notifying = 0 ∧
        ∃ c ∈ s.idle, c.usable k.policy s.now = true := by
  refine ⟨_, rfl, ⟨unsafeRequest, .waiting 5⟩, by decide, 5, rfl, by decide, rfl,
    ⟨1, 0, 5, 60, false⟩, by decide, rfl⟩

end FerroEngine.HttpPoolWaiters
