import FerroEngine.TxActorSteps
import Mathlib.Data.List.Nodup

set_option autoImplicit false

/-! # A transaction's commands, one at a time

Every command of a transaction is dispatched at most once and answered exactly once, and a
transaction that was reported dead never commits.
-/

namespace FerroEngine.TxActorSoundness

open LabelledRuns FateMapping TxTerminals CopyRequests TxCommands TxActor TxActorSteps
open AutocommitExec (Terminal QueryResult)
open SessionTeardown (TxEnd)

/-! ## Where a command stands -/

inductive Stage where
  | resolved
  | queued
  | taken
  | answered
  deriving DecidableEq, Repr

def stage : Phase → Stage
  | .resolved => .resolved
  | .queued => .queued
  | .taken => .taken
  | .replied _ | .dropped | .done _ => .answered

def look (s : State) (k : Nat) : Option (Stage × Bool) :=
  (s.requests[k]?).map fun r => (stage r.phase, r.sent)

theorem stage_of_answered {phase : Phase} (answered : isAnswered phase = true) :
    stage phase = .answered := by
  cases phase with
  | replied reply => rfl
  | dropped => rfl
  | done terminal => rfl
  | _ => cases answered

theorem look_of_found {s : State} {k : Nat} {r : Request} (found : s.requests[k]? = some r) :
    look s k = some (stage r.phase, r.sent) := by
  unfold look
  rw [found]
  rfl

theorem look_congr {s t : State} (requests : t.requests = s.requests) : look t = look s := by
  funext k
  unfold look
  rw [requests]

theorem look_set {s t : State} {k : Nat} {r r' : Request} (found : s.requests[k]? = some r)
    (requests : t.requests = s.requests.set k r') :
    look t = Function.update (look s) k (some (stage r'.phase, r'.sent)) := by
  have inside : k < s.requests.length := (List.getElem?_eq_some_iff.mp found).1
  funext j
  unfold look
  rw [requests]
  by_cases same : j = k
  · rw [same, Function.update_self, List.getElem?_set_self inside]
    rfl
  · rw [Function.update_of_ne same, List.getElem?_set_ne (Ne.symm same)]

theorem look_append {s t : State} {r : Request} (requests : t.requests = s.requests ++ [r]) :
    look t = Function.update (look s) s.requests.length (some (stage r.phase, r.sent)) := by
  funext j
  unfold look
  rw [requests]
  rcases Nat.lt_trichotomy j s.requests.length with before | same | after
  · rw [Function.update_of_ne (Nat.ne_of_lt before), List.getElem?_append_left before]
  · rw [same, Function.update_self, List.getElem?_concat_length]
    rfl
  · rw [Function.update_of_ne (Nat.ne_of_gt after), List.getElem?_append_right (Nat.le_of_lt after),
      List.getElem?_eq_none (Nat.le_of_lt after), List.getElem?_eq_none]
    rw [List.length_singleton]
    omega

theorem look_length (s : State) : look s s.requests.length = none := by
  unfold look
  rw [List.getElem?_eq_none (Nat.le_refl _)]
  rfl

/-! ## One command at a time -/

structure Serial (s : State) : Prop where
  queued : ∀ k, k ∈ s.channel ↔ look s k = some (.queued, true)
  channelNodup : s.channel.Nodup
  taken : ∀ k, look s k = some (.taken, true) ↔ ∃ step sent, s.actor = .running k step sent
  unsent : ∀ k b, look s k = some (.resolved, b) → b = false
  waiting : ∀ k st b, look s k = some (st, b) → st = .queued ∨ st = .taken → b = true
  dispatched : s.dispatched.Nodup
  started : ∀ k i, (k, i) ∈ s.dispatched →
    look s k = some (.taken, true) ∨ look s k = some (.answered, true)
  current : ∀ k step sent i, s.actor = .running k step sent → (k, i) ∈ s.dispatched →
    i < step ∨ (i = step ∧ sent = true)
  answers : (s.answers.map Prod.fst).Nodup
  answered : ∀ k, k ∈ s.answers.map Prod.fst ↔ look s k = some (.answered, true)
  closed : s.channelOpen = false → s.channel = []
  gone : s.actor = .gone → s.channelOpen = false

theorem serial_start : Serial State.start := by
  refine ⟨?_, List.nodup_nil, ?_, ?_, ?_, List.nodup_nil, ?_, ?_, List.nodup_nil, ?_, ?_, ?_⟩
  · intro k
    exact ⟨fun member => (by cases member), fun found => (by cases found)⟩
  · intro k
    refine ⟨fun found => (by cases found), ?_⟩
    intro running
    obtain ⟨_, _, running⟩ := running
    cases running
  · intro k b found
    cases found
  · intro k st b found
    cases found
  · intro k i member
    cases member
  · intro k step sent i running
    cases running
  · intro k
    exact ⟨fun member => (by cases member), fun found => (by cases found)⟩
  · intro closed
    cases closed
  · intro gone
    cases gone

/-- A step that leaves every command where it stands. -/
theorem Serial.keeps {s t : State} (serial : Serial s) (looks : look t = look s)
    (channel : t.channel = s.channel) (channelOpen : t.channelOpen = s.channelOpen)
    (dispatched : t.dispatched = s.dispatched) (answers : t.answers = s.answers)
    (taken : ∀ k, (∃ step sent, t.actor = .running k step sent) ↔
      ∃ step sent, s.actor = .running k step sent)
    (current : ∀ k step sent i, t.actor = .running k step sent → (k, i) ∈ s.dispatched →
      i < step ∨ (i = step ∧ sent = true))
    (gone : t.actor = .gone → t.channelOpen = false) : Serial t := by
  refine ⟨?_, ?_, ?_, ?_, ?_, ?_, ?_, ?_, ?_, ?_, ?_, gone⟩
  · rw [channel, looks]
    exact serial.queued
  · rw [channel]
    exact serial.channelNodup
  · intro k
    rw [looks, taken k]
    exact serial.taken k
  · rw [looks]
    exact serial.unsent
  · rw [looks]
    exact serial.waiting
  · rw [dispatched]
    exact serial.dispatched
  · rw [dispatched, looks]
    exact serial.started
  · rw [dispatched]
    exact current
  · rw [answers]
    exact serial.answers
  · rw [answers, looks]
    exact serial.answered
  · rw [channel, channelOpen]
    exact serial.closed

theorem Serial.sameActor {s t : State} (serial : Serial s) (looks : look t = look s)
    (channel : t.channel = s.channel) (channelOpen : t.channelOpen = s.channelOpen)
    (dispatched : t.dispatched = s.dispatched) (answers : t.answers = s.answers)
    (actor : t.actor = s.actor) : Serial t := by
  refine serial.keeps looks channel channelOpen dispatched answers ?_ ?_ ?_
  · intro k
    rw [actor]
  · rw [actor]
    exact serial.current
  · rw [actor, channelOpen]
    exact serial.gone

/-- A step of the actor between points at which no command is in flight. -/
theorem Serial.betweenCommands {s t : State} (serial : Serial s) (looks : look t = look s)
    (channel : t.channel = s.channel) (channelOpen : t.channelOpen = s.channelOpen)
    (dispatched : t.dispatched = s.dispatched) (answers : t.answers = s.answers)
    (before : ∀ k step sent, s.actor ≠ .running k step sent)
    (after : ∀ k step sent, t.actor ≠ .running k step sent) (live : t.actor ≠ .gone) :
    Serial t := by
  refine serial.keeps looks channel channelOpen dispatched answers ?_ ?_ (fun gone => absurd gone live)
  · intro k
    refine ⟨?_, ?_⟩
    · intro running
      obtain ⟨step, sent, running⟩ := running
      exact absurd running (after k step sent)
    · intro running
      obtain ⟨step, sent, running⟩ := running
      exact absurd running (before k step sent)
  · intro k step sent i running
    exact absurd running (after k step sent)

/-- A request that never reached the actor gets its terminal, or arrives. -/
theorem Serial.outside {s t : State} (serial : Serial s) {k : Nat} {st : Stage}
    (before : look s k = none ∨ look s k = some (.resolved, false))
    (after : st = .resolved ∨ st = .answered)
    (looks : look t = Function.update (look s) k (some (st, false)))
    (channel : t.channel = s.channel) (channelOpen : t.channelOpen = s.channelOpen)
    (dispatched : t.dispatched = s.dispatched) (answers : t.answers = s.answers)
    (actor : t.actor = s.actor) : Serial t := by
  -- The command that moves is none that the actor knows of, before and after the step.
  have known : ∀ j (stage : Stage), look t j = some (stage, true) ↔ look s j = some (stage, true) := by
    intro j stage
    rw [looks]
    by_cases same : j = k
    · rw [same, Function.update_self]
      rcases before with none' | fresh
      · rw [none']
        exact ⟨fun found => (by cases found), fun found => (by cases found)⟩
      · rw [fresh]
        exact ⟨fun found => (by cases found), fun found => (by cases found)⟩
    · rw [Function.update_of_ne same]
  refine ⟨?_, ?_, ?_, ?_, ?_, ?_, ?_, ?_, ?_, ?_, ?_, ?_⟩
  · intro j
    rw [channel, known]
    exact serial.queued j
  · rw [channel]
    exact serial.channelNodup
  · intro j
    rw [actor, known]
    exact serial.taken j
  · intro j b found
    rw [looks] at found
    by_cases same : j = k
    · rw [same, Function.update_self, Option.some.injEq, Prod.mk.injEq] at found
      exact found.2.symm
    · rw [Function.update_of_ne same] at found
      exact serial.unsent j b found
  · intro j stage b found inside
    rw [looks] at found
    by_cases same : j = k
    · rw [same, Function.update_self, Option.some.injEq, Prod.mk.injEq] at found
      rw [← found.1] at inside
      rcases after with rfl | rfl
      · rcases inside with inside | inside <;> cases inside
      · rcases inside with inside | inside <;> cases inside
    · rw [Function.update_of_ne same] at found
      exact serial.waiting j stage b found inside
  · rw [dispatched]
    exact serial.dispatched
  · intro j i member
    rw [dispatched] at member
    rw [known, known]
    exact serial.started j i member
  · rw [actor, dispatched]
    exact serial.current
  · rw [answers]
    exact serial.answers
  · intro j
    rw [answers, known]
    exact serial.answered j
  · rw [channel, channelOpen]
    exact serial.closed
  · rw [actor, channelOpen]
    exact serial.gone

theorem Serial.sends {s t : State} (serial : Serial s) {k : Nat}
    (before : look s k = some (.resolved, false))
    (looks : look t = Function.update (look s) k (some (.queued, true)))
    (channel : t.channel = s.channel ++ [k]) (channelOpen : t.channelOpen = s.channelOpen)
    (isOpen : s.channelOpen = true) (dispatched : t.dispatched = s.dispatched)
    (answers : t.answers = s.answers) (actor : t.actor = s.actor) : Serial t := by
  have outside : k ∉ s.channel := by
    rw [serial.queued, before]
    intro found
    cases found
  have known : ∀ j (stage : Stage), stage ≠ .queued →
      (look t j = some (stage, true) ↔ look s j = some (stage, true)) := by
    intro j stage other
    rw [looks]
    by_cases same : j = k
    · rw [same, Function.update_self, before]
      refine ⟨?_, fun found => (by cases found)⟩
      intro found
      cases found
      exact absurd rfl other
    · rw [Function.update_of_ne same]
  refine ⟨?_, ?_, ?_, ?_, ?_, ?_, ?_, ?_, ?_, ?_, ?_, ?_⟩
  · intro j
    rw [channel, looks, List.mem_append, List.mem_singleton]
    by_cases same : j = k
    · rw [same, Function.update_self]
      exact ⟨fun _ => rfl, fun _ => Or.inr rfl⟩
    · rw [Function.update_of_ne same, ← serial.queued j]
      exact ⟨fun member => member.resolve_right same, Or.inl⟩
  · rw [channel, List.nodup_append]
    refine ⟨serial.channelNodup, List.nodup_singleton k, ?_⟩
    intro j member j' member'
    rw [List.mem_singleton] at member'
    rw [member']
    exact fun same => outside (same ▸ member)
  · intro j
    rw [actor, known j .taken Stage.noConfusion]
    exact serial.taken j
  · intro j b found
    rw [looks] at found
    by_cases same : j = k
    · rw [same, Function.update_self] at found
      cases found
    · rw [Function.update_of_ne same] at found
      exact serial.unsent j b found
  · intro j stage b found inside
    rw [looks] at found
    by_cases same : j = k
    · rw [same, Function.update_self, Option.some.injEq, Prod.mk.injEq] at found
      exact found.2.symm
    · rw [Function.update_of_ne same] at found
      exact serial.waiting j stage b found inside
  · rw [dispatched]
    exact serial.dispatched
  · intro j i member
    rw [dispatched] at member
    rw [known j .taken Stage.noConfusion, known j .answered Stage.noConfusion]
    exact serial.started j i member
  · rw [actor, dispatched]
    exact serial.current
  · rw [answers]
    exact serial.answers
  · intro j
    rw [answers, known j .answered Stage.noConfusion]
    exact serial.answered j
  · intro closed
    rw [channelOpen, isOpen] at closed
    cases closed
  · rw [actor, channelOpen]
    exact serial.gone

/-- The head of the channel. -/
theorem Serial.head {s : State} (serial : Serial s) {k : Nat} {rest : List Nat}
    (channel : s.channel = k :: rest) :
    look s k = some (.queued, true) ∧ k ∉ rest ∧ rest.Nodup ∧
      ∀ j, j ∈ rest ↔ look s j = some (.queued, true) ∧ j ≠ k := by
  have nodup := serial.channelNodup
  rw [channel, List.nodup_cons] at nodup
  refine ⟨?_, nodup.1, nodup.2, ?_⟩
  · rw [← serial.queued, channel]
    exact List.mem_cons_self
  · intro j
    rw [← serial.queued, channel, List.mem_cons]
    refine ⟨?_, ?_⟩
    · intro member
      exact ⟨Or.inr member, fun same => nodup.1 (same ▸ member)⟩
    · intro member
      exact member.1.resolve_left member.2

theorem Serial.takes {s t : State} (serial : Serial s) {k : Nat} {rest : List Nat}
    (idle : s.actor = .idle) (head : s.channel = k :: rest)
    (looks : look t = Function.update (look s) k (some (.taken, true)))
    (channel : t.channel = rest) (channelOpen : t.channelOpen = s.channelOpen)
    (dispatched : t.dispatched = s.dispatched) (answers : t.answers = s.answers)
    (actor : t.actor = .running k 0 false) : Serial t := by
  obtain ⟨queued, outside, nodup, others⟩ := serial.head head
  have fresh : ∀ i, (k, i) ∉ s.dispatched := by
    intro i member
    rcases serial.started k i member with found | found
    · rw [queued] at found
      cases found
    · rw [queued] at found
      cases found
  have nobody : ∀ j, look s j ≠ some (.taken, true) := by
    intro j found
    obtain ⟨_, _, running⟩ := (serial.taken j).mp found
    rw [idle] at running
    cases running
  refine ⟨?_, ?_, ?_, ?_, ?_, ?_, ?_, ?_, ?_, ?_, ?_, ?_⟩
  · intro j
    rw [channel, others, looks]
    by_cases same : j = k
    · rw [same, Function.update_self]
      exact ⟨fun member => absurd rfl member.2, fun found => (by cases found)⟩
    · rw [Function.update_of_ne same]
      exact ⟨fun member => member.1, fun found => ⟨found, same⟩⟩
  · rw [channel]
    exact nodup
  · intro j
    rw [looks, actor]
    by_cases same : j = k
    · rw [same, Function.update_self]
      exact ⟨fun _ => ⟨0, false, rfl⟩, fun _ => rfl⟩
    · rw [Function.update_of_ne same]
      refine ⟨fun found => absurd found (nobody j), ?_⟩
      intro running
      obtain ⟨_, _, running⟩ := running
      cases running
      exact absurd rfl same
  · intro j b found
    rw [looks] at found
    by_cases same : j = k
    · rw [same, Function.update_self] at found
      cases found
    · rw [Function.update_of_ne same] at found
      exact serial.unsent j b found
  · intro j stage b found inside
    rw [looks] at found
    by_cases same : j = k
    · rw [same, Function.update_self, Option.some.injEq, Prod.mk.injEq] at found
      exact found.2.symm
    · rw [Function.update_of_ne same] at found
      exact serial.waiting j stage b found inside
  · rw [dispatched]
    exact serial.dispatched
  · intro j i member
    rw [dispatched] at member
    have other : j ≠ k := fun same => fresh i (same ▸ member)
    rw [looks, Function.update_of_ne other]
    exact serial.started j i member
  · intro j step sent i running member
    rw [dispatched] at member
    rw [actor] at running
    cases running
    exact absurd member (fresh i)
  · rw [answers]
    exact serial.answers
  · intro j
    rw [answers, looks]
    by_cases same : j = k
    · rw [same, Function.update_self, serial.answered, queued]
      exact ⟨fun found => (by cases found), fun found => (by cases found)⟩
    · rw [Function.update_of_ne same]
      exact serial.answered j
  · intro closed
    rw [channelOpen] at closed
    have empty := serial.closed closed
    rw [head] at empty
    cases empty
  · intro gone
    rw [actor] at gone
    cases gone

/-- The actor is done with a command that it had taken, or takes from the channel to decline. -/
theorem Serial.answersOne {s t : State} (serial : Serial s) {k : Nat} {st : Stage} {tag : Answer}
    (before : look s k = some (st, true)) (waiting : st = .queued ∨ st = .taken)
    (looks : look t = Function.update (look s) k (some (.answered, true)))
    (queued : ∀ j, j ∈ t.channel ↔ j ∈ s.channel ∧ j ≠ k) (nodup : t.channel.Nodup)
    (channelOpen : t.channelOpen = s.channelOpen) (dispatched : t.dispatched = s.dispatched)
    (answers : t.answers = s.answers ++ [(k, tag)])
    (only : ∀ j step sent, s.actor = .running j step sent → j = k)
    (after : ∀ j step sent, t.actor ≠ .running j step sent) (live : t.actor ≠ .gone) :
    Serial t := by
  have fresh : k ∉ s.answers.map Prod.fst := by
    rw [serial.answered, before]
    intro found
    rcases waiting with rfl | rfl
    · cases found
    · cases found
  refine ⟨?_, nodup, ?_, ?_, ?_, ?_, ?_, ?_, ?_, ?_, ?_, fun gone => absurd gone live⟩
  · intro j
    rw [queued, serial.queued, looks]
    by_cases same : j = k
    · rw [same, Function.update_self]
      exact ⟨fun member => absurd rfl member.2, fun found => (by cases found)⟩
    · rw [Function.update_of_ne same]
      exact ⟨fun member => member.1, fun found => ⟨found, same⟩⟩
  · intro j
    rw [looks]
    refine ⟨?_, ?_⟩
    · intro found
      by_cases same : j = k
      · rw [same, Function.update_self] at found
        cases found
      · rw [Function.update_of_ne same, serial.taken] at found
        obtain ⟨step, sent, running⟩ := found
        exact absurd (only j step sent running) same
    · intro running
      obtain ⟨step, sent, running⟩ := running
      exact absurd running (after j step sent)
  · intro j b found
    rw [looks] at found
    by_cases same : j = k
    · rw [same, Function.update_self] at found
      cases found
    · rw [Function.update_of_ne same] at found
      exact serial.unsent j b found
  · intro j stage b found inside
    rw [looks] at found
    by_cases same : j = k
    · rw [same, Function.update_self, Option.some.injEq, Prod.mk.injEq] at found
      exact found.2.symm
    · rw [Function.update_of_ne same] at found
      exact serial.waiting j stage b found inside
  · rw [dispatched]
    exact serial.dispatched
  · intro j i member
    rw [dispatched] at member
    rw [looks]
    by_cases same : j = k
    · rw [same, Function.update_self]
      exact Or.inr rfl
    · rw [Function.update_of_ne same]
      exact serial.started j i member
  · intro j step sent i running
    exact absurd running (after j step sent)
  · rw [answers, List.map_append, List.nodup_append]
    refine ⟨serial.answers, List.nodup_singleton k, ?_⟩
    intro j member j' member'
    rw [List.map_singleton, List.mem_singleton] at member'
    rw [member']
    intro same
    rw [same] at member
    exact fresh member
  · intro j
    rw [answers, List.map_append, List.mem_append, List.map_singleton, List.mem_singleton,
      serial.answered, looks]
    by_cases same : j = k
    · rw [same, Function.update_self]
      exact ⟨fun _ => rfl, fun _ => Or.inr rfl⟩
    · rw [Function.update_of_ne same]
      exact ⟨fun member => member.resolve_right same, Or.inl⟩
  · intro closed
    rw [channelOpen] at closed
    have empty := serial.closed closed
    rw [List.eq_nil_iff_forall_not_mem]
    intro j member
    have inside := ((queued j).mp member).1
    rw [empty] at inside
    cases inside

theorem Serial.dispatches {s : State} (serial : Serial s) {k step : Nat}
    (running : s.actor = .running k step false) :
    Serial { s with
      actor := .running k step true
      dispatched := s.dispatched ++ [(k, step)] } := by
  have taken : look s k = some (.taken, true) := (serial.taken k).mpr ⟨step, false, running⟩
  have fresh : (k, step) ∉ s.dispatched := by
    intro member
    rcases serial.current k step false step running member with before | ⟨_, sent⟩
    · exact Nat.lt_irrefl step before
    · cases sent
  refine ⟨serial.queued, serial.channelNodup, ?_, serial.unsent, serial.waiting, ?_, ?_, ?_,
    serial.answers, serial.answered, serial.closed, fun gone => (by cases gone)⟩
  · intro j
    refine ⟨?_, ?_⟩
    · intro found
      obtain ⟨_, _, running'⟩ := (serial.taken j).mp found
      rw [running] at running'
      cases running'
      exact ⟨step, true, rfl⟩
    · intro running'
      obtain ⟨_, _, running'⟩ := running'
      cases running'
      exact taken
  · rw [List.nodup_append]
    refine ⟨serial.dispatched, List.nodup_singleton _, ?_⟩
    intro d member d' member'
    rw [List.mem_singleton] at member'
    rw [member']
    exact fun same => fresh (same ▸ member)
  · intro j i member
    rcases List.mem_append.mp member with earlier | new
    · exact serial.started j i earlier
    · rw [List.mem_singleton, Prod.mk.injEq] at new
      rw [new.1]
      exact Or.inl taken
  · intro j step' sent i running' member
    cases running'
    rcases List.mem_append.mp member with earlier | new
    · rcases serial.current k step false i running earlier with before | ⟨_, sent⟩
      · exact Or.inl before
      · cases sent
    · rw [List.mem_singleton, Prod.mk.injEq] at new
      exact Or.inr ⟨new.2, rfl⟩

theorem look_drain (s : State) (reason : TxEnd) (k : Nat) :
    look (drainStep s reason) k =
      (look s k).map fun found => if found.1 = .queued then (.answered, found.2) else found := by
  unfold look drainStep
  simp only [List.getElem?_map]
  cases s.requests[k]? with
  | none => rfl
  | some r =>
    rw [Option.map_some, Option.map_some, Option.map_some, Option.map_some]
    unfold drainRequest
    cases phase : r.phase with
    | queued =>
      cases r.command <;> rfl
    | resolved => rw [phase]; rfl
    | taken => rw [phase]; rfl
    | replied reply => rw [phase]; rfl
    | dropped => rw [phase]; rfl
    | done terminal => rw [phase]; rfl

theorem look_drained {s : State} {reason : TxEnd} {k : Nat} {st : Stage} {b : Bool} :
    look (drainStep s reason) k = some (st, b) ↔
      (look s k = some (.queued, b) ∧ st = .answered) ∨
        (look s k = some (st, b) ∧ st ≠ .queued) := by
  rw [look_drain]
  cases look s k with
  | none => simp
  | some found =>
    obtain ⟨st', b'⟩ := found
    by_cases queued : st' = .queued
    · rw [queued, Option.map_some, if_pos rfl]
      simp only [Option.some.injEq, Prod.mk.injEq, true_and]
      refine ⟨?_, ?_⟩
      · rintro ⟨answered, same⟩
        exact Or.inl ⟨same, answered.symm⟩
      · rintro (⟨same, answered⟩ | ⟨⟨same, _⟩, other⟩)
        · exact ⟨answered.symm, same⟩
        · exact absurd same.symm other
    · rw [Option.map_some, if_neg queued]
      simp only [Option.some.injEq, Prod.mk.injEq]
      refine ⟨?_, ?_⟩
      · rintro ⟨same, same'⟩
        exact Or.inr ⟨⟨same, same'⟩, fun other => queued (same.trans other)⟩
      · rintro (⟨⟨other, _⟩, _⟩ | ⟨same, _⟩)
        · exact absurd other queued
        · exact same

theorem Serial.drains {s : State} (serial : Serial s) (closing : s.actor = .closing)
    (reason : TxEnd) : Serial (drainStep s reason) := by
  have idle : ∀ j, look s j ≠ some (.taken, true) := by
    intro j found
    obtain ⟨_, _, running⟩ := (serial.taken j).mp found
    rw [closing] at running
    cases running
  refine ⟨?_, List.nodup_nil, ?_, ?_, ?_, serial.dispatched, ?_, ?_, ?_, ?_, fun _ => rfl,
    fun _ => rfl⟩
  · intro j
    refine ⟨fun member => (by cases member), ?_⟩
    intro found
    rcases look_drained.mp found with ⟨_, other⟩ | ⟨_, other⟩
    · cases other
    · exact absurd rfl other
  · intro j
    refine ⟨?_, ?_⟩
    · intro found
      rcases look_drained.mp found with ⟨_, other⟩ | ⟨taken, _⟩
      · cases other
      · exact absurd taken (idle j)
    · intro running
      obtain ⟨_, _, running⟩ := running
      cases running
  · intro j b found
    rcases look_drained.mp found with ⟨_, other⟩ | ⟨resolved, _⟩
    · cases other
    · exact serial.unsent j b resolved
  · intro j st b found inside
    rcases look_drained.mp found with ⟨queued, _⟩ | ⟨same, _⟩
    · exact serial.waiting j .queued b queued (Or.inl rfl)
    · exact serial.waiting j st b same inside
  · intro j i member
    right
    rcases serial.started j i member with taken | answered
    · exact absurd taken (idle j)
    · exact look_drained.mpr (Or.inr ⟨answered, Stage.noConfusion⟩)
  · intro j step sent i running
    cases running
  · unfold drainStep
    simp only
    rw [List.map_append, List.map_map, List.nodup_append]
    refine ⟨serial.answers, ?_, ?_⟩
    · simpa [Function.comp_def] using serial.channelNodup
    · intro j member j' member'
      have queued : look s j' = some (.queued, true) := by
        rw [← serial.queued]
        simpa [Function.comp_def] using member'
      rw [serial.answered] at member
      intro same
      rw [same, queued] at member
      cases member
  · intro j
    have listed : j ∈ (drainStep s reason).answers.map Prod.fst ↔
        j ∈ s.answers.map Prod.fst ∨ j ∈ s.channel := by
      unfold drainStep
      simp [Function.comp_def]
    rw [listed, serial.answered, serial.queued]
    refine ⟨?_, ?_⟩
    · rintro (answered | queued)
      · exact look_drained.mpr (Or.inr ⟨answered, Stage.noConfusion⟩)
      · exact look_drained.mpr (Or.inl ⟨queued, rfl⟩)
    · intro found
      rcases look_drained.mp found with ⟨queued, _⟩ | ⟨answered, _⟩
      · exact Or.inr queued
      · exact Or.inl answered

theorem serial_step {s t : State} (serial : Serial s) (move : Move s t) : Serial t := by
  cases move with
  | arrive r unsent fresh same =>
    have looks := look_append (s := s) (congrArg State.requests same)
    rw [unsent] at looks
    refine serial.outside (Or.inl (look_length s)) ?_ looks (by rw [same]) (by rw [same])
      (by rw [same]) (by rw [same]) (by rw [same])
    rcases fresh with phase | ⟨p, phase, _⟩
    · rw [phase]
      exact Or.inl rfl
    · rw [phase]
      exact Or.inr rfl
  | refuse k r p found phase _ same =>
    have before := look_of_found found
    rw [phase] at before
    have unsent := serial.unsent k r.sent before
    have looks := look_set found (congrArg State.requests same)
    rw [show (stage (Phase.done (.error p)), r.sent) = (.answered, false) by rw [unsent]; rfl] at looks
    rw [unsent] at before
    exact serial.outside (Or.inr before) (Or.inr rfl) looks (by rw [same]; rfl) (by rw [same]; rfl)
      (by rw [same]; rfl) (by rw [same]; rfl) (by rw [same]; rfl)
  | send k r found phase channelOpen same =>
    have before := look_of_found found
    rw [phase] at before
    have unsent := serial.unsent k r.sent before
    rw [unsent] at before
    exact serial.sends before (look_set found (congrArg State.requests same)) (by rw [same])
      (by rw [same]) channelOpen (by rw [same]) (by rw [same]) (by rw [same])
  | declare k r reply found phase same =>
    have looks : look t = look s := by
      rw [look_set found (congrArg State.requests same)]
      have before := look_of_found found
      rw [phase] at before
      exact Function.update_eq_self_iff.mpr before.symm
    exact serial.sameActor looks (by rw [same]; rfl) (by rw [same]; rfl) (by rw [same]; rfl)
      (by rw [same]; rfl) (by rw [same]; rfl)
  | recover k r p found phase _ _ same =>
    have looks : look t = look s := by
      rw [look_set found (congrArg State.requests same)]
      have before := look_of_found found
      rw [phase] at before
      exact Function.update_eq_self_iff.mpr before.symm
    exact serial.sameActor looks (by rw [same]; rfl) (by rw [same]; rfl) (by rw [same]; rfl)
      (by rw [same]; rfl) (by rw [same]; rfl)
  | abort same =>
    exact serial.sameActor (look_congr (by rw [same])) (by rw [same]) (by rw [same]) (by rw [same])
      (by rw [same]) (by rw [same])
  | forget same =>
    exact serial.sameActor (look_congr (by rw [same])) (by rw [same]) (by rw [same]) (by rw [same])
      (by rw [same]) (by rw [same])
  | leave reason idle _ same =>
    refine serial.betweenCommands (look_congr (by rw [same]; rfl)) (by rw [same]; rfl)
      (by rw [same]; rfl) (by rw [same]; rfl) (by rw [same]; rfl) ?_ ?_ ?_
    · rw [idle]
      exact fun _ _ _ => Actor.noConfusion
    · rw [same]
      exact fun _ _ _ => Actor.noConfusion
    · rw [same]
      exact Actor.noConfusion
  | take k rest r savepoints idle channel found same =>
    obtain ⟨queued, _⟩ := serial.head channel
    have before := look_of_found found
    rw [queued, Option.some.injEq, Prod.mk.injEq] at before
    have looks := look_set found (congrArg State.requests same)
    rw [show (stage ({ r with phase := Phase.taken } : Request).phase,
      ({ r with phase := Phase.taken } : Request).sent) = (.taken, true) by rw [← before.2]; rfl]
      at looks
    exact serial.takes idle channel looks (by rw [same]) (by rw [same]) (by rw [same])
      (by rw [same]) (by rw [same])
  | decline k rest r idle channel found _ same =>
    obtain ⟨queued, outside, nodup, others⟩ := serial.head channel
    have before := look_of_found found
    rw [queued, Option.some.injEq, Prod.mk.injEq] at before
    have requests : t.requests =
        s.requests.set k { r with phase := .replied (.ctl .unknownSavepoint) } := by
      rw [same]
      rfl
    have looks := look_set found requests
    rw [show (stage ({ r with phase := Phase.replied (.ctl .unknownSavepoint) } : Request).phase,
      ({ r with phase := Phase.replied (.ctl .unknownSavepoint) } : Request).sent) =
        (.answered, true) by rw [← before.2]; rfl] at looks
    refine serial.answersOne queued (Or.inl rfl) looks ?_ ?_ (by rw [same]; rfl)
      (by rw [same]; rfl) (by rw [same]; rfl) ?_ ?_ ?_
    · intro j
      rw [same, serial.queued]
      exact others j
    · rw [same]
      exact nodup
    · intro j step sent running
      rw [idle] at running
      cases running
    · rw [same]
      exact fun _ _ _ => Actor.noConfusion
    · rw [same]
      exact Actor.noConfusion
  | dispatch k step running same =>
    rw [same]
    exact serial.dispatches running
  | answer k step sent r phase tag running found answers =>
    have taken : look s k = some (.taken, true) := (serial.taken k).mpr ⟨step, sent, running⟩
    have before := look_of_found found
    rw [taken, Option.some.injEq, Prod.mk.injEq] at before
    have looks := look_set found answers.requests
    rw [show (stage ({ r with phase := phase } : Request).phase,
      ({ r with phase := phase } : Request).sent) = (.answered, true) by
        rw [← before.2, stage_of_answered (isAnswered_of_tells answers.told)]] at looks
    have outside : k ∉ s.channel := by
      rw [serial.queued, taken]
      intro found'
      cases found'
    refine serial.answersOne taken (Or.inr rfl) looks ?_ ?_ answers.channelOpen answers.dispatched
      answers.answers ?_ ?_ ?_
    · intro j
      rw [answers.channel]
      exact ⟨fun member => ⟨member, fun same => outside (same ▸ member)⟩, fun member => member.1⟩
    · rw [answers.channel]
      exact serial.channelNodup
    · intro j step' sent' running'
      rw [running] at running'
      cases running'
      rfl
    · intro j step' sent' running'
      rcases answers.actor with ⟨idle, _⟩ | ⟨tearing, _⟩
      · rw [idle] at running'
        cases running'
      · rw [tearing] at running'
        cases running'
    · intro gone
      rcases answers.actor with ⟨idle, _⟩ | ⟨tearing, _⟩
      · rw [idle] at gone
        cases gone
      · rw [tearing] at gone
        cases gone
  | goOn k step running same actor _ =>
    refine serial.keeps (look_congr same.requests) same.channel same.channelOpen same.dispatched
      same.answers ?_ ?_ ?_
    · intro j
      rw [actor, running]
      refine ⟨?_, ?_⟩
      · intro found
        obtain ⟨_, _, found⟩ := found
        cases found
        exact ⟨step, true, rfl⟩
      · intro found
        obtain ⟨_, _, found⟩ := found
        cases found
        exact ⟨step + 1, false, rfl⟩
    · intro j step' sent i running' member
      rw [actor] at running'
      cases running'
      left
      rcases serial.current k step true i running member with before | ⟨at', _⟩
      · omega
      · omega
    · intro gone
      rw [actor] at gone
      cases gone
  | tearDown reason rolledBack tearing _ same =>
    refine serial.betweenCommands (look_congr (by rw [same]; rfl)) (by rw [same]; rfl)
      (by rw [same]; rfl) (by rw [same]; rfl) (by rw [same]; rfl) ?_ ?_ ?_
    · rw [tearing]
      exact fun _ _ _ => Actor.noConfusion
    · rw [same]
      exact fun _ _ _ => Actor.noConfusion
    · rw [same]
      exact Actor.noConfusion
  | drain reason closing _ same =>
    rw [same]
    exact serial.drains closing reason

end FerroEngine.TxActorSoundness
