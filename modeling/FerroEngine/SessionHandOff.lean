import Mathlib.Logic.Function.Basic
import FerroEngine.LabelledRuns

set_option autoImplicit false

/-! # Handing jobs to a session that may end

`Liveness::hand_off` and its caller `hand_off_jobs`, the supervisor that sends what was declared,
and the shutdown of `run_with_handler`, as steps of tasks that a scheduler interleaves.
-/

namespace FerroEngine.SessionHandOff

open LabelledRuns

/-! ## Tasks -/

/-- Where the handler of a `RESERVE` stands. -/
inductive Phase where
  /-- Not submitted. -/
  | absent
  /-- Has jobs, before `hand_off`. -/
  | idle
  /-- Has locked `ended`. -/
  | checking
  | delivering
  /-- The answer is known, the lock still held. -/
  | releasing (ok : Bool)
  /-- `hand_off` has returned. -/
  | answered (ok : Bool)
  /-- The jobs are unreserved. -/
  | undone
  | finished (ok : Bool)
  deriving DecidableEq, Repr

inductive Terminal where
  | jobs
  | cancelled
  /-- What the supervisor makes up when nothing was declared. -/
  | noTerminal
  deriving DecidableEq, Repr

inductive Supervisor where
  | waiting
  | sent
  /-- Aborted past the drain deadline. -/
  | aborted
  deriving DecidableEq, Repr

structure Call where
  phase : Phase
  /-- What the handler has declared. -/
  cell : Option Terminal
  supervisor : Supervisor
  deriving DecidableEq, Repr

inductive Shutdown where
  | serving
  /-- Has locked `ended`. -/
  | locking
  /-- Has set it, the lock still held. -/
  | setting
  /-- `cancel_all`, `abort_session`, and the wait for the supervisors. -/
  | draining
  | closed
  deriving DecidableEq, Repr

inductive Holder where
  | call (i : Nat)
  | shutdown
  deriving DecidableEq, Repr

inductive Event where
  | declared (i : Nat)
  | returned (i : Nat)
  | unreserved (i : Nat)
  /-- On the permit, into the writer's channel. -/
  | enqueued (i : Nat) (t : Terminal)
  /-- On the permit, and the writer was gone. -/
  | lost (i : Nat) (t : Terminal)
  | ended
  deriving DecidableEq, Repr

structure Session where
  lock : Option Holder
  ended : Bool
  calls : Nat → Call
  next : Nat
  shutdown : Shutdown
  writerAlive : Bool
  /-- What has happened, in order. -/
  log : List Event

def Session.start : Session :=
  { lock := none
    ended := false
    calls := fun _ => ⟨.absent, none, .waiting⟩
    next := 0
    shutdown := .serving
    writerAlive := true
    log := [] }

def Session.setCall (s : Session) (i : Nat) (c : Call) : Session :=
  { s with calls := Function.update s.calls i c }

/-! ## Steps -/

/-- The next statement of a handler. -/
def callStep (s : Session) (i : Nat) (c : Call) : Option Session :=
  match c.phase with
  | .absent => none
  | .idle =>
    if s.lock = none then
      some { s.setCall i { c with phase := .checking } with lock := some (.call i) }
    else none
  | .checking =>
    some (s.setCall i { c with phase := if s.ended then .releasing false else .delivering })
  | .delivering =>
    some { s.setCall i { c with phase := .releasing true, cell := some .jobs } with
      log := s.log ++ [.declared i] }
  | .releasing ok =>
    some { s.setCall i { c with phase := .answered ok } with
      lock := none
      log := if ok then s.log else s.log ++ [.returned i] }
  | .answered true => some (s.setCall i { c with phase := .finished true })
  | .answered false =>
    some { s.setCall i { c with phase := .undone } with log := s.log ++ [.unreserved i] }
  | .undone => some (s.setCall i { c with phase := .finished false, cell := some .cancelled })
  | .finished _ => none

/-- The supervisor sends what it finds in the cell of a handler that has ended. -/
def superviseStep (s : Session) (i : Nat) (c : Call) : Option Session :=
  match c.phase, c.supervisor with
  | .finished _, .waiting =>
    let t := c.cell.getD .noTerminal
    some { s.setCall i { c with cell := none, supervisor := .sent } with
      log := s.log ++ [if s.writerAlive then .enqueued i t else .lost i t] }
  | _, _ => none

def abortSupervisor (c : Call) : Call :=
  if c.supervisor = .waiting then { c with supervisor := .aborted } else c

/-- The next statement of the shutdown; `expired` says that the drain deadline has passed. -/
def shutdownStep (s : Session) (expired : Bool) : Option Session :=
  match s.shutdown with
  | .serving =>
    if s.lock = none then some { s with lock := some .shutdown, shutdown := .locking } else none
  | .locking => some { s with ended := true, shutdown := .setting, log := s.log ++ [.ended] }
  | .setting => some { s with lock := none, shutdown := .draining }
  | .draining =>
    if expired then
      some { s with calls := fun i => abortSupervisor (s.calls i), shutdown := .closed }
    else if (List.range s.next).all fun i => (s.calls i).supervisor ≠ .waiting then
      some { s with shutdown := .closed }
    else none
  | .closed => none

inductive Label where
  /-- The reader accepts a request. -/
  | submit
  | call (i : Nat)
  | supervise (i : Nat)
  | shutdown (expired : Bool)
  | writerGone
  deriving DecidableEq, Repr

def step (s : Session) : Label → Option Session
  | .submit =>
    if s.shutdown = .serving then
      some { s.setCall s.next ⟨.idle, none, .waiting⟩ with next := s.next + 1 }
    else none
  | .call i => callStep s i (s.calls i)
  | .supervise i => superviseStep s i (s.calls i)
  | .shutdown expired => shutdownStep s expired
  | .writerGone => some { s with writerAlive := false }

/-! ## What a phase says -/

namespace Phase

def holds : Phase → Bool
  | .checking | .delivering | .releasing _ => true
  | _ => false

/-- The jobs are in the cell, or were taken from it. -/
def accepted : Phase → Bool
  | .releasing true | .answered true | .finished true => true
  | _ => false

/-- The jobs are back with the caller. -/
def refused : Phase → Bool
  | .answered false | .undone | .finished false => true
  | _ => false

def unreserved : Phase → Bool
  | .undone | .finished false => true
  | _ => false

/-- What has been declared. -/
def terminal : Phase → Option Terminal
  | .releasing true | .answered true | .finished true => some .jobs
  | .finished false => some .cancelled
  | _ => none

def isFinished : Phase → Bool
  | .finished _ => true
  | _ => false

end Phase

def Event.call : Event → Option Nat
  | .declared i | .returned i | .unreserved i | .enqueued i _ | .lost i _ => some i
  | .ended => none

/-- What is known of one call. -/
structure Agrees (s : Session) (i : Nat) : Prop where
  holds : s.lock = some (.call i) ↔ (s.calls i).phase.holds = true
  live : (s.calls i).phase = .delivering → s.ended = false
  refusing : (s.calls i).phase = .releasing false ∨ (s.calls i).phase.refused = true →
    s.ended = true
  declared : .declared i ∈ s.log ↔ (s.calls i).phase.accepted = true
  returned : .returned i ∈ s.log ↔ (s.calls i).phase.refused = true
  unreserved : .unreserved i ∈ s.log ↔ (s.calls i).phase.unreserved = true
  cell : (s.calls i).supervisor ≠ .sent → (s.calls i).cell = (s.calls i).phase.terminal
  sent : ∀ t, (.enqueued i t ∈ s.log ∨ .lost i t ∈ s.log) ↔
    (s.calls i).supervisor = .sent ∧ (s.calls i).phase.terminal = some t
  finished : (s.calls i).supervisor = .sent → (s.calls i).phase.isFinished = true
  lost : ∀ t, .lost i t ∈ s.log → s.writerAlive = false
  aborted : (s.calls i).supervisor = .aborted → s.shutdown = .closed

/-- The order of the end of the session: nothing is declared after it, or returned before it. -/
def Ordered (a b : Event) : Prop :=
  (a = .ended → ∀ i, b ≠ .declared i) ∧ (b = .ended → ∀ i, a ≠ .returned i)

structure Inv (s : Session) : Prop where
  agrees : ∀ i, Agrees s i
  shutdownHolds : s.lock = some .shutdown ↔ s.shutdown = .locking ∨ s.shutdown = .setting
  flag : s.ended = true ↔ s.shutdown ≠ .serving ∧ s.shutdown ≠ .locking
  logged : .ended ∈ s.log ↔ s.ended = true
  ordered : s.log.Pairwise Ordered
  once : s.log.Nodup
  fresh : ∀ i, s.next ≤ i → (s.calls i).phase = .absent

/-! ## What a step keeps -/

/-- A call that a step does not touch. -/
structure Untouched (s t : Session) (i : Nat) : Prop where
  calls : t.calls i = s.calls i
  log : ∀ e, e.call = some i → (e ∈ t.log ↔ e ∈ s.log)
  lock : t.lock = some (.call i) ↔ s.lock = some (.call i)
  live : (s.calls i).phase = .delivering → t.ended = s.ended
  ended : s.ended = true → t.ended = true
  writer : s.writerAlive = false → t.writerAlive = false
  closed : s.shutdown = .closed → t.shutdown = .closed

theorem agrees_untouched {s t : Session} {i : Nat} (untouched : Untouched s t i)
    (agrees : Agrees s i) : Agrees t i := by
  obtain ⟨calls, log, lock, live, ended, writer, closed⟩ := untouched
  constructor
  · rw [lock, calls]
    exact agrees.holds
  · rw [calls]
    intro delivering
    rw [live delivering]
    exact agrees.live delivering
  · rw [calls]
    exact fun refusing => ended (agrees.refusing refusing)
  · rw [log _ rfl, calls]
    exact agrees.declared
  · rw [log _ rfl, calls]
    exact agrees.returned
  · rw [log _ rfl, calls]
    exact agrees.unreserved
  · rw [calls]
    exact agrees.cell
  · intro t'
    rw [log _ rfl, log _ rfl, calls]
    exact agrees.sent t'
  · rw [calls]
    exact agrees.finished
  · intro t' member
    rw [log _ rfl] at member
    exact writer (agrees.lost t' member)
  · rw [calls]
    exact fun aborted => closed (agrees.aborted aborted)

/-- An event of another call is no news. -/
theorem mem_concat_other {log : List Event} {e e' : Event} {i : Nat} (mine : e.call = some i)
    (other : e'.call ≠ some i) : e ∈ log ++ [e'] ↔ e ∈ log := by
  rw [List.mem_append, List.mem_singleton]
  constructor
  · rintro (old | rfl)
    · exact old
    · exact absurd mine other
  · exact .inl

theorem setCall_self (s : Session) (i : Nat) (c : Call) : (s.setCall i c).calls i = c :=
  Function.update_self ..

theorem setCall_other {s : Session} {i j : Nat} (c : Call) (other : j ≠ i) :
    (s.setCall i c).calls j = s.calls j :=
  Function.update_of_ne other ..

/-- A step of one call, and what it logs. -/
structure Acts (s t : Session) (i : Nat) (news : Option Event) : Prop where
  known : (s.calls i).phase ≠ .absent
  calls : ∀ j, j ≠ i → t.calls j = s.calls j
  log : t.log = s.log ++ news.toList
  mine : ∀ e, news = some e → e.call = some i
  lock : ∀ h, h ≠ .call i → (t.lock = some h ↔ s.lock = some h)
  ended : t.ended = s.ended
  shutdown : t.shutdown = s.shutdown
  writer : t.writerAlive = s.writerAlive
  next : t.next = s.next

theorem untouched_acts {s t : Session} {i j : Nat} {news : Option Event} (acts : Acts s t i news)
    (other : j ≠ i) : Untouched s t j := by
  constructor
  · exact acts.calls j other
  · intro e mine
    rw [acts.log]
    cases same : news with
    | none => rw [Option.toList_none, List.append_nil]
    | some e' =>
      apply mem_concat_other mine
      rw [acts.mine e' same]
      intro equal
      exact other (Option.some.inj equal).symm
  · apply acts.lock
    intro equal
    exact other (Holder.call.inj equal)
  · exact fun _ => acts.ended
  · intro ended
    rw [acts.ended]
    exact ended
  · intro gone
    rw [acts.writer]
    exact gone
  · intro closed
    rw [acts.shutdown]
    exact closed

theorem inv_acts {s t : Session} {i : Nat} {news : Option Event} (inv : Inv s)
    (acts : Acts s t i news) (agrees : Agrees t i) (new : ∀ e, news = some e → e ∉ s.log)
    (early : ∀ k, news = some (.declared k) → s.ended = false) : Inv t := by
  have notEnd : ∀ e, news = some e → e ≠ .ended := by
    intro e same equal
    have mine := acts.mine e same
    rw [equal] at mine
    cases mine
  constructor
  · intro j
    by_cases same : j = i
    · rw [same]
      exact agrees
    · exact agrees_untouched (untouched_acts acts same) (inv.agrees j)
  · rw [acts.lock .shutdown (by nofun), acts.shutdown]
    exact inv.shutdownHolds
  · rw [acts.ended, acts.shutdown]
    exact inv.flag
  · rw [acts.log, acts.ended, ← inv.logged, List.mem_append]
    constructor
    · rintro (old | here)
      · exact old
      · exact absurd rfl (notEnd _ (Option.mem_toList.mp here))
    · exact .inl
  · rw [acts.log, List.pairwise_append]
    refine ⟨inv.ordered, ?_, ?_⟩
    · cases news with
      | none => exact .nil
      | some e => exact List.pairwise_singleton ..
    · intro a old b here
      have same := Option.mem_toList.mp here
      refine ⟨?_, fun end' => absurd end' (notEnd b same)⟩
      rintro rfl k rfl
      have live := early k same
      rw [inv.logged.mp old] at live
      cases live
  · rw [acts.log, List.nodup_append]
    refine ⟨inv.once, ?_, ?_⟩
    · cases news with
      | none => exact .nil
      | some e => exact List.pairwise_singleton ..
    · intro a old b here equal
      rw [equal] at old
      exact new b (Option.mem_toList.mp here) old
  · intro j beyond
    rw [acts.next] at beyond
    have absent := inv.fresh j beyond
    have other : j ≠ i := by
      rintro rfl
      exact acts.known absent
    rw [acts.calls j other]
    exact absent

/-- The other calls, and all that a handler has no part in, stay. -/
theorem acts_setCall {s : Session} {i : Nat} (known : (s.calls i).phase ≠ .absent) (c : Call)
    (lock : Option Holder) (news : Option Event)
    (keeps : ∀ h, h ≠ .call i → (lock = some h ↔ s.lock = some h))
    (mine : ∀ e, news = some e → e.call = some i) :
    Acts s { s.setCall i c with lock := lock, log := s.log ++ news.toList } i news :=
  ⟨known, fun _ other => setCall_other c other, rfl, mine, keeps, rfl, rfl, rfl, rfl⟩

attribute [local simp] Phase.holds Phase.accepted Phase.refused Phase.unreserved Phase.terminal
  Phase.isFinished

/-- A handler's statement, given what it does to its own call. -/
theorem inv_setCall {s : Session} {i : Nat} (inv : Inv s) (c : Call) (lock : Option Holder)
    (news : Option Event) (known : (s.calls i).phase ≠ .absent)
    (keeps : ∀ h, h ≠ .call i → (lock = some h ↔ s.lock = some h))
    (mine : ∀ e, news = some e → e.call = some i ∧ e ∉ s.log)
    (early : ∀ k, news = some (.declared k) → s.ended = false)
    (agrees : Agrees { s.setCall i c with lock := lock, log := s.log ++ news.toList } i) :
    Inv { s.setCall i c with lock := lock, log := s.log ++ news.toList } :=
  inv_acts inv (acts_setCall known c lock news keeps fun e same => (mine e same).1) agrees
    (fun e same => (mine e same).2) early

/-- While a call holds the lock, nobody else does. -/
theorem keeps_held {s : Session} {i : Nat} (held : s.lock = some (.call i)) (lock : Option Holder)
    (after : lock = none ∨ lock = some (.call i)) :
    ∀ h, h ≠ .call i → (lock = some h ↔ s.lock = some h) := by
  intro h other
  rw [held]
  constructor
  · rintro rfl
    rcases after with after | after
    · cases after
    · exact absurd (Option.some.inj after) other
  · intro same
    exact absurd (Option.some.inj same).symm other

theorem callStep_inv {s t : Session} {i : Nat} (inv : Inv s)
    (taken : callStep s i (s.calls i) = some t) : Inv t := by
  obtain ⟨holds, live, refusing, declared, returned, unreserved, cell, sent, finished, lost,
    aborted⟩ := inv.agrees i
  have same (h : Holder) : s.lock = some h ↔ s.lock = some h := Iff.rfl
  rw [callStep] at taken
  cases phase : (s.calls i).phase with
  | absent =>
    rw [phase] at taken
    cases taken
  | idle =>
    rw [phase] at taken holds live refusing declared returned unreserved cell sent finished
    dsimp only at taken
    split at taken
    · rename_i free
      cases taken
      have next := inv_setCall (i := i) inv { s.calls i with phase := .checking } (some (.call i)) none
      rw [Option.toList_none, List.append_nil] at next
      apply next
      · rw [phase]
        nofun
      · intro h other
        rw [free]
        exact ⟨fun same => absurd (Option.some.inj same).symm other, nofun⟩
      · nofun
      · nofun
      · constructor <;> simp_all [Session.setCall]
    · cases taken
  | checking =>
    rw [phase] at taken holds live refusing declared returned unreserved cell sent finished
    have held := holds.mpr rfl
    cases taken
    have next := inv_setCall (i := i) inv
      { s.calls i with phase := if s.ended then .releasing false else .delivering } s.lock none
    rw [Option.toList_none, List.append_nil] at next
    apply next
    · rw [phase]
      nofun
    · exact fun h _ => same h
    · nofun
    · nofun
    · cases ended : s.ended with
      | false => constructor <;> simp_all [Session.setCall]
      | true => constructor <;> simp_all [Session.setCall]
  | delivering =>
    rw [phase] at taken holds live refusing declared returned unreserved cell sent finished
    cases taken
    apply inv_setCall (i := i) inv { s.calls i with phase := .releasing true, cell := some .jobs } s.lock
      (some (.declared i))
    · rw [phase]
      nofun
    · exact fun h _ => same h
    · intro e here
      cases here
      refine ⟨rfl, ?_⟩
      rw [declared]
      nofun
    · exact fun _ _ => live rfl
    · constructor <;> simp_all [Session.setCall]
  | releasing ok =>
    rw [phase] at taken holds live refusing declared returned unreserved cell sent finished
    have held := holds.mpr rfl
    cases taken
    cases ok with
    | true =>
      have next := inv_setCall (i := i) inv { s.calls i with phase := .answered true } none none
      rw [Option.toList_none, List.append_nil] at next
      apply next
      · rw [phase]
        nofun
      · exact keeps_held held _ (.inl rfl)
      · nofun
      · nofun
      · constructor <;> simp_all [Session.setCall]
    | false =>
      apply inv_setCall (i := i) inv { s.calls i with phase := .answered false } none (some (.returned i))
      · rw [phase]
        nofun
      · exact keeps_held held _ (.inl rfl)
      · intro e here
        cases here
        refine ⟨rfl, ?_⟩
        rw [returned]
        nofun
      · nofun
      · constructor <;> simp_all [Session.setCall]
  | answered ok =>
    rw [phase] at taken holds live refusing declared returned unreserved cell sent finished
    cases ok with
    | true =>
      cases taken
      have next := inv_setCall (i := i) inv { s.calls i with phase := .finished true } s.lock none
      rw [Option.toList_none, List.append_nil] at next
      apply next
      · rw [phase]
        nofun
      · exact fun h _ => same h
      · nofun
      · nofun
      · constructor <;> simp_all [Session.setCall]
    | false =>
      cases taken
      apply inv_setCall (i := i) inv { s.calls i with phase := .undone } s.lock (some (.unreserved i))
      · rw [phase]
        nofun
      · exact fun h _ => same h
      · intro e here
        cases here
        refine ⟨rfl, ?_⟩
        rw [unreserved]
        nofun
      · nofun
      · constructor <;> simp_all [Session.setCall]
  | undone =>
    rw [phase] at taken holds live refusing declared returned unreserved cell sent finished
    cases taken
    have next := inv_setCall (i := i) inv
      { s.calls i with phase := .finished false, cell := some .cancelled } s.lock none
    rw [Option.toList_none, List.append_nil] at next
    apply next
    · rw [phase]
      nofun
    · exact fun h _ => same h
    · nofun
    · nofun
    · constructor <;> simp_all [Session.setCall]
  | finished ok =>
    rw [phase] at taken
    cases taken

theorem superviseStep_inv {s t : Session} {i : Nat} (inv : Inv s)
    (taken : superviseStep s i (s.calls i) = some t) : Inv t := by
  obtain ⟨holds, live, refusing, declared, returned, unreserved, cell, sent, finished, lost,
    aborted⟩ := inv.agrees i
  rw [superviseStep] at taken
  split at taken
  · rename_i ok phase waiting
    rw [phase] at holds live refusing declared returned unreserved cell sent finished
    have declaredCell := cell (by rw [waiting]; nofun)
    cases taken
    apply inv_setCall (i := i) inv { s.calls i with cell := none, supervisor := .sent } s.lock
      (some _)
    · rw [phase]
      nofun
    · exact fun _ _ => Iff.rfl
    · intro e here
      cases here
      have unsent (t : Terminal) : ¬(.enqueued i t ∈ s.log ∨ .lost i t ∈ s.log) := by
        rw [sent, waiting]
        nofun
      cases s.writerAlive with
      | true => exact ⟨rfl, fun member => unsent _ (.inl member)⟩
      | false => exact ⟨rfl, fun member => unsent _ (.inr member)⟩
    · intro k same
      cases alive : s.writerAlive <;> rw [alive] at same <;> cases same
    · cases alive : s.writerAlive with
      | true => cases ok <;> constructor <;> simp_all [Session.setCall] <;> grind
      | false => cases ok <;> constructor <;> simp_all [Session.setCall] <;> grind
  · cases taken

theorem abortSupervisor_phase (c : Call) : (abortSupervisor c).phase = c.phase := by
  rw [abortSupervisor]
  split
  · rfl
  · rfl

/-- Aborting a supervisor that waits leaves what has been declared and sent. -/
theorem agrees_abort {s : Session} (inv : Inv s) (i : Nat) :
    Agrees { s with calls := fun i => abortSupervisor (s.calls i), shutdown := .closed } i := by
  have agrees := inv.agrees i
  by_cases waiting : (s.calls i).supervisor = .waiting
  · have call : abortSupervisor (s.calls i) = { s.calls i with supervisor := .aborted } :=
      if_pos waiting
    have unsent (t : Terminal) : ¬(.enqueued i t ∈ s.log ∨ .lost i t ∈ s.log) := by
      rw [agrees.sent, waiting]
      nofun
    constructor
    all_goals dsimp only
    any_goals rw [call]
    · exact agrees.holds
    · exact agrees.live
    · exact agrees.refusing
    · exact agrees.declared
    · exact agrees.returned
    · exact agrees.unreserved
    · intro _
      exact agrees.cell (by rw [waiting]; nofun)
    · intro t
      exact ⟨fun sent => absurd sent (unsent t), fun sent => absurd sent.1 (by nofun)⟩
    · nofun
    · exact agrees.lost
    · exact fun _ => rfl
  · have call : abortSupervisor (s.calls i) = s.calls i := if_neg waiting
    apply agrees_untouched _ agrees
    constructor
    · exact call
    · exact fun _ _ => Iff.rfl
    · exact Iff.rfl
    · exact fun _ => rfl
    · exact id
    · exact id
    · exact fun _ => rfl

/-- A statement of the shutdown that touches no call. -/
theorem untouched_shutdown {s t : Session} (inv : Inv s) (calls : t.calls = s.calls)
    (log : t.log = s.log ∨ t.log = s.log ++ [.ended])
    (lock : ∀ i, t.lock = some (.call i) ↔ s.lock = some (.call i))
    (ended : t.ended = s.ended ∨ t.ended = true ∧ s.lock = some .shutdown)
    (writer : t.writerAlive = s.writerAlive) (opened : s.shutdown ≠ .closed)
    (i : Nat) : Agrees t i := by
  apply agrees_untouched _ (inv.agrees i)
  constructor
  · rw [calls]
  · intro e mine
    rcases log with same | more
    · rw [same]
    · rw [more]
      exact mem_concat_other mine (by nofun)
  · exact lock i
  · intro delivering
    rcases ended with same | ⟨_, held⟩
    · exact same
    · have mine := (inv.agrees i).holds.mpr (by rw [delivering]; rfl)
      rw [held] at mine
      cases mine
  · intro before
    rcases ended with same | ⟨after, _⟩
    · rw [same]
      exact before
    · exact after
  · rw [writer]
    exact id
  · exact fun closed => absurd closed opened

theorem shutdownStep_inv {s t : Session} {expired : Bool} (inv : Inv s)
    (taken : shutdownStep s expired = some t) : Inv t := by
  have ⟨agrees, shutdownHolds, flag, logged, ordered, once, fresh⟩ := inv
  rw [shutdownStep] at taken
  cases phase : s.shutdown with
  | serving =>
    rw [phase] at taken shutdownHolds flag
    dsimp only at taken
    split at taken
    · rename_i free
      cases taken
      refine ⟨untouched_shutdown inv rfl (.inl rfl) ?_ (.inl rfl) rfl (by rw [phase]; nofun),
        ?_, ?_, logged, ordered, once, fresh⟩
      · intro i
        rw [free]
        exact ⟨nofun, nofun⟩
      · exact ⟨fun _ => .inl rfl, fun _ => rfl⟩
      · rw [flag]
        exact ⟨fun both => absurd rfl both.1, fun both => absurd rfl both.2⟩
    · cases taken
  | locking =>
    rw [phase] at taken shutdownHolds flag
    cases taken
    have live : s.ended = false := by
      rw [Bool.eq_false_iff, ne_eq, flag]
      exact fun both => both.2 rfl
    have unlogged : Event.ended ∉ s.log := by
      rw [logged, live]
      nofun
    refine ⟨untouched_shutdown inv rfl (.inr rfl) (fun _ => Iff.rfl)
      (.inr ⟨rfl, shutdownHolds.mpr (.inl rfl)⟩) rfl (by rw [phase]; nofun), ?_, ?_, ?_, ?_, ?_,
      fresh⟩
    · exact ⟨fun _ => .inr rfl, fun _ => shutdownHolds.mpr (.inl rfl)⟩
    · exact ⟨fun _ => ⟨nofun, nofun⟩, fun _ => rfl⟩
    · exact ⟨fun _ => rfl, fun _ => List.mem_append_right _ List.mem_cons_self⟩
    · rw [List.pairwise_append]
      refine ⟨ordered, List.pairwise_singleton .., ?_⟩
      intro a old b new
      rw [List.mem_singleton.mp new]
      refine ⟨fun _ _ => nofun, ?_⟩
      rintro _ i rfl
      have refused := (agrees i).returned.mp old
      rw [(agrees i).refusing (.inr refused)] at live
      cases live
    · rw [List.nodup_append]
      refine ⟨once, List.pairwise_singleton .., ?_⟩
      intro a old b new equal
      rw [equal, List.mem_singleton.mp new] at old
      exact unlogged old
  | setting =>
    rw [phase] at taken shutdownHolds flag
    cases taken
    have held := shutdownHolds.mpr (.inr rfl)
    refine ⟨untouched_shutdown inv rfl (.inl rfl) ?_ (.inl rfl) rfl (by rw [phase]; nofun),
      ?_, ?_, logged, ordered, once, fresh⟩
    · intro i
      rw [held]
      exact ⟨nofun, nofun⟩
    · exact ⟨nofun, fun other => by rcases other with other | other <;> cases other⟩
    · rw [flag]
      exact ⟨fun _ => ⟨nofun, nofun⟩, fun _ => ⟨nofun, nofun⟩⟩
  | draining =>
    rw [phase] at taken shutdownHolds flag
    have unheld : s.lock ≠ some .shutdown := by
      intro held
      rcases shutdownHolds.mp held with other | other <;> cases other
    have closed : s.ended = true := flag.mpr ⟨nofun, nofun⟩
    have holds : ∀ t : Session, t.lock = s.lock → t.shutdown = .closed →
        (t.lock = some .shutdown ↔ t.shutdown = .locking ∨ t.shutdown = .setting) := by
      intro t lock shutdown
      rw [lock, shutdown]
      exact ⟨fun held => absurd held unheld,
        fun other => by rcases other with other | other <;> cases other⟩
    dsimp only at taken
    split at taken
    · cases taken
      refine ⟨agrees_abort inv, holds _ rfl rfl, ?_, logged, ordered, once, ?_⟩
      · exact ⟨fun _ => ⟨nofun, nofun⟩, fun _ => closed⟩
      · intro i beyond
        dsimp only
        rw [abortSupervisor_phase]
        exact fresh i beyond
    · split at taken
      · cases taken
        refine ⟨untouched_shutdown inv rfl (.inl rfl) (fun _ => Iff.rfl) (.inl rfl) rfl
          (by rw [phase]; nofun), holds _ rfl rfl, ?_, logged, ordered, once, fresh⟩
        exact ⟨fun _ => ⟨nofun, nofun⟩, fun _ => closed⟩
      · cases taken
  | closed =>
    rw [phase] at taken
    cases taken

theorem submit_inv {s : Session} (inv : Inv s) :
    Inv { s.setCall s.next ⟨.idle, none, .waiting⟩ with next := s.next + 1 } := by
  have ⟨agrees, shutdownHolds, flag, logged, ordered, once, fresh⟩ := inv
  have absent := fresh s.next (Nat.le_refl _)
  refine ⟨?_, shutdownHolds, flag, logged, ordered, once, ?_⟩
  · intro i
    by_cases same : i = s.next
    · subst same
      obtain ⟨holds, live, refusing, declared, returned, unreserved, cell, sent, finished, lost,
        aborted⟩ := agrees s.next
      rw [absent] at holds live refusing declared returned unreserved cell sent finished
      constructor
      all_goals dsimp only
      any_goals rw [setCall_self]
      · exact holds
      · nofun
      · nofun
      · exact declared
      · exact returned
      · exact unreserved
      · exact fun _ => rfl
      · intro t
        constructor
        · intro member
          exact absurd ((sent t).mp member).2 (by nofun)
        · nofun
      · nofun
      · exact lost
      · nofun
    · apply agrees_untouched _ (agrees i)
      exact ⟨setCall_other _ same, fun _ _ => Iff.rfl, Iff.rfl, fun _ => rfl, id, id, id⟩
  · intro i beyond
    dsimp only at beyond ⊢
    rw [setCall_other _ (by omega)]
    exact fresh i (by omega)

theorem step_inv {s t : Session} {label : Label} (inv : Inv s) (taken : step s label = some t) :
    Inv t := by
  cases label with
  | submit =>
    rw [step] at taken
    split at taken
    · cases taken
      exact submit_inv inv
    · cases taken
  | call i => exact callStep_inv inv taken
  | supervise i => exact superviseStep_inv inv taken
  | shutdown expired => exact shutdownStep_inv inv taken
  | writerGone =>
    cases taken
    have ⟨agrees, shutdownHolds, flag, logged, ordered, once, fresh⟩ := inv
    refine ⟨?_, shutdownHolds, flag, logged, ordered, once, fresh⟩
    intro i
    apply agrees_untouched _ (agrees i)
    exact ⟨rfl, fun _ _ => Iff.rfl, Iff.rfl, fun _ => rfl, id, fun _ => rfl, id⟩

theorem start_inv : Inv .start := by
  refine ⟨?_, ⟨nofun, ?_⟩, ⟨nofun, fun both => absurd rfl both.1⟩, ⟨nofun, nofun⟩, .nil, .nil,
    fun _ _ => rfl⟩
  · intro i
    refine ⟨⟨nofun, nofun⟩, nofun, nofun, ⟨nofun, nofun⟩, ⟨nofun, nofun⟩, ⟨nofun, nofun⟩,
      fun _ => rfl, ?_, nofun, nofun, nofun⟩
    intro t
    constructor
    · rintro (member | member) <;> cases member
    · nofun
  · rintro (other | other) <;> cases other

theorem reached_inv {labels : List Label} {s : Session} (reached : run step .start labels = some s) :
    Inv s :=
  run_always step (fun inv taken => step_inv inv taken) start_inv reached

/-! ## What was handed over -/

def Before (log : List Event) (a b : Event) : Prop :=
  ∃ l m r, log = l ++ a :: m ++ b :: r

/-- What holds of every call, however the calls and the end of the session interleave. -/
structure HandedOver (s : Session) : Prop where
  /-- Never both. -/
  exclusive : ∀ i, ¬(.declared i ∈ s.log ∧ .returned i ∈ s.log)
  /-- Nothing twice. -/
  once : s.log.Nodup
  /-- Never neither: an answer of `hand_off` says which. -/
  answers : ∀ i ok, (s.calls i).phase = .answered ok →
    (ok = true ↔ .declared i ∈ s.log) ∧ (ok = false ↔ .returned i ∈ s.log)
  finishes : ∀ i ok, (s.calls i).phase = .finished ok →
    (ok = true ↔ .declared i ∈ s.log) ∧ (ok = false ↔ .returned i ∈ s.log)
  /-- Declared before the session ended, returned after. -/
  early : ∀ i, ¬Before s.log .ended (.declared i)
  late : ∀ i, .returned i ∈ s.log → Before s.log .ended (.returned i)
  /-- Compensated for exactly what was returned. -/
  compensates : ∀ i, .unreserved i ∈ s.log → .returned i ∈ s.log
  compensated : ∀ i ok, (s.calls i).phase = .finished ok →
    (.unreserved i ∈ s.log ↔ .returned i ∈ s.log)
  /-- The supervisor sends the jobs of what was declared and of nothing else, unless it was aborted
  past the drain deadline or the writer is gone. -/
  sends : ∀ i, .enqueued i .jobs ∈ s.log → .declared i ∈ s.log
  sent : ∀ i, .declared i ∈ s.log → (s.calls i).supervisor = .waiting ∨
    .enqueued i .jobs ∈ s.log ∨ (.lost i .jobs ∈ s.log ∧ s.writerAlive = false) ∨
    ((s.calls i).supervisor = .aborted ∧ s.shutdown = .closed)

theorem ordered_before {log : List Event} (ordered : log.Pairwise Ordered) {a b : Event}
    (before : Before log a b) : Ordered a b := by
  obtain ⟨l, m, r, rfl⟩ := before
  rw [List.append_assoc, List.pairwise_append] at ordered
  have tail := List.pairwise_cons.mp ordered.2.1
  exact tail.1 b (List.mem_append_right _ List.mem_cons_self)

theorem before_or_after {log : List Event} {a b : Event} (first : a ∈ log) (second : b ∈ log)
    (other : a ≠ b) : Before log a b ∨ Before log b a := by
  obtain ⟨l, r, rfl⟩ := List.append_of_mem first
  rcases List.mem_append.mp second with left | right
  · obtain ⟨l', m, rfl⟩ := List.append_of_mem left
    exact .inr ⟨l', m, r, rfl⟩
  · rcases List.mem_cons.mp right with same | later
    · exact absurd same.symm other
    · obtain ⟨m, r', rfl⟩ := List.append_of_mem later
      exact .inl ⟨l, m, r', by rw [List.append_assoc]; rfl⟩

theorem refused_of_unreserved {p : Phase} (unreserved : p.unreserved = true) : p.refused = true := by
  cases p with
  | undone => rfl
  | finished ok =>
    cases ok with
    | false => rfl
    | true => cases unreserved
  | _ => cases unreserved

theorem terminal_jobs (p : Phase) : p.terminal = some .jobs ↔ p.accepted = true := by
  cases p with
  | releasing ok => cases ok <;> simp
  | answered ok => cases ok <;> simp
  | finished ok => cases ok <;> simp
  | _ => simp

theorem not_both {p : Phase} (accepted : p.accepted = true) : p.refused = false := by
  cases p with
  | releasing ok => rfl
  | answered ok => cases ok <;> simp_all
  | finished ok => cases ok <;> simp_all
  | _ => cases accepted

theorem handedOver_of_inv {s : Session} (inv : Inv s) : HandedOver s := by
  have agrees := inv.agrees
  have verdict (i : Nat) (ok : Bool) (phase : (s.calls i).phase = .answered ok ∨
      (s.calls i).phase = .finished ok) :
      (ok = true ↔ .declared i ∈ s.log) ∧ (ok = false ↔ .returned i ∈ s.log) := by
    rw [(agrees i).declared, (agrees i).returned]
    rcases phase with phase | phase
    · rw [phase]
      cases ok <;> simp
    · rw [phase]
      cases ok <;> simp
  constructor
  · intro i both
    rw [(agrees i).declared, (agrees i).returned] at both
    rw [not_both both.1] at both
    cases both.2
  · exact inv.once
  · exact fun i ok phase => verdict i ok (.inl phase)
  · exact fun i ok phase => verdict i ok (.inr phase)
  · intro i before
    exact (ordered_before inv.ordered before).1 rfl i rfl
  · intro i member
    have refused := (agrees i).returned.mp member
    have ended := inv.logged.mpr ((agrees i).refusing (.inr refused))
    rcases before_or_after ended member nofun with before | before
    · exact before
    · exact absurd rfl ((ordered_before inv.ordered before).2 rfl i)
  · intro i member
    rw [(agrees i).returned]
    exact refused_of_unreserved ((agrees i).unreserved.mp member)
  · intro i ok phase
    rw [(agrees i).returned, (agrees i).unreserved, phase]
    cases ok <;> simp
  · intro i member
    have terminal := (((agrees i).sent .jobs).mp (.inl member)).2
    rw [(agrees i).declared]
    exact (terminal_jobs _).mp terminal
  · intro i member
    have terminal := (terminal_jobs _).mpr ((agrees i).declared.mp member)
    cases supervisor : (s.calls i).supervisor with
    | waiting => exact .inl rfl
    | sent =>
      rcases ((agrees i).sent .jobs).mpr ⟨supervisor, terminal⟩ with enqueued | lost
      · exact .inr (.inl enqueued)
      · exact .inr (.inr (.inl ⟨lost, (agrees i).lost _ lost⟩))
    | aborted => exact .inr (.inr (.inr ⟨rfl, (agrees i).aborted supervisor⟩))

/-- Hand-off and the end of the session: declared or returned, and compensated accordingly. -/
theorem handOff_exact (labels : List Label) (s : Session)
    (reached : run step .start labels = some s) : HandedOver s :=
  handedOver_of_inv (reached_inv reached)

/-- A call that is accepted just before the session ends, and whose supervisor is then aborted. -/
def acceptedAtTheEnd : List Label :=
  [.submit, .call 0, .call 0, .call 0, .call 0, .shutdown false, .shutdown false, .shutdown false,
    .call 0, .shutdown true]

theorem handOff_exact_acceptedAtTheEnd :
    ∃ s, run step .start acceptedAtTheEnd = some s ∧ HandedOver s :=
  ⟨_, rfl, handOff_exact acceptedAtTheEnd _ rfl⟩

/-- The terminal is neither on the writer's channel nor back with the caller. -/
theorem acceptedAtTheEnd_unsent :
    ∃ (labels : List Label) (s : Session), run step .start labels = some s ∧
      (s.calls 0).phase = .finished true ∧ s.shutdown = .closed ∧ .ended ∈ s.log ∧
      .returned 0 ∉ s.log ∧ (∀ t, .enqueued 0 t ∉ s.log) ∧ step s (.supervise 0) = none := by
  refine ⟨acceptedAtTheEnd, _, rfl, rfl, rfl, ?_, ?_, ?_, rfl⟩
  · change Event.ended ∈ [Event.declared 0, .ended]
    decide
  · change Event.returned 0 ∉ [Event.declared 0, .ended]
    decide
  · intro t
    change Event.enqueued 0 t ∉ [Event.declared 0, .ended]
    intro member
    simp at member

end FerroEngine.SessionHandOff
