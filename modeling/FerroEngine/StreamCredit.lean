import Mathlib.Algebra.Ring.Nat
import FerroEngine.InboundChannel
import FerroEngine.LabelledRuns

set_option autoImplicit false

/-! # The credit of a stream

`CreditCell` of `session/flow.rs`: a window behind a mutex and a `Notify`, one producer that waits
for it in `debit_or_wait`, and the reader loop that replenishes it. A replenishment adds its credit
and notifies in two steps.
-/

namespace FerroEngine.StreamCredit

open InboundChannel LabelledRuns

inductive WaitAborted where
  | cancelled
  | deadline
  deriving DecidableEq, Repr

/-- How a call of `debit_or_wait` ended. -/
inductive Ending where
  | debited
  | aborted (why : WaitAborted)
  /-- The future was dropped at its await. -/
  | dropped
  deriving DecidableEq, Repr

inductive Phase where
  | idle
  | checking (bytes : Nat)
  | registering (bytes : Nat)
  | rechecking (bytes : Nat)
  /-- The `select!` is about to be polled for the first time. -/
  | selecting (bytes : Nat)
  /-- The waiter is in the list of the `Notify`, and whether it has been notified. -/
  | parked (bytes : Nat) (notified : Bool)
  deriving DecidableEq, Repr

structure State where
  credit : Credit
  /-- The permit that `notify_one` stores when nobody is parked. -/
  stored : Bool
  /-- Replenishments that have added their credit and not yet notified. -/
  notifying : Nat
  phase : Phase
  cancelled : Bool
  expired : Bool
  /-- Every call that has ended, with its bytes, the last one first. -/
  calls : List (Nat × Ending)
  /-- What the replenishments brought, and what of it did not fit the window. -/
  brought : Credit
  lost : Credit
  deriving DecidableEq, Repr

def State.start (seed : Credit) : State :=
  { credit := seed, stored := false, notifying := 0, phase := .idle, cancelled := false,
    expired := false, calls := [], brought := ⟨0, 0⟩, lost := ⟨0, 0⟩ }

inductive Label where
  | calls (bytes : Nat)
  /-- The producer's next step. -/
  | runs
  | drops
  | replenishes (frames bytes : Nat)
  | notifies
  | cancels
  | expires
  deriving DecidableEq, Repr

namespace State

def ends (s : State) (bytes : Nat) (ending : Ending) : State :=
  { s with phase := .idle, calls := (bytes, ending) :: s.calls }

/-- `try_debit`, and where the loop goes when it fails. -/
def debits (s : State) (bytes : Nat) (otherwise : Phase) : State :=
  match s.credit.tryDebit bytes with
  | some credit => { s with credit := credit }.ends bytes .debited
  | none => { s with phase := otherwise }

/-- A `Notified` that is dropped hands its notification on. -/
def handsOn (s : State) (notified : Bool) : State :=
  { s with stored := s.stored || notified }

/-- Cancellation wins over the deadline, and both over the notification. -/
def selects (s : State) (bytes : Nat) (notified : Bool) (otherwise : State) : State :=
  if s.cancelled then (s.handsOn notified).ends bytes (.aborted .cancelled)
  else if s.expired then (s.handsOn notified).ends bytes (.aborted .deadline)
  else otherwise

def replenishes (s : State) (frames bytes : Nat) : State :=
  let credit := s.credit.replenish frames bytes
  { s with
    credit := credit
    notifying := s.notifying + 1
    brought := ⟨s.brought.frames + frames, s.brought.bytes + bytes⟩
    lost := ⟨s.lost.frames + (s.credit.frames + frames - credit.frames),
      s.lost.bytes + (s.credit.bytes + bytes - credit.bytes)⟩ }

/-- `notify_one`. -/
def notifyOne (s : State) : State :=
  match s.phase with
  | .parked bytes false => { s with phase := .parked bytes true }
  | _ => { s with stored := true }

end State

def producerStep (s : State) : Option State :=
  match s.phase with
  | .idle => none
  | .checking bytes => some (s.debits bytes (.registering bytes))
  | .registering bytes => some { s with phase := .rechecking bytes }
  | .rechecking bytes => some (s.debits bytes (.selecting bytes))
  | .selecting bytes =>
    some (s.selects bytes false
      (if s.stored then { s with stored := false, phase := .checking bytes }
        else { s with phase := .parked bytes false }))
  | .parked bytes notified =>
    some (s.selects bytes notified (if notified then { s with phase := .checking bytes } else s))

def step (s : State) : Label → Option State
  | .calls bytes => if s.phase = .idle then some { s with phase := .checking bytes } else none
  | .runs => producerStep s
  | .drops =>
    match s.phase with
    | .parked bytes notified => some ((s.handsOn notified).ends bytes .dropped)
    | _ => none
  | .replenishes frames bytes => some (s.replenishes frames bytes)
  | .notifies =>
    if 0 < s.notifying then some { s with notifying := s.notifying - 1 }.notifyOne else none
  | .cancels => some { s with cancelled := true }
  | .expires => some { s with expired := true }

/-! ## What was debited -/

def debitedFrames (calls : List (Nat × Ending)) : Nat :=
  (calls.filter fun call => call.2 = .debited).length

def debitedBytes (calls : List (Nat × Ending)) : Nat :=
  ((calls.filter fun call => call.2 = .debited).map Prod.fst).sum

/-- The window has a frame and the bytes for it. -/
def Fits (c : Credit) (bytes : Nat) : Prop :=
  0 < c.frames ∧ bytes ≤ c.bytes

instance (c : Credit) (bytes : Nat) : Decidable (Fits c bytes) :=
  inferInstanceAs (Decidable (_ ∧ _))

theorem tryDebit_cases (c : Credit) (bytes : Nat) :
    (Fits c bytes ∧ c.tryDebit bytes = some ⟨c.frames - 1, c.bytes - bytes⟩) ∨
      (¬ Fits c bytes ∧ c.tryDebit bytes = none) := by
  rw [Credit.tryDebit, Fits]
  by_cases short : c.frames = 0 ∨ c.bytes < bytes
  · rw [if_pos short]
    exact .inr ⟨by omega, rfl⟩
  · rw [if_neg short]
    exact .inl ⟨by omega, rfl⟩

/-! ## Steps -/

/-- The window and the accounts stay, and no call ends with a debit. -/
structure Quiet (s t : State) : Prop where
  credit : t.credit = s.credit
  brought : t.brought = s.brought
  lost : t.lost = s.lost
  calls : t.calls = s.calls ∨
    ∃ bytes ending, ending ≠ .debited ∧ t.calls = (bytes, ending) :: s.calls

def State.spent (s : State) (bytes : Nat) : State :=
  { s with credit := ⟨s.credit.frames - 1, s.credit.bytes - bytes⟩ }.ends bytes .debited

theorem debits_cases (s : State) (bytes : Nat) (otherwise : Phase) :
    (Fits s.credit bytes ∧ s.debits bytes otherwise = s.spent bytes) ∨
      (¬ Fits s.credit bytes ∧ s.debits bytes otherwise = { s with phase := otherwise }) := by
  rcases tryDebit_cases s.credit bytes with ⟨fits, debit⟩ | ⟨short, debit⟩
  · rw [State.debits, debit]
    exact .inl ⟨fits, rfl⟩
  · rw [State.debits, debit]
    exact .inr ⟨short, rfl⟩

theorem selects_cases (s : State) (bytes : Nat) (notified : Bool) (otherwise : State) :
    s.selects bytes notified otherwise = otherwise ∨
      ∃ why, s.selects bytes notified otherwise =
        (s.handsOn notified).ends bytes (.aborted why) := by
  rw [State.selects]
  split
  · exact .inr ⟨.cancelled, rfl⟩
  split
  · exact .inr ⟨.deadline, rfl⟩
  · exact .inl rfl

theorem quiet_ends (s : State) (bytes : Nat) (notified : Bool) {ending : Ending}
    (kept : ending ≠ .debited) : Quiet s ((s.handsOn notified).ends bytes ending) :=
  ⟨rfl, rfl, rfl, .inr ⟨bytes, ending, kept, rfl⟩⟩

theorem quiet_phase (s : State) (phase : Phase) (stored : Bool) :
    Quiet s { s with phase := phase, stored := stored } :=
  ⟨rfl, rfl, rfl, .inl rfl⟩

theorem quiet_notifyOne (s : State) (notifying : Nat) :
    Quiet s { s with notifying := notifying }.notifyOne := by
  rw [State.notifyOne]
  split
  · exact ⟨rfl, rfl, rfl, .inl rfl⟩
  · exact ⟨rfl, rfl, rfl, .inl rfl⟩

theorem producerStep_effect {s t : State} (taken : producerStep s = some t) :
    Quiet s t ∨ ∃ bytes, Fits s.credit bytes ∧ t = s.spent bytes := by
  rw [producerStep] at taken
  split at taken
  · cases taken
  · rename_i bytes _
    cases taken
    rcases debits_cases s bytes (.registering bytes) with ⟨fits, spent⟩ | ⟨-, waits⟩
    · exact .inr ⟨bytes, fits, spent⟩
    · rw [waits]
      exact .inl (quiet_phase s _ s.stored)
  · cases taken
    exact .inl (quiet_phase s _ s.stored)
  · rename_i bytes _
    cases taken
    rcases debits_cases s bytes (.selecting bytes) with ⟨fits, spent⟩ | ⟨-, waits⟩
    · exact .inr ⟨bytes, fits, spent⟩
    · rw [waits]
      exact .inl (quiet_phase s _ s.stored)
  · rename_i bytes _
    cases taken
    left
    rcases selects_cases s bytes false _ with same | ⟨why, aborts⟩
    · rw [same]
      split
      · exact quiet_phase s _ false
      · exact quiet_phase s _ s.stored
    · rw [aborts]
      exact quiet_ends s bytes false Ending.noConfusion
  · rename_i bytes notified _
    cases taken
    left
    rcases selects_cases s bytes notified _ with same | ⟨why, aborts⟩
    · rw [same]
      split
      · exact quiet_phase s _ s.stored
      · exact ⟨rfl, rfl, rfl, .inl rfl⟩
    · rw [aborts]
      exact quiet_ends s bytes notified Ending.noConfusion

/-- Everything that a step can do to the window. -/
theorem step_effect {s t : State} {a : Label} (taken : step s a = some t) :
    Quiet s t ∨ (∃ bytes, Fits s.credit bytes ∧ t = s.spent bytes) ∨
      ∃ frames bytes, t = s.replenishes frames bytes := by
  cases a with
  | calls bytes =>
    rw [step] at taken
    split at taken
    · cases taken
      exact .inl (quiet_phase s _ s.stored)
    · cases taken
  | runs =>
    rcases producerStep_effect taken with quiet | spent
    · exact .inl quiet
    · exact .inr (.inl spent)
  | drops =>
    rw [step] at taken
    split at taken
    · cases taken
      exact .inl (quiet_ends s _ _ Ending.noConfusion)
    · cases taken
  | replenishes frames bytes =>
    cases taken
    exact .inr (.inr ⟨frames, bytes, rfl⟩)
  | notifies =>
    rw [step] at taken
    split at taken
    · cases taken
      exact .inl (quiet_notifyOne s _)
    · cases taken
  | cancels =>
    cases taken
    exact .inl ⟨rfl, rfl, rfl, .inl rfl⟩
  | expires =>
    cases taken
    exact .inl ⟨rfl, rfl, rfl, .inl rfl⟩

/-! ## Conservation -/

/-- Every frame and every byte of the seed and of the replenishments is in the window, debited, or
was cut off by saturation. -/
structure Conserved (seed : Credit) (s : State) : Prop where
  frames : debitedFrames s.calls + s.credit.frames + s.lost.frames =
    seed.frames + s.brought.frames
  bytes : debitedBytes s.calls + s.credit.bytes + s.lost.bytes = seed.bytes + s.brought.bytes

theorem debited_of_quiet {s t : State} (quiet : Quiet s t) :
    debitedFrames t.calls = debitedFrames s.calls ∧ debitedBytes t.calls = debitedBytes s.calls := by
  rcases quiet.calls with same | ⟨bytes, ending, kept, added⟩
  · rw [same]
    exact ⟨rfl, rfl⟩
  · rw [added]
    simp [debitedFrames, debitedBytes, kept]

theorem step_conserved {seed : Credit} {s t : State} {a : Label} (inv : Conserved seed s)
    (taken : step s a = some t) : Conserved seed t := by
  obtain ⟨frames, bytes⟩ := inv
  rcases step_effect taken with quiet | ⟨size, fits, rfl⟩ | ⟨moreFrames, moreBytes, rfl⟩
  · obtain ⟨sameFrames, sameBytes⟩ := debited_of_quiet quiet
    constructor
    · rw [sameFrames, quiet.credit, quiet.lost, quiet.brought]
      exact frames
    · rw [sameBytes, quiet.credit, quiet.lost, quiet.brought]
      exact bytes
  · have spentFrames : debitedFrames (s.spent size).calls = debitedFrames s.calls + 1 := by
      simp [debitedFrames, State.spent, State.ends]
    have spentBytes : debitedBytes (s.spent size).calls = size + debitedBytes s.calls := by
      simp [debitedBytes, State.spent, State.ends]
    obtain ⟨some, enough⟩ := fits
    constructor
    · rw [spentFrames]
      dsimp only [State.spent, State.ends]
      omega
    · rw [spentBytes]
      dsimp only [State.spent, State.ends]
      omega
  · constructor
    · dsimp only [State.replenishes, Credit.replenish]
      omega
    · dsimp only [State.replenishes, Credit.replenish]
      omega

/-- The window stays in the range of its counters. -/
def InRange (s : State) : Prop :=
  s.credit.frames ≤ u32Max ∧ s.credit.bytes ≤ u32Max

theorem step_inRange {s t : State} {a : Label} (inv : InRange s)
    (taken : step s a = some t) : InRange t := by
  rw [InRange] at inv
  rcases step_effect taken with quiet | ⟨size, -, rfl⟩ | ⟨moreFrames, moreBytes, rfl⟩
  · rw [InRange, quiet.credit]
    exact inv
  · dsimp only [InRange, State.spent, State.ends]
    omega
  · dsimp only [InRange, State.replenishes, Credit.replenish]
    omega

/-! ## No lost wake-up -/

/-- A producer that is about to park or parked on a window that fits has a notification coming. -/
def Awake (s : State) : Prop :=
  match s.phase with
  | .selecting bytes => Fits s.credit bytes → 0 < s.notifying ∨ s.stored = true
  | .parked bytes false => Fits s.credit bytes → 0 < s.notifying
  | _ => True

theorem awake_notifyOne {s : State} (notifying : Nat) :
    Awake { s with notifying := notifying }.notifyOne := by
  obtain ⟨credit, stored, _, phase, cancelled, expired, calls, brought, lost⟩ := s
  cases phase with
  | parked bytes notified =>
    cases notified
    · trivial
    · trivial
  | selecting bytes => exact fun _ => .inr rfl
  | _ => trivial

theorem awake_replenishes (s : State) (frames bytes : Nat) : Awake (s.replenishes frames bytes) := by
  obtain ⟨credit, stored, notifying, phase, cancelled, expired, calls, brought, lost⟩ := s
  cases phase with
  | parked size notified =>
    cases notified
    · exact fun _ => Nat.succ_pos notifying
    · trivial
  | selecting size => exact fun _ => .inl (Nat.succ_pos notifying)
  | _ => trivial

theorem producerStep_awake {s t : State} (inv : Awake s) (taken : producerStep s = some t) :
    Awake t := by
  rw [producerStep] at taken
  split at taken
  · cases taken
  · rename_i bytes _
    cases taken
    rcases debits_cases s bytes (.registering bytes) with ⟨-, spent⟩ | ⟨-, waits⟩
    · rw [spent]
      trivial
    · rw [waits]
      trivial
  · cases taken
    trivial
  · rename_i bytes _
    cases taken
    rcases debits_cases s bytes (.selecting bytes) with ⟨-, spent⟩ | ⟨short, waits⟩
    · rw [spent]
      trivial
    · rw [waits]
      exact fun fits => absurd fits short
  · rename_i bytes selecting
    cases taken
    rw [Awake, selecting] at inv
    rcases selects_cases s bytes false _ with same | ⟨why, aborts⟩
    · rw [same]
      split
      · trivial
      · rename_i empty
        intro fits
        rcases inv fits with pending | stored
        · exact pending
        · exact absurd stored empty
    · rw [aborts]
      trivial
  · rename_i bytes notified parked
    cases taken
    rcases selects_cases s bytes notified _ with same | ⟨why, aborts⟩
    · rw [same]
      split
      · trivial
      · exact inv
    · rw [aborts]
      trivial

theorem step_awake {s t : State} {a : Label} (inv : Awake s) (taken : step s a = some t) :
    Awake t := by
  cases a with
  | calls bytes =>
    rw [step] at taken
    split at taken
    · cases taken
      trivial
    · cases taken
  | runs => exact producerStep_awake inv taken
  | drops =>
    rw [step] at taken
    split at taken
    · cases taken
      trivial
    · cases taken
  | replenishes frames bytes =>
    cases taken
    exact awake_replenishes s frames bytes
  | notifies =>
    rw [step] at taken
    split at taken
    · cases taken
      exact awake_notifyOne _
    · cases taken
  | cancels =>
    cases taken
    exact inv
  | expires =>
    cases taken
    exact inv

/-! ## Runs -/

/-- What was debited stays within what was granted, a wait that ended without a debit took nothing,
and a parked producer whose window fits has a notification coming. -/
theorem creditCell_safe {seed : Credit} {labels : List Label} {s : State}
    (range : InRange (.start seed)) (reached : run step (.start seed) labels = some s) :
    InRange s ∧
    (debitedFrames s.calls ≤ seed.frames + s.brought.frames ∧
      debitedBytes s.calls ≤ seed.bytes + s.brought.bytes) ∧
    Conserved seed s ∧
    (∀ a t bytes ending, step s a = some t → t.calls = (bytes, ending) :: s.calls →
      ending ≠ .debited → t.credit = s.credit) ∧
    ∀ bytes, s.phase = .parked bytes false → Fits s.credit bytes → 0 < s.notifying := by
  have conserved : Conserved seed s := by
    refine run_always step (fun inv taken => step_conserved inv taken) ?_ reached
    constructor
    · simp [State.start, debitedFrames]
    · simp [State.start, debitedBytes]
  have awake : Awake s := by
    refine run_always step (fun inv taken => step_awake inv taken) ?_ reached
    trivial
  have frames := conserved.frames
  have bytes := conserved.bytes
  have inRange : InRange s :=
    run_always step (fun inv taken => step_inRange inv taken) range reached
  refine ⟨inRange, ⟨by omega, by omega⟩, conserved, ?_, ?_⟩
  · intro a t size ending taken added kept
    rcases step_effect taken with quiet | ⟨spent, -, rfl⟩ | ⟨moreFrames, moreBytes, rfl⟩
    · exact quiet.credit
    · dsimp only [State.spent, State.ends] at added
      cases added
      exact absurd rfl kept
    · have length := congrArg List.length added
      dsimp only [State.replenishes] at length
      rw [List.length_cons] at length
      omega
  · intro size parked fits
    rw [Awake, parked] at awake
    exact awake fits

/-- A producer that parked on an empty window, between a replenishment and its notification. -/
def parkedRun : List Label :=
  [.calls 5, .runs, .runs, .runs, .runs, .replenishes 1 10]

def parkedState : State :=
  { State.start ⟨0, 0⟩ with
    credit := ⟨1, 10⟩, notifying := 1, phase := .parked 5 false, brought := ⟨1, 10⟩ }

theorem creditCell_safe_parked :
    run step (.start ⟨0, 0⟩) parkedRun = some parkedState ∧ Fits parkedState.credit 5 ∧
      0 < parkedState.notifying := by
  have range : InRange (.start ⟨0, 0⟩) := ⟨Nat.zero_le _, Nat.zero_le _⟩
  have reached : run step (.start ⟨0, 0⟩) parkedRun = some parkedState := by decide
  obtain ⟨-, -, -, -, coming⟩ := creditCell_safe range reached
  have fits : Fits parkedState.credit 5 := by decide
  exact ⟨reached, fits, coming 5 rfl fits⟩

end FerroEngine.StreamCredit
