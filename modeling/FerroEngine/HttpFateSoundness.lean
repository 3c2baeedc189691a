import FerroEngine.HttpExchange

set_option autoImplicit false

/-! # The fate of an HTTP request is sound

The tracker counts every byte that the socket accepted once the connection task is gone, and `sent`
is read only then or where it is already true. So the terminal tells what happened on the wire.
-/

namespace FerroEngine.HttpFateSoundness

open FateMapping (Branch)
open HttpFate hiding classify notSent
open HttpExchange

/-! ## The tracker -/

/-- The tracker is armed and counts `n` bytes of the socket. -/
structure Tracked (track : TrackState) (n : Nat) : Prop where
  armed : track.armed = true
  counts : (if track.tls then track.cipherArmed else track.writtenArmed) = n
  plain : track.tls = false → track.plainSent = decide (0 < track.writtenArmed)

theorem tracked_arm (track : TrackState) : Tracked track.arm 0 := by
  constructor
  · rfl
  · unfold TrackState.arm
    dsimp only
    split_ifs <;> rfl
  · intro _
    rfl

theorem tracked_sent {track : TrackState} {n : Nat} (tracked : Tracked track n) :
    track.sent = decide (0 < n) := by
  have counts := tracked.counts
  unfold TrackState.sent
  split_ifs at counts ⊢ with tls
  · rw [counts]
  · rw [tracked.plain (Bool.eq_false_iff.mpr tls), counts]

theorem tracked_noteSocket {track : TrackState} {n : Nat} (tracked : Tracked track n) (k : Nat) :
    Tracked (track.noteSocket k) (n + k) := by
  obtain ⟨armed, counts, plain⟩ := tracked
  unfold TrackState.noteSocket TrackState.noteCipher TrackState.noteWritten
  rw [if_pos armed, if_pos armed]
  split_ifs with tls zero zero
  · exact ⟨armed, by rw [counts, zero, Nat.add_zero], plain⟩
  · rw [if_pos tls] at counts
    exact ⟨armed, by rw [if_pos tls, counts], fun plaintext => by simp [tls] at plaintext⟩
  · exact ⟨armed, by rw [counts, zero, Nat.add_zero], plain⟩
  · rw [if_neg tls] at counts
    refine ⟨armed, by rw [if_neg tls, counts], fun _ => ?_⟩
    change true = decide (0 < track.writtenArmed + k)
    rw [eq_comm, decide_eq_true_eq]
    omega

/-- Plaintext that TLS takes is not on the socket. -/
theorem tracked_noteWritten {track : TrackState} {n : Nat} (tracked : Tracked track n)
    (tls : track.tls = true) (k : Nat) : Tracked (track.noteWritten k) n := by
  obtain ⟨armed, counts, plain⟩ := tracked
  unfold TrackState.noteWritten
  rw [if_pos armed]
  split_ifs
  · exact ⟨armed, counts, plain⟩
  · rw [if_pos tls] at counts
    exact ⟨armed, by rw [if_pos tls, counts], fun plaintext => by simp [tls] at plaintext⟩

theorem tracked_noteRead {track : TrackState} {n : Nat} (tracked : Tracked track n) (k : Nat) :
    Tracked (track.noteRead k) n :=
  ⟨tracked.armed, tracked.counts, tracked.plain⟩

theorem tracked_noteError {track : TrackState} {n : Nat} (tracked : Tracked track n) (dir : Dir)
    (kind : ErrorKind) : Tracked (track.noteError dir kind) n := by
  unfold TrackState.noteError
  split_ifs
  · exact ⟨tracked.armed, tracked.counts, tracked.plain⟩
  · exact tracked

/-! ## Terminals -/

theorem branch_classify (situation : Situation) (idempotent : Bool) :
    (classify situation idempotent).branch = (HttpFate.classify situation idempotent).branch := by
  unfold classify
  cases HttpFate.classify situation idempotent <;> rfl

theorem branch_nameClientAuthRefusal (t : Terminal) (alert : Option String) :
    (nameClientAuthRefusal t alert).branch = t.branch := by
  cases alert <;> cases t <;> rfl

theorem branch_policy (cause : PolicyCause) (message : Option String) (idempotent : Bool) :
    (policy cause message).branch =
      (HttpFate.classify (.beforeDispatch (.policy cause)) idempotent).branch := rfl

/-! ## The invariant -/

/-- A final head within the bound, delivered after a byte of the request was counted. -/
def answers : Head × Bool → Bool
  | (head, sent) => sent && head.status != 101 && decide (headSize head ≤ maxHeadBytes)

def answered (s : Exchange) : Bool :=
  s.received.any answers

/-- What the situation says of the wire. -/
def Holds (s : Exchange) : Situation → Prop
  | .beforeDispatch _ => s.handed = 0
  | .dispatchedNotSent _ => s.accepted = 0 ∧ s.live = false ∧ answered s = false
  | .sentNoHead _ => 0 < s.accepted ∧ answered s = false
  | .headReceived _ => answered s = true

def Due (s : Exchange) : Prop :=
  match s.phase with
  | .admitting => s.handed = 0
  | .awaiting | .failing _ | .stopping _ _ | .headed _ => s.handed = 1 ∧ s.received = none
  | .early => s.handed = 1 ∧ answered s = false
  | .refusing _ => s.handed = 1 ∧ 0 < s.accepted ∧ answered s = false
  | .delivering | .leaving _ => s.handed = 1 ∧ answered s = true
  | .done t =>
    (t.branch = none ∧ answered s = true) ∨
      ∃ situation, t.branch = (HttpFate.classify situation s.request.idempotent).branch ∧
        Holds s situation

structure Sound (s : Exchange) : Prop where
  once : s.handed ≤ 1
  idle : s.handed = 0 → s.accepted = 0 ∧ s.live = false ∧ s.received = none
  counted : s.handed = 1 → ∃ n, Tracked s.track n ∧ n + s.pending.getD 0 = s.accepted
  quiet : s.live = false → s.pending = none
  due : Due s

theorem sound_init (request : Request) : Sound (init request) := by
  constructor
  · exact Nat.zero_le 1
  · exact fun _ => ⟨rfl, rfl, rfl⟩
  · intro handed
    cases handed
  · exact fun _ => rfl
  · rfl

/-- Once the task is gone `sent` is the truth. -/
theorem sent_final {s : Exchange} (sound : Sound s) (handed : s.handed = 1)
    (gone : s.live = false) : s.track.sent = decide (0 < s.accepted) := by
  obtain ⟨n, tracked, total⟩ := sound.counted handed
  rw [sound.quiet gone, Option.getD_none, Nat.add_zero] at total
  rw [tracked_sent tracked, total]

/-- What the tracker calls sent is sent. -/
theorem accepted_of_sent {s : Exchange} (sound : Sound s) (handed : s.handed = 1)
    (sent : s.track.sent = true) : 0 < s.accepted := by
  obtain ⟨n, tracked, total⟩ := sound.counted handed
  rw [tracked_sent tracked, decide_eq_true_eq] at sent
  omega

/-! ## The connection task -/

theorem handed_of_live {s : Exchange} (sound : Sound s) (live : s.live = true) :
    s.handed = 1 := by
  have once := sound.once
  by_contra other
  have idle := (sound.idle (by omega)).2.1
  rw [live] at idle
  cases idle

/-- What the connection task does leaves the engine's facts as they are. -/
theorem sound_io {s : Exchange} (sound : Sound s) (live : s.live = true) {track : TrackState}
    {pending : Option Nat} {accepted n : Nat} {live' : Bool} {alert : Option String}
    (more : s.accepted ≤ accepted) (tracked : Tracked track n)
    (total : n + pending.getD 0 = accepted) (quiet : live' = false → pending = none) :
    Sound { s with
      track := track
      pending := pending
      accepted := accepted
      live := live'
      alert := alert } := by
  have handed := handed_of_live sound live
  constructor
  · exact sound.once
  · intro zero
    change s.handed = 0 at zero
    omega
  · exact fun _ => ⟨n, tracked, total⟩
  · exact quiet
  · have due := sound.due
    unfold Due at due ⊢
    dsimp only
    cases phase : s.phase with
    | done t =>
      rw [phase] at due
      rcases due with done | ⟨situation, branch, holds⟩
      · exact Or.inl done
      · refine Or.inr ⟨situation, branch, ?_⟩
        cases situation with
        | beforeDispatch event =>
          change s.handed = 0 at holds
          omega
        | dispatchedNotSent event =>
          have gone := holds.2.1
          rw [live] at gone
          cases gone
        | sentNoHead event => exact ⟨Nat.lt_of_lt_of_le holds.1 more, holds.2⟩
        | headReceived event => exact holds
    | refusing event =>
      rw [phase] at due
      exact ⟨due.1, Nat.lt_of_lt_of_le due.2.1 more, due.2.2⟩
    | _ =>
      rw [phase] at due
      exact due

/-! ## The engine -/

theorem sound_phase {s : Exchange} (sound : Sound s) (handed : s.handed = 1) {phase : Phase}
    {received : Option (Head × Bool)}
    (due : Due { s with phase := phase, received := received }) :
    Sound { s with phase := phase, received := received } := by
  constructor
  · exact sound.once
  · intro zero
    change s.handed = 0 at zero
    omega
  · exact sound.counted
  · exact sound.quiet
  · exact due

theorem sound_refuse {s : Exchange} (sound : Sound s) (handed : s.handed = 0)
    (event : BeforeDispatch) (message : Option String) : Sound (s.refuse event message) := by
  have other : ∀ t situation, t.branch = (HttpFate.classify situation s.request.idempotent).branch →
      Holds s situation → Sound { s with phase := .done t } := fun t situation branch holds =>
    ⟨sound.once, sound.idle, sound.counted, sound.quiet, Or.inr ⟨situation, branch, holds⟩⟩
  unfold Exchange.refuse
  split
  · next cause =>
    exact other _ (.beforeDispatch (.policy cause)) (branch_policy cause message _) handed
  · exact other _ _ (branch_classify _ _) handed

/-- The verdict that goes by `sent` once the task is gone. -/
theorem holds_by_sent {s : Exchange} (sound : Sound s) (handed : s.handed = 1)
    (gone : s.live = false) (noAnswer : answered s = false) {situation : Situation}
    (verdict : if s.track.sent then ∃ event, situation = .sentNoHead event
      else ∃ event, situation = .dispatchedNotSent event) : Holds s situation := by
  have final := sent_final sound handed gone
  split_ifs at verdict with sent
  · obtain ⟨event, rfl⟩ := verdict
    rw [sent, eq_comm, decide_eq_true_eq] at final
    exact ⟨final, noAnswer⟩
  · obtain ⟨event, rfl⟩ := verdict
    rw [Bool.eq_false_iff.mpr sent, eq_comm, decide_eq_false_iff_not] at final
    exact ⟨by omega, gone, noAnswer⟩

theorem stopSituation_by_sent (sent stopped drained : Bool) :
    if sent then ∃ event, stopSituation sent stopped drained = .sentNoHead event
    else ∃ event, stopSituation sent stopped drained = .dispatchedNotSent event := by
  cases sent <;> cases stopped <;> cases drained <;> exact ⟨_, rfl⟩

theorem sound_teardown {s s' : Exchange} (sound : Sound s) (gone : s.live = false)
    (taken : s.teardown = some s') : Sound s' := by
  have due := sound.due
  have settle : ∀ {t : Terminal} {situation : Situation}, s.handed = 1 →
      t.branch = (HttpFate.classify situation s.request.idempotent).branch → Holds s situation →
      Sound { s with phase := .done t } := fun handed branch holds =>
    sound_phase sound handed (Or.inr ⟨_, branch, holds⟩)
  have noHead : s.received = none → answered s = false := by
    intro none_received
    unfold answered
    rw [none_received]
    rfl
  unfold Exchange.teardown at taken
  unfold Due at due
  split at taken
  · next err phase =>
    rw [phase] at due
    cases taken
    apply settle due.1
    · rw [branch_nameClientAuthRefusal, branch_classify]
    · apply holds_by_sent sound due.1 gone (noHead due.2)
      split_ifs
      · exact ⟨_, rfl⟩
      · exact ⟨_, rfl⟩
  · next stopped drained phase =>
    rw [phase] at due
    cases taken
    exact settle due.1 (branch_classify _ _) (holds_by_sent sound due.1 gone (noHead due.2)
      (stopSituation_by_sent _ _ _))
  · next phase =>
    rw [phase] at due
    cases taken
    apply settle due.1 (branch_classify _ _)
    apply holds_by_sent sound due.1 gone due.2
    split_ifs
    · exact ⟨_, rfl⟩
    · exact ⟨_, rfl⟩
  · next event phase =>
    rw [phase] at due
    cases taken
    exact settle due.1 (branch_classify _ _) due.2
  · next event phase =>
    rw [phase] at due
    cases taken
    exact settle due.1 (branch_classify _ _) due.2
  · cases taken

theorem sound_examine {s : Exchange} (sound : Sound s) {head : Head}
    (phase : s.phase = .headed head) : Sound (s.examine head) := by
  have due := sound.due
  unfold Due at due
  rw [phase] at due
  unfold Exchange.examine
  dsimp only
  split_ifs with early switching oversize beyond
  · apply sound_phase sound due.1
    refine ⟨due.1, ?_⟩
    simp [answered, answers, early]
  · have sent := accepted_of_sent sound due.1 ((Bool.not_eq_false _).mp early)
    apply sound_phase sound due.1
    refine ⟨due.1, sent, ?_⟩
    simp [answered, answers, switching]
  · have sent := accepted_of_sent sound due.1 ((Bool.not_eq_false _).mp early)
    apply sound_phase sound due.1
    refine ⟨due.1, sent, ?_⟩
    simp [answered, answers, oversize]
  · apply sound_phase sound due.1
    refine ⟨due.1, ?_⟩
    simp [answered, answers, early, switching, Nat.le_of_not_lt oversize]
  · apply sound_phase sound due.1
    refine ⟨due.1, ?_⟩
    simp [answered, answers, early, switching, Nat.le_of_not_lt oversize]

theorem sound_deliver {s : Exchange} (sound : Sound s) (phase : s.phase = .delivering)
    (event : Delivery) : Sound (s.deliver event) := by
  have due := sound.due
  unfold Due at due
  rw [phase] at due
  unfold Exchange.deliver
  split
  · exact sound_phase sound due.1 due
  · split
    · exact sound_phase sound due.1 (Or.inl ⟨rfl, due.2⟩)
    · split_ifs
      · exact sound_phase sound due.1 due
      · exact sound

/-! ## Whole runs -/

theorem step_sound {s s' : Exchange} {event : Event} (sound : Sound s)
    (taken : step s event = some s') : Sound s' := by
  have due := sound.due
  unfold Due at due
  cases event with
  | cancel =>
    cases taken
    exact ⟨sound.once, sound.idle, sound.counted, sound.quiet, sound.due⟩
  | cap =>
    cases taken
    exact ⟨sound.once, sound.idle, sound.counted, sound.quiet, sound.due⟩
  | refuse event message =>
    unfold step at taken
    dsimp only at taken
    split_ifs at taken with phase
    cases taken
    rw [phase] at due
    exact sound_refuse sound due event message
  | dispatch track reused live =>
    unfold step at taken
    dsimp only at taken
    split_ifs at taken with phase
    cases taken
    rw [phase.1] at due
    change s.handed = 0 at due
    obtain ⟨accepted, dead, received⟩ := sound.idle due
    have pending := sound.quiet dead
    constructor
    · change s.handed + 1 ≤ 1
      omega
    · intro zero
      cases zero
    · intro _
      refine ⟨0, tracked_arm track, ?_⟩
      change 0 + s.pending.getD 0 = s.accepted
      rw [pending, accepted]
      rfl
    · exact fun _ => pending
    · exact ⟨by change s.handed + 1 = 1; omega, received⟩
  | socket n =>
    unfold step at taken
    dsimp only at taken
    split_ifs at taken with allowed
    cases taken
    obtain ⟨k, tracked, total⟩ := sound.counted (handed_of_live sound allowed.1)
    apply sound_io sound allowed.1 (Nat.le_add_right _ n) tracked
    · rw [allowed.2] at total
      change k + n = s.accepted + n
      simpa using total
    · intro dead
      rw [allowed.1] at dead
      cases dead
  | note =>
    obtain ⟨n, pending, rfl⟩ := Option.map_eq_some_iff.mp taken
    have live : s.live = true := by
      by_contra dead
      rw [sound.quiet (Bool.eq_false_iff.mpr dead)] at pending
      cases pending
    obtain ⟨k, tracked, total⟩ := sound.counted (handed_of_live sound live)
    apply sound_io sound live (Nat.le_refl _) (tracked_noteSocket tracked n)
    · rw [pending] at total
      exact total
    · exact fun _ => rfl
  | buffer n =>
    unfold step at taken
    dsimp only at taken
    split_ifs at taken with allowed
    cases taken
    obtain ⟨k, tracked, total⟩ := sound.counted (handed_of_live sound allowed.1)
    exact sound_io sound allowed.1 (Nat.le_refl _) (tracked_noteWritten tracked allowed.2 n) total
      sound.quiet
  | read n =>
    unfold step at taken
    dsimp only at taken
    split_ifs at taken with live
    cases taken
    obtain ⟨k, tracked, total⟩ := sound.counted (handed_of_live sound live)
    exact sound_io sound live (Nat.le_refl _) (tracked_noteRead tracked n) total sound.quiet
  | ioError dir kind =>
    unfold step at taken
    dsimp only at taken
    split_ifs at taken with live
    cases taken
    obtain ⟨k, tracked, total⟩ := sound.counted (handed_of_live sound live)
    exact sound_io sound live (Nat.le_refl _) (tracked_noteError tracked dir kind) total sound.quiet
  | gone alert =>
    unfold step at taken
    dsimp only at taken
    split_ifs at taken with allowed
    cases taken
    obtain ⟨k, tracked, total⟩ := sound.counted (handed_of_live sound allowed.1)
    exact sound_io sound allowed.1 (Nat.le_refl _) tracked total (fun _ => allowed.2)
  | sendFails err =>
    unfold step at taken
    dsimp only at taken
    split_ifs at taken with phase
    cases taken
    rw [phase] at due
    exact sound_phase sound due.1 due
  | head head =>
    unfold step at taken
    dsimp only at taken
    split_ifs at taken with phase
    cases taken
    rw [phase] at due
    exact sound_phase sound due.1 due
  | stop =>
    unfold step at taken
    dsimp only at taken
    split_ifs at taken with phase
    cases taken
    rw [phase.1] at due
    exact sound_phase sound due.1 due
  | deadline =>
    unfold step at taken
    dsimp only at taken
    split_ifs at taken with phase
    cases taken
    rw [phase] at due
    exact sound_phase sound due.1 due
  | look =>
    unfold step at taken
    dsimp only at taken
    split at taken
    · next head phase =>
      cases taken
      exact sound_examine sound phase
    · cases taken
  | torn =>
    unfold step at taken
    dsimp only at taken
    split_ifs at taken with live
    exact sound_teardown sound (Bool.eq_false_iff.mpr live) taken
  | deliver event =>
    unfold step at taken
    dsimp only at taken
    split_ifs at taken with phase
    cases taken
    exact sound_deliver sound phase event

theorem run_sound {request : Request} {events : List Event} {s : Exchange}
    (reached : run (init request) events = some s) : Sound s :=
  LabelledRuns.run_always step step_sound (sound_init request) reached

theorem request_step {s s' : Exchange} {event : Event} (taken : step s event = some s') :
    s'.request = s.request := by
  cases event with
  | cancel | cap =>
    cases taken
    rfl
  | refuse event message =>
    unfold step at taken
    dsimp only at taken
    split_ifs at taken
    cases taken
    unfold Exchange.refuse
    split <;> rfl
  | note =>
    obtain ⟨n, pending, rfl⟩ := Option.map_eq_some_iff.mp taken
    rfl
  | look =>
    unfold step at taken
    dsimp only at taken
    split at taken
    · cases taken
      unfold Exchange.examine
      dsimp only
      split_ifs <;> rfl
    · cases taken
  | torn =>
    unfold step at taken
    dsimp only at taken
    split_ifs at taken
    unfold Exchange.teardown at taken
    split at taken <;> cases taken <;> rfl
  | deliver event =>
    unfold step at taken
    dsimp only at taken
    split_ifs at taken
    cases taken
    unfold Exchange.deliver
    split
    · rfl
    · split
      · rfl
      · split_ifs <;> rfl
  | _ =>
    unfold step at taken
    dsimp only at taken
    split_ifs at taken
    cases taken
    rfl

theorem run_request {request : Request} {events : List Event} {s : Exchange}
    (reached : run (init request) events = some s) : s.request = request := by
  have keep : ∀ {s t : Exchange} {event : Event}, s.request = request → step s event = some t →
      t.request = request := fun same taken => (request_step taken).trans same
  exact LabelledRuns.run_always step keep rfl reached

/-! ## Fates -/

theorem verdict_retryable {s : Exchange} (sound : Sound s) {t : Terminal}
    (done : s.phase = .done t) (notSafe : s.request.idempotent = false)
    (retryable : t.branch = some .retryable) : s.accepted = 0 := by
  have due := sound.due
  unfold Due at due
  rw [done] at due
  rcases due with ⟨none_left, _⟩ | ⟨situation, branch, holds⟩
  · rw [none_left] at retryable
    cases retryable
  · rw [branch, notSafe] at retryable
    rcases branch_retryable retryable with ⟨event, rfl⟩ | ⟨event, rfl⟩
    · exact (sound.idle holds).1
    · exact holds.1

theorem verdict_indeterminate {s : Exchange} (sound : Sound s) {t : Terminal}
    (done : s.phase = .done t) : t.branch = some .indeterminate ↔
      s.request.idempotent = false ∧ 0 < s.accepted ∧ answered s = false := by
  have due := sound.due
  unfold Due at due
  rw [done] at due
  rcases due with ⟨none_left, isAnswered⟩ | ⟨situation, branch, holds⟩
  · rw [none_left, isAnswered]
    simp
  · rw [branch, branch_indeterminate]
    constructor
    · rintro ⟨notSafe, event, rfl⟩
      exact ⟨notSafe, holds⟩
    · rintro ⟨notSafe, sent, noAnswer⟩
      refine ⟨notSafe, ?_⟩
      cases situation with
      | beforeDispatch event =>
        have := (sound.idle holds).1
        omega
      | dispatchedNotSent event =>
        have := holds.1
        omega
      | sentNoHead event => exact ⟨event, rfl⟩
      | headReceived event =>
        change answered s = true at holds
        rw [noAnswer] at holds
        cases holds

/-- The request goes to one connection at most; without idempotency a retryable terminal means that
no byte went out, and an indeterminate one that bytes did and no head answered them. -/
theorem http_fates {request : Request} {events : List Event} {s : Exchange}
    (reached : run (init request) events = some s) :
    s.handed ≤ 1 ∧
    (0 < s.accepted → ∀ track reused live, step s (.dispatch track reused live) = none) ∧
    ∀ t, s.phase = .done t →
      (request.idempotent = false → t.branch = some .retryable → s.accepted = 0) ∧
      (t.branch = some .indeterminate ↔
        request.idempotent = false ∧ 0 < s.accepted ∧ answered s = false) := by
  have sound := run_sound reached
  have same := run_request reached
  refine ⟨sound.once, ?_, ?_⟩
  · intro sent track reused live
    unfold step
    dsimp only
    apply if_neg
    rintro ⟨phase, _⟩
    have due := sound.due
    unfold Due at due
    rw [phase] at due
    have := (sound.idle due).1
    omega
  · intro t done
    rw [← same]
    exact ⟨verdict_retryable sound done, verdict_indeterminate sound done⟩

/-- A `POST` whose bytes leave while the engine tears the connection down. -/
def sampleEvents : List Event :=
  [.dispatch (TrackState.new true) false true, .buffer 120, .read 30,
    .sendFails { parse := true, incompleteMessage := false, text := "invalid HTTP version parsed",
                 ioKind := none, alert := none },
    .socket 142, .note, .gone none, .torn]

theorem http_fates_on_sample :
    let request : Request := { idempotent := false, maxResponseBytes := none }
    ∃ s t, run (init request) sampleEvents = some s ∧ s.phase = .done t ∧ s.handed = 1 ∧
      t.branch = some .indeterminate ∧ 0 < s.accepted ∧ answered s = false := by
  intro request
  have reached : run (init request) sampleEvents =
      some ((run (init request) sampleEvents).get rfl) := rfl
  obtain ⟨once, _, fates⟩ := http_fates reached
  have done : ((run (init request) sampleEvents).get rfl).phase =
      .done (classify (.sentNoHead .malformedHead) false) := rfl
  have branch : (classify (.sentNoHead .malformedHead) false).branch = some .indeterminate := rfl
  have truth := (fates _ done).2.mp branch
  exact ⟨_, _, reached, done, rfl, branch, truth.2⟩

theorem examine_oversize {s : Exchange} {head : Head} (sent : s.track.sent = true)
    (final : head.status ≠ 101) (oversize : maxHeadBytes < headSize head) :
    s.examine head = { s with
      received := some (head, true)
      phase := .refusing .oversizeHead } := by
  unfold Exchange.examine
  dsimp only
  rw [sent, if_neg (by decide : ¬ true = false), if_neg final, if_pos oversize]

/-- An oversize head that came for the bytes that had gone out. -/
def oversizeEvents (head : Head) : List Event :=
  [.dispatch (TrackState.new false) false true, .socket 100, .note, .head head] ++
    [.look, .gone none, .torn]

def oversizeEnd (head : Head) : Exchange :=
  { init { idempotent := false, maxResponseBytes := none } with
    phase := .done (classify (.sentNoHead .oversizeHead) false)
    track := (TrackState.new false).arm.noteWritten 100
    handed := 1
    accepted := 100
    received := some (head, true) }

theorem run_oversizeEvents {head : Head} (final : head.status ≠ 101)
    (oversize : maxHeadBytes < headSize head) :
    run (init { idempotent := false, maxResponseBytes := none }) (oversizeEvents head) =
      some (oversizeEnd head) := by
  have before : LabelledRuns.run step (init { idempotent := false, maxResponseBytes := none })
      [.dispatch (TrackState.new false) false true, .socket 100, .note, .head head] =
      some ((LabelledRuns.run step (init { idempotent := false, maxResponseBytes := none })
        [.dispatch (TrackState.new false) false true, .socket 100, .note, .head head]).get rfl) :=
    rfl
  unfold run oversizeEvents
  rw [LabelledRuns.run_append, before, Option.bind_some, LabelledRuns.run_cons]
  change (some (Exchange.examine _ head)).bind _ = _
  rw [examine_oversize rfl final oversize]
  rfl

/-- A response head of over 256 KiB. -/
def hugeHead (n : Nat) : Head :=
  { status := 200
    reason := []
    headers := [([120], List.replicate n 97)] }

theorem headSize_hugeHead (n : Nat) : headSize (hugeHead n) = n + 21 := by
  simp only [headSize, hugeHead, List.map_cons, List.map_nil, List.sum_cons, List.sum_nil,
    List.length_replicate, List.length_cons, List.length_nil, if_true]
  omega

/-- A final head was received and the fate is indeterminate all the same. -/
theorem oversizeHead_indeterminate :
    ∃ events s t, run (init { idempotent := false, maxResponseBytes := none }) events = some s ∧
      s.phase = .done t ∧ t.branch = some .indeterminate ∧
      s.received = some (hugeHead 262144, true) ∧ (hugeHead 262144).status = 200 := by
  have oversize : maxHeadBytes < headSize (hugeHead 262144) := by
    rw [headSize_hugeHead]
    decide
  have reached := run_oversizeEvents (show (hugeHead 262144).status ≠ 101 by decide) oversize
  exact ⟨_, _, _, reached, rfl, rfl, rfl, rfl⟩

end FerroEngine.HttpFateSoundness
