import FerroEngine.CopyFate
import FerroEngine.TxActorSoundness

set_option autoImplicit false

/-! # The fate of a transaction

What the terminals of a transaction promise about its `COMMIT`.
-/

namespace FerroEngine.TxFate

open LabelledRuns FateMapping TxTerminals CopyRequests TxCommands TxActor TxActorSteps
  TxActorSoundness
open AutocommitExec (Terminal QueryResult)
open SessionTeardown (TxEnd)

/-! ## Invariant -/

/-- The loop of the actor has not ended. -/
def working : Actor → Bool
  | .idle | .running _ _ _ => true
  | _ => false

/-- Nothing that the backend does from here on is committed. -/
def Dead (s : State) : Prop :=
  s.link = false ∨ Cut s

structure Fated (s : State) : Prop where
  live : s.ended = none ↔ working s.actor = true
  tombstone : s.entry = .tombstoned → s.ended = some .deadline
  dead : ∀ r ∈ s.requests, saysDead r.command r.phase = true → Dead s
  committed : ∀ r ∈ s.requests, r.command = .commit → isOk r.command r.phase = true →
    s.ended = some .ended ∧ s.link = true ∧
      ∃ before, s.commitFrom = some before ∧ s.committed = (before == .inTx)

theorem fated_start : Fated State.start :=
  ⟨⟨fun _ => rfl, fun _ => rfl⟩, fun tombstoned => (by cases tombstoned),
    fun _ member => (by cases member), fun _ member => (by cases member)⟩

/-- A request tells what one told before, or the end of a transaction that has ended. -/
def Known (s : State) (r : Request) : Prop :=
  (∃ q ∈ s.requests, q.command = r.command ∧
    terminalOf q.command q.phase = terminalOf r.command r.phase) ∨
  (isOk r.command r.phase = false ∧
    (saysDead r.command r.phase = true → s.entry = .tombstoned ∨ Dead s))

theorem known_of_mem {s : State} {r : Request} (member : r ∈ s.requests) : Known s r :=
  Or.inl ⟨r, member, rfl, rfl⟩

/-- A request without a terminal. -/
theorem known_of_silent (s : State) {r : Request} (silent : terminalOf r.command r.phase = none) :
    Known s r := by
  right
  unfold isOk saysDead
  rw [silent]
  exact ⟨rfl, fun dead => (by cases dead)⟩

theorem known_of_error {s : State} {command : TxCommand} {p : ErrorPayload} {sent : Bool}
    (dead : saysFinished p = true → s.entry = .tombstoned ∨ Dead s) :
    Known s { command := command, phase := .done (.error p), sent := sent } :=
  Or.inr ⟨rfl, dead⟩

theorem known_set {s : State} {k : Nat} {r' q : Request} (new : Known s r')
    (member : q ∈ s.requests.set k r') : Known s q := by
  rcases List.mem_or_eq_of_mem_set member with old | same
  · exact known_of_mem old
  · exact same ▸ new

theorem saysDead_congr {command command' : TxCommand} {phase phase' : Phase}
    (same : terminalOf command phase = terminalOf command' phase') :
    saysDead command phase = saysDead command' phase' := by
  unfold saysDead
  rw [same]

theorem isOk_congr {command command' : TxCommand} {phase phase' : Phase}
    (same : terminalOf command phase = terminalOf command' phase') :
    isOk command phase = isOk command' phase' := by
  unfold isOk
  rw [same]

theorem Fated.known_dead {s : State} (fated : Fated s) {r : Request} (known : Known s r)
    (finished : saysDead r.command r.phase = true) : Dead s := by
  rcases known with ⟨q, member, _, same⟩ | ⟨_, fresh⟩
  · rw [← saysDead_congr same] at finished
    exact fated.dead q member finished
  · rcases fresh finished with tombstoned | dead
    · exact Or.inr (Or.inr (fated.tombstone tombstoned))
    · exact dead

theorem Fated.known_committed {s : State} (fated : Fated s) {r : Request} (known : Known s r)
    (commit : r.command = .commit) (ok : isOk r.command r.phase = true) :
    s.ended = some .ended ∧ s.link = true ∧
      ∃ before, s.commitFrom = some before ∧ s.committed = (before == .inTx) := by
  rcases known with ⟨q, member, command, same⟩ | ⟨failed, _⟩
  · rw [← isOk_congr same] at ok
    exact fated.committed q member (command.trans commit) ok
  · rw [failed] at ok
    cases ok

/-! ## Steps -/

/-- A step that leaves the end of the transaction as it is. -/
theorem Fated.keeps {s t : State} (fated : Fated s) (actor : working t.actor = working s.actor)
    (ended : t.ended = s.ended) (link : t.link = s.link)
    (commitFrom : t.commitFrom = s.commitFrom) (committed : t.committed = s.committed)
    (entry : t.entry = .tombstoned → s.entry = .tombstoned ∨ s.ended = some .deadline)
    (known : ∀ r ∈ t.requests, Known s r) : Fated t := by
  refine ⟨?_, ?_, ?_, ?_⟩
  · rw [ended, actor]
    exact fated.live
  · intro tombstoned
    rw [ended]
    rcases entry tombstoned with before | deadline
    · exact fated.tombstone before
    · exact deadline
  · intro r member finished
    unfold Dead Cut
    rw [link, ended]
    exact fated.known_dead (known r member) finished
  · intro r member commit ok
    rw [ended, link, commitFrom, committed]
    exact fated.known_committed (known r member) commit ok

/-- While the loop runs, a dead transaction has lost its link and nothing has been committed. -/
theorem Fated.working {s : State} (fated : Fated s) (live : working s.actor = true) :
    s.ended = none ∧ s.entry ≠ .tombstoned ∧ (Dead s → s.link = false) ∧
      ∀ r, Known s r → r.command = .commit → isOk r.command r.phase = false := by
  have open' := fated.live.mpr live
  refine ⟨open', ?_, ?_, ?_⟩
  · intro tombstoned
    have deadline := fated.tombstone tombstoned
    rw [open'] at deadline
    cases deadline
  · intro dead
    rcases dead with lost | cut | cut
    · exact lost
    · rw [open'] at cut
      cases cut
    · rw [open'] at cut
      cases cut
  · intro r known commit
    rw [Bool.eq_false_iff]
    intro ok
    have ended := (fated.known_committed known commit ok).1
    rw [open'] at ended
    cases ended

/-- A step between two commands or inside one. -/
theorem Fated.works {s t : State} (fated : Fated s) (live : TxFate.working s.actor = true)
    (still : TxFate.working t.actor = true) (ended : t.ended = s.ended) (entry : t.entry = s.entry)
    (link : t.link = true → s.link = true) (known : ∀ r ∈ t.requests, Known s r) : Fated t := by
  obtain ⟨open', standing, lost, uncommitted⟩ := fated.working live
  refine ⟨?_, ?_, ?_, ?_⟩
  · rw [ended, open']
    exact ⟨fun _ => still, fun _ => rfl⟩
  · intro tombstoned
    rw [entry] at tombstoned
    exact absurd tombstoned standing
  · intro r member finished
    left
    have down := lost (fated.known_dead (known r member) finished)
    rw [Bool.eq_false_iff]
    intro up
    rw [link up] at down
    cases down
  · intro r member commit ok
    rw [uncommitted r (known r member) commit] at ok
    cases ok

/-- The answer to a command that the actor works on. -/
theorem Fated.answers {s t : State} (fated : Fated s) (live : TxFate.working s.actor = true)
    {k : Nat} {r : Request} {phase : Phase} {tag : Answer} (answers : Answers s t k r phase tag) :
    Fated t := by
  obtain ⟨open', standing, lost, uncommitted⟩ := fated.working live
  have mem : ∀ q ∈ t.requests, q ∈ s.requests ∨ q = { r with phase := phase } := by
    intro q member
    rw [answers.requests] at member
    exact List.mem_or_eq_of_mem_set member
  refine ⟨?_, ?_, ?_, ?_⟩
  · rcases answers.actor with ⟨idle, ended⟩ | ⟨tearing, reason, ended⟩
    · rw [idle, ended, open']
      exact ⟨fun _ => rfl, fun _ => rfl⟩
    · rw [tearing, ended]
      exact ⟨fun none' => (by cases none'), fun working' => (by cases working')⟩
  · intro tombstoned
    rw [answers.entry] at tombstoned
    exact absurd tombstoned standing
  · intro q member finished
    rcases mem q member with old | same
    · left
      have down := lost (fated.dead q old finished)
      rw [Bool.eq_false_iff]
      intro up
      rw [answers.link up] at down
      cases down
    · rw [same] at finished
      exact answers.dead finished
  · intro q member commit ok
    rcases mem q member with old | same
    · rw [uncommitted q (known_of_mem old) commit] at ok
      cases ok
    · rw [same] at commit ok
      obtain ⟨ended, link, commitFrom, committed⟩ := answers.committed commit ok
      exact ⟨ended, link, s.status, commitFrom, committed⟩

theorem saysFinished_tornDown {reason : TxEnd} (dead : saysFinished (tornDown reason) = true) :
    reason = .abort ∨ reason = .deadline := by
  cases reason with
  | ended => cases dead
  | abort => exact Or.inl rfl
  | deadline => exact Or.inr rfl

/-- A drained command tells nothing, or that the transaction has been torn down. -/
theorem known_drained {s : State} {reason : TxEnd} (ended : s.ended = some reason) {r : Request}
    (member : r ∈ s.requests) : Known s (drainRequest reason r) := by
  unfold drainRequest
  split
  · split
    · apply known_of_error
      intro dead
      right
      right
      unfold Cut
      rw [ended, Option.some.injEq, Option.some.injEq]
      exact saysFinished_tornDown dead
    · apply known_of_error
      intro dead
      right
      right
      unfold Cut
      rw [ended, Option.some.injEq, Option.some.injEq]
      exact saysFinished_tornDown dead
    · exact known_of_silent s rfl
  · exact known_of_mem member

theorem settle_tombstoned {entry : Entry} {reason : TxEnd}
    (tombstoned : entry.settle reason = .tombstoned) : reason = .deadline := by
  cases reason with
  | deadline => rfl
  | ended => cases tombstoned
  | abort => cases tombstoned

theorem fated_step {s t : State} (fated : Fated s) (move : Move s t) : Fated t := by
  cases move with
  | arrive r _ fresh same =>
    refine fated.keeps (by rw [same]) (by rw [same]) (by rw [same]) (by rw [same]) (by rw [same])
      (fun tombstoned => Or.inl (by rw [same] at tombstoned; exact tombstoned)) ?_
    intro q member
    rw [same] at member
    rcases List.mem_append.mp member with old | new
    · exact known_of_mem old
    · rw [List.mem_singleton.mp new]
      rcases fresh with phase | ⟨p, phase, dead⟩
      · apply known_of_silent
        rw [phase]
        rfl
      · obtain ⟨command, _, sent⟩ := r
        cases phase
        exact known_of_error (fun says' => Or.inl (dead says'))
  | refuse k r p found phase dead same =>
    refine fated.keeps (by rw [same]; rfl) (by rw [same]; rfl) (by rw [same]; rfl)
      (by rw [same]; rfl) (by rw [same]; rfl)
      (fun tombstoned => Or.inl (by rw [same] at tombstoned; exact tombstoned)) ?_
    intro q member
    rw [same] at member
    exact known_set (known_of_error (fun says' => Or.inl (dead says'))) member
  | send k r found phase _ same =>
    refine fated.keeps (by rw [same]) (by rw [same]) (by rw [same]) (by rw [same]) (by rw [same])
      (fun tombstoned => Or.inl (by rw [same] at tombstoned; exact tombstoned)) ?_
    intro q member
    rw [same] at member
    exact known_set (known_of_silent s rfl) member
  | declare k r reply found phase same =>
    refine fated.keeps (by rw [same]; rfl) (by rw [same]; rfl) (by rw [same]; rfl)
      (by rw [same]; rfl) (by rw [same]; rfl)
      (fun tombstoned => Or.inl (by rw [same] at tombstoned; exact tombstoned)) ?_
    intro q member
    rw [same] at member
    have known : Known s { r with phase := .done (TxCommands.declare r.command reply) } := by
      refine Or.inl ⟨r, List.mem_of_getElem? found, rfl, ?_⟩
      rw [phase]
      rfl
    exact known_set known member
  | recover k r p found phase _ dead same =>
    refine fated.keeps (by rw [same]; rfl) (by rw [same]; rfl) (by rw [same]; rfl)
      (by rw [same]; rfl) (by rw [same]; rfl)
      (fun tombstoned => Or.inl (by rw [same] at tombstoned; exact tombstoned)) ?_
    intro q member
    rw [same] at member
    exact known_set (known_of_error (fun says' => Or.inl (dead says'))) member
  | abort same =>
    refine fated.keeps (by rw [same]) (by rw [same]) (by rw [same]) (by rw [same]) (by rw [same])
      (fun tombstoned => Or.inl (by rw [same] at tombstoned; exact tombstoned)) ?_
    intro q member
    rw [same] at member
    exact known_of_mem member
  | forget same =>
    refine fated.keeps (by rw [same]) (by rw [same]) (by rw [same]) (by rw [same]) (by rw [same])
      (fun tombstoned => (by rw [same] at tombstoned; cases tombstoned)) ?_
    intro q member
    rw [same] at member
    exact known_of_mem member
  | leave reason idle cut same =>
    obtain ⟨_, standing, _, uncommitted⟩ := fated.working (by rw [idle]; rfl)
    rw [same]
    refine ⟨⟨fun none' => (by cases none'), fun working' => (by cases working')⟩, ?_, ?_, ?_⟩
    · exact fun tombstoned => absurd tombstoned standing
    · intro _ _ _
      right
      rcases cut with abort | deadline
      · exact Or.inl (congrArg some abort)
      · exact Or.inr (congrArg some deadline)
    · intro r member commit ok
      rw [uncommitted r (known_of_mem member) commit] at ok
      cases ok
  | take k rest r savepoints idle channel found same =>
    refine fated.works (by rw [idle]; rfl) (by rw [same]; rfl) (by rw [same]) (by rw [same])
      (by rw [same]; exact id) ?_
    intro q member
    rw [same] at member
    exact known_set (known_of_silent s rfl) member
  | decline k rest r idle channel found other same =>
    refine fated.works (by rw [idle]; rfl) (by rw [same]; rfl) (by rw [same]; rfl)
      (by rw [same]; rfl) (by rw [same]; exact id) ?_
    intro q member
    rw [same] at member
    refine known_set (Or.inr ⟨rfl, fun dead => ?_⟩) member
    cases dead
  | dispatch k step running same =>
    refine fated.works (by rw [running]; rfl) (by rw [same]; rfl) (by rw [same]) (by rw [same])
      (by rw [same]; exact id) ?_
    intro q member
    rw [same] at member
    exact known_of_mem member
  | answer k step sent r phase tag running found answers =>
    exact fated.answers (by rw [running]; rfl) answers
  | goOn k step running same actor _ =>
    refine fated.works (by rw [running]; rfl) (by rw [actor]; rfl) same.ended same.entry same.link
      ?_
    intro q member
    rw [same.requests] at member
    exact known_of_mem member
  | tearDown reason rolledBack tearing ended same =>
    refine fated.keeps (by rw [same, tearing]; rfl) (by rw [same]; rfl) (by rw [same]; rfl)
      (by rw [same]; rfl) (by rw [same]; rfl) ?_ ?_
    · intro tombstoned
      rw [same] at tombstoned
      right
      rw [ended, settle_tombstoned tombstoned]
    · intro q member
      rw [same] at member
      exact known_of_mem member
  | drain reason closing ended same =>
    refine fated.keeps (by rw [same, closing]; rfl) (by rw [same]; rfl) (by rw [same]; rfl)
      (by rw [same]; rfl) (by rw [same]; rfl)
      (fun tombstoned => Or.inl (by rw [same] at tombstoned; exact tombstoned)) ?_
    intro q member
    rw [same] at member
    obtain ⟨r, old, drained⟩ := List.mem_map.mp member
    exact drained ▸ known_drained ended old

/-- No step brings a dead transaction back. -/
theorem dead_step {s t : State} (fated : Fated s) (move : Move s t) (dead : Dead s) : Dead t := by
  have keeps : t.link = s.link → t.ended = s.ended → Dead t := by
    intro link ended
    unfold Dead Cut
    rw [link, ended]
    exact dead
  have cuts : working s.actor = true → (t.link = true → s.link = true) → Dead t := by
    intro live link
    left
    have down := (fated.working live).2.2.1 dead
    rw [Bool.eq_false_iff]
    intro up
    rw [link up] at down
    cases down
  cases move with
  | arrive r _ fresh same => exact keeps (by rw [same]) (by rw [same])
  | refuse k r p found phase _ same => exact keeps (by rw [same]; rfl) (by rw [same]; rfl)
  | send k r found phase _ same => exact keeps (by rw [same]) (by rw [same])
  | declare k r reply found phase same => exact keeps (by rw [same]; rfl) (by rw [same]; rfl)
  | recover k r p found phase _ _ same => exact keeps (by rw [same]; rfl) (by rw [same]; rfl)
  | abort same => exact keeps (by rw [same]) (by rw [same])
  | forget same => exact keeps (by rw [same]) (by rw [same])
  | leave reason idle cut same => exact cuts (by rw [idle]; rfl) (by rw [same]; exact id)
  | take k rest r savepoints idle channel found same => exact keeps (by rw [same]) (by rw [same])
  | decline k rest r idle channel found other same =>
    exact keeps (by rw [same]; rfl) (by rw [same]; rfl)
  | dispatch k step running same => exact keeps (by rw [same]) (by rw [same])
  | answer k step sent r phase tag running found answers =>
    exact cuts (by rw [running]; rfl) answers.link
  | goOn k step running same actor _ => exact cuts (by rw [running]; rfl) same.link
  | tearDown reason rolledBack tearing ended same =>
    exact keeps (by rw [same]; rfl) (by rw [same]; rfl)
  | drain reason closing ended same => exact keeps (by rw [same]; rfl) (by rw [same]; rfl)

/-! ## Runs -/

theorem reached_sound {labels : List Label} {s : State}
    (reached : run step State.start labels = some s) : Serial s ∧ Fated s := by
  have keep : ∀ {s t : State} {label : Label}, Serial s ∧ Fated s → step s label = some t →
      Serial t ∧ Fated t := by
    intro s t label holds moved
    have move := step_moves moved
    exact ⟨serial_step holds.1 move, fated_step holds.2 move⟩
  exact run_always step keep ⟨serial_start, fated_start⟩ reached

theorem dead_run {s t : State} {labels : List Label} (fated : Fated s) (dead : Dead s)
    (reached : run step s labels = some t) : Dead t := by
  have keep : ∀ {s t : State} {label : Label}, Fated s ∧ Dead s → step s label = some t →
      Fated t ∧ Dead t := by
    intro s t label holds moved
    have move := step_moves moved
    exact ⟨fated_step holds.1 move, dead_step holds.1 move holds.2⟩
  exact (run_always step keep ⟨fated, dead⟩ reached).2

theorem endedBy_of_verdict {finished : Bool} {ended : StreamEnded}
    (verdict : finished = true ↔ ended = .broken) : ended = endedBy finished := by
  cases ended with
  | broken =>
    rw [verdict.mpr rfl]
    rfl
  | intact =>
    have no : finished = false := by
      rw [Bool.eq_false_iff]
      intro yes
      exact StreamEnded.noConfusion (verdict.mp yes)
    rw [no]
    rfl

/-- Every verdict of a COPY in a transaction, in either direction, is one that the actor takes. -/
theorem copy_verdict_taken (s : State) (k : Nat) (r : Request) (sent lost : Bool)
    (status : TxStatus) (terminal : Terminal) (ended : StreamEnded)
    (settles : (∃ req window labels c, run CopyIn.step (.start req window) labels = some c ∧
        c.req.inTx = true ∧ c.point = .done terminal (some ended)) ∨
      ∃ req labels c, run CopyOut.step (.start req) labels = some c ∧ c.req.inTx = true ∧
        c.point = .done terminal (some ended)) :
    copyStep s k r sent (.copies terminal ended lost status) =
      some (produced (s.after sent (if lost then some .connectionLost else none) status) k r
        terminal ended) := by
  have agrees : ended = endedBy (terminalSaysFinished terminal) := by
    apply endedBy_of_verdict
    rcases settles with ⟨_, _, _, c, reached, inTx, point⟩ | ⟨_, _, c, reached, inTx, point⟩
    · exact ((CopyInSoundness.tracked_run reached).settled _ _ point).verdict inTx ended rfl
    · exact ((CopyOutSoundness.tracked_run reached).settled _ _ point).verdict inTx ended rfl
  unfold copyStep
  exact if_pos agrees

/-- An EXEC whose deadline passes while its statement runs. -/
def overdue : List Label :=
  [.arrives (.exec false 0), .sends 0, .takes, .dispatch, .interrupts .deadline .failed,
    .declares 0]

/-- A `COMMIT` that comes before the transaction is torn down. -/
def lateCommit : List Label :=
  [.arrives .commit, .sends 1, .tearsDown true, .drains, .declares 1]

def serializationFailure : PoolError :=
  .sql PostgresErrors.serializationFailureCode .retryable (some "40001") none
    "could not serialize access"

/-- The server's own `Retryable` error leaves the block failed, and its `COMMIT` rolls back. -/
def failedBlock : List Label :=
  [.arrives (.exec false 0), .sends 0, .takes, .dispatch,
    .completes (.error serializationFailure) 7 .malformed .failed, .declares 0, .arrives .commit,
    .sends 1, .takes, .dispatch, .controls (.ok ()) .idle, .declares 1]

end FerroEngine.TxFate
