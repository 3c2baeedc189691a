import FerroEngine.TxActor

set_option autoImplicit false

/-! # What the actor can do with a command

Every step of a command in flight either goes on with the command or answers it once; what the
answer says agrees with what becomes of the transaction.
-/

namespace FerroEngine.TxActorSteps

open FateMapping TxTerminals CopyRequests TxCommands TxActor
open AutocommitExec (Terminal QueryResult)
open SessionTeardown (TxEnd)

/-! ## What a phase tells the client -/

def isAnswered : Phase → Bool
  | .replied _ | .dropped | .done _ => true
  | _ => false

/-- Only the end of the transaction drops a command. -/
def tells : Answer → Phase → Bool
  | .result, .dropped => false
  | _, phase => isAnswered phase

theorem isAnswered_of_tells {tag : Answer} {phase : Phase} (told : tells tag phase = true) :
    isAnswered phase = true := by
  cases phase with
  | dropped => rfl
  | replied reply => rfl
  | done terminal => rfl
  | _ =>
    cases tag with
    | result => exact told
    | teardown => exact told

/-- The terminal that is declared or will be declared from the reply. -/
def terminalOf (command : TxCommand) : Phase → Option Terminal
  | .replied reply => some (declare command reply)
  | .done terminal => some terminal
  | _ => none

def saysDead (command : TxCommand) (phase : Phase) : Bool :=
  ((terminalOf command phase).map terminalSaysFinished).getD false

def isOk (command : TxCommand) (phase : Phase) : Bool :=
  match terminalOf command phase with
  | some (.ok _) => true
  | _ => false

/-- The engine's report that the transaction is over. -/
def isTeardown (p : ErrorPayload) : Prop :=
  p.code = txDeadlineCode ∨ p.code = txNotFoundCode ∨ p = tornDown .ended

def TellsTeardown (command : TxCommand) : Phase → Prop
  | .replied reply => ∃ p, declare command reply = .error p ∧ isTeardown p
  | .done terminal => ∃ p, terminal = .error p ∧ isTeardown p
  | .dropped => True
  | _ => False

theorem saysFinished_classifyFate_sent {e : PoolError} (backend : isBackendError e = true)
    {readonly inTx : Bool}
    (dead : saysFinished
      (classifyFate e { readonly := readonly, sent := true, inTx := inTx }) = true) :
    e = .connectionLost ∨ (is57014 e = true ∧ inTx = true) := by
  unfold classifyFate at dead
  by_cases cancelled : is57014 e = true
  · right
    refine ⟨cancelled, ?_⟩
    rw [if_pos cancelled] at dead
    cases inTx with
    | true => rfl
    | false =>
      cases readonly with
      | true => cases dead
      | false => cases dead
  · left
    rw [if_neg cancelled] at dead
    cases e with
    | connectionLost => rfl
    | sql code branch sqlstate errno message =>
      simp only [saysFinished, isBackendError, Bool.and_eq_true, Bool.or_eq_true, beq_iff_eq,
        bne_iff_ne] at dead backend
      obtain ⟨noState, code'⟩ := dead
      rw [noState] at backend
      rcases backend with state | ⟨notDeadline, notLost⟩
      · cases state
      · exact absurd code' (by rw [not_or]; exact ⟨notDeadline, notLost⟩)
    | timeout => cases dead
    | unsupported message => cases dead
    | closed => cases dead
    | backend message => cases dead

/-! ## Answers -/

/-- The connection changes and the bookkeeping stays. -/
structure Same (s u : State) : Prop where
  requests : u.requests = s.requests
  answers : u.answers = s.answers
  channel : u.channel = s.channel
  channelOpen : u.channelOpen = s.channelOpen
  abort : u.abort = s.abort
  entry : u.entry = s.entry
  dispatched : u.dispatched = s.dispatched
  ended : u.ended = s.ended
  link : u.link = true → s.link = true

theorem same_after (s : State) (sent : Bool) (err : Option PoolError) (status : TxStatus) :
    Same s (s.after sent err status) := by
  refine ⟨rfl, rfl, rfl, rfl, rfl, rfl, rfl, rfl, ?_⟩
  intro link
  exact (Bool.and_eq_true_iff.mp link).1

/-- The transaction ended otherwise than by its `COMMIT` or `ROLLBACK`. -/
def Cut (t : State) : Prop :=
  t.ended = some .abort ∨ t.ended = some .deadline

/-- Step `s` to `t` answers command `k`. -/
structure Answers (s t : State) (k : Nat) (r : Request) (phase : Phase) (tag : Answer) :
    Prop where
  requests : t.requests = s.requests.set k { r with phase := phase }
  answers : t.answers = s.answers ++ [(k, tag)]
  channel : t.channel = s.channel
  channelOpen : t.channelOpen = s.channelOpen
  abort : t.abort = s.abort
  entry : t.entry = s.entry
  dispatched : t.dispatched = s.dispatched
  told : tells tag phase = true
  actor : (t.actor = .idle ∧ t.ended = s.ended) ∨ (t.actor = .tearing ∧ ∃ reason, t.ended = some reason)
  link : t.link = true → s.link = true
  dead : saysDead r.command phase = true → t.link = false ∨ Cut t
  teardown : tag = .teardown → TellsTeardown r.command phase
  committed : r.command = .commit → isOk r.command phase = true →
    t.ended = some .ended ∧ t.link = true ∧ t.commitFrom = some s.status ∧
      t.committed = (s.status == .inTx)
  kept : (r.command = .commit → isOk r.command phase = false) →
    t.commitFrom = s.commitFrom ∧ t.committed = s.committed

section Shapes

variable {s u : State} {k : Nat} {r : Request} {phase : Phase}

/-- An answer after which the loop goes on. -/
theorem Answers.resumes (same : Same s u) (told : tells .result phase = true)
    (dead : saysDead r.command phase = true → u.link = false) (other : r.command ≠ .commit)
    (kept : u.commitFrom = s.commitFrom ∧ u.committed = s.committed) :
    Answers s (u.answer k r phase .result).resume k r phase .result := by
  refine ⟨?_, ?_, same.channel, same.channelOpen, same.abort, same.entry, same.dispatched, told,
    Or.inl ⟨rfl, same.ended⟩, same.link, fun says' => Or.inl (dead says'),
    fun torn => (by cases torn), fun commit => absurd commit other, fun _ => kept⟩
  · exact congrArg (fun rs => rs.set k { r with phase := phase }) same.requests
  · exact congrArg (· ++ [(k, Answer.result)]) same.answers

/-- An answer after which the transaction is rolled back. -/
theorem Answers.cuts (same : Same s u) {tag : Answer} (told : tells tag phase = true)
    {reason : TxEnd} (cut : reason = .abort ∨ reason = .deadline)
    (teardown : tag = .teardown → TellsTeardown r.command phase)
    (other : r.command ≠ .commit)
    (kept : u.commitFrom = s.commitFrom ∧ u.committed = s.committed) :
    Answers s ((u.answer k r phase tag).leave reason) k r phase tag := by
  refine ⟨?_, ?_, same.channel, same.channelOpen, same.abort, same.entry, same.dispatched, told,
    Or.inr ⟨rfl, reason, rfl⟩, same.link, ?_, teardown, fun commit => absurd commit other,
    fun _ => kept⟩
  · exact congrArg (fun rs => rs.set k { r with phase := phase }) same.requests
  · exact congrArg (· ++ [(k, tag)]) same.answers
  · intro _
    right
    rcases cut with same' | same'
    · exact Or.inl (congrArg some same')
    · exact Or.inr (congrArg some same')

end Shapes

/-! ## One lemma for each kind of command -/

theorem isBackendError_of_canAnswer {link sent : Bool} {e : PoolError}
    (can : canAnswer link sent (some e) = true) : isBackendError e = true := by
  cases e with
  | sql code branch sqlstate errno message => exact (Bool.and_eq_true_iff.mp can).2
  | _ => rfl

theorem after_lost (s : State) (sent : Bool) (status : TxStatus) :
    (s.after sent (some .connectionLost) status).link = false :=
  Bool.and_false _

theorem terminalSaysFinished_buildTerminalBody (result : QueryResult) (fetch queueUs execUs : Nat) :
    terminalSaysFinished
      (errorTerminal (AutocommitExec.buildTerminalBody result fetch queueUs execUs)) = false := by
  have fits : ∀ body : List UInt8, terminalSaysFinished (errorTerminal
      (if body.length + AutocommitExec.outcomeOkOverhead > AutocommitExec.maxFramePayload then
        .error (unsupported ("buffered result exceeds one frame; re-issue with fetch=stream to " ++
          "receive it incrementally over the DATA channel"))
      else .ok body)) = false := by
    intro body
    split_ifs
    · rfl
    · rfl
  exact fits _

/-- A refusal of a verb that did nothing leaves the transaction open. -/
theorem decode_noEffect {verb : TxVerb} {rows : Decoded}
    {outcome : Except ErrorPayload (List UInt8)} (decoded : verb.decode rows = .noEffect outcome) :
    terminalSaysFinished (errorTerminal outcome) = false := by
  have shape : ∀ {outcome}, verb.unreadable = .noEffect outcome →
      terminalSaysFinished (errorTerminal outcome) = false := by
    intro outcome unreadable
    unfold TxVerb.unreadable at unreadable
    split_ifs at unreadable
    cases unreadable
    rfl
  unfold TxVerb.decode at decoded
  split_ifs at decoded
  · exact shape decoded
  · cases rows with
    | applied body wakes => cases decoded
    | lost =>
      cases decoded
      rfl
    | found body =>
      cases decoded
      rfl
    | malformed => exact shape decoded

/-- A statement's own error is no report of a dead transaction unless the link is lost. -/
theorem link_of_dead {s : State} {sent : Bool} {e : PoolError} (status : TxStatus)
    {readonly inTx : Bool} (can : canAnswer s.link sent (some e) = true)
    (other : is57014 e = false ∨ inTx = false)
    (dead : saysFinished
      (classifyFate e { readonly := readonly, sent := true, inTx := inTx }) = true) :
    (s.after sent (some e) status).link = false := by
  rcases saysFinished_classifyFate_sent (isBackendError_of_canAnswer can) dead with
    lost | ⟨cancelled, inTx'⟩
  · rw [lost]
    exact after_lost s sent status
  · rcases other with other | other
    · rw [other] at cancelled
      cases cancelled
    · rw [other] at inTx'
      cases inTx'

section Commands

variable {s t : State} {k : Nat} {r : Request} {sent : Bool} {label : Label}

theorem execStep_answers (other : r.command ≠ .commit)
    (moved : execStep s k r sent label = some t) :
    ∃ phase tag, Answers s t k r phase tag := by
  unfold execStep at moved
  split at moved
  · next result execUs _ status =>
    split_ifs at moved with can
    simp only at moved
    have same := same_after s sent (failure result) status
    cases result with
    | ok result =>
      cases moved
      refine ⟨_, _, .resumes same rfl ?_ other ⟨rfl, rfl⟩⟩
      intro dead
      unfold saysDead terminalOf declare at dead
      rw [Option.map_some, Option.getD_some, terminalSaysFinished_buildTerminalBody] at dead
      cases dead
    | error e =>
      simp only at moved
      split_ifs at moved with cancelled
      · cases moved
        exact ⟨_, _, .cuts same rfl (Or.inr rfl) (fun _ => ⟨_, rfl, Or.inl rfl⟩) other ⟨rfl, rfl⟩⟩
      · cases moved
        refine ⟨_, _, .resumes same rfl ?_ other ⟨rfl, rfl⟩⟩
        intro dead
        exact link_of_dead status can (Or.inl (Bool.eq_false_iff.mpr cancelled)) dead
  · next status =>
    cases moved
    exact ⟨_, _, .cuts (same_after s sent none status) rfl (Or.inr rfl)
      (fun _ => ⟨_, rfl, Or.inl rfl⟩) other ⟨rfl, rfl⟩⟩
  · next status =>
    split_ifs at moved
    cases moved
    exact ⟨_, _, .cuts (same_after s sent none status) rfl (Or.inl rfl) (fun _ => trivial) other
      ⟨rfl, rfl⟩⟩
  · cases moved

theorem savepointStep_answers (other : r.command ≠ .commit)
    (moved : savepointStep s k r sent label = some t) :
    ∃ phase tag, Answers s t k r phase tag := by
  unfold savepointStep at moved
  split at moved
  · next result status =>
    split_ifs at moved with can
    cases moved
    have same : Same s { s.after sent (failure result) status with
        savepoints := settleSavepoint s.savepoints r.command (failure result).isNone } :=
      ⟨rfl, rfl, rfl, rfl, rfl, rfl, rfl, rfl,
        (same_after s sent (failure result) status).link⟩
    refine ⟨_, _, .resumes same rfl ?_ other ⟨rfl, rfl⟩⟩
    intro dead
    cases result with
    | ok _ => cases dead
    | error e => exact link_of_dead status can (Or.inr rfl) dead
  · cases moved

theorem rollbackStep_answers (rollback : r.command = .rollback)
    (moved : rollbackStep s k r sent label = some t) :
    ∃ phase tag, Answers s t k r phase tag := by
  have other : r.command ≠ .commit := by
    rw [rollback]
    exact TxCommand.noConfusion
  unfold rollbackStep at moved
  split at moved
  · next result status =>
    split_ifs at moved with can
    cases moved
    have same := same_after s sent (failure result) status
    refine ⟨.replied (.ctl (ctlReply result)), .result, rfl, rfl, rfl, rfl, rfl, rfl, rfl, rfl,
      Or.inr ⟨rfl, .ended, rfl⟩, same.link, ?_, fun torn => (by cases torn),
      fun commit => absurd commit other, fun _ => ⟨rfl, rfl⟩⟩
    intro dead
    left
    cases result with
    | ok _ => cases dead
    | error e => exact link_of_dead status can (Or.inr rfl) dead
  · cases moved

theorem commitStep_answers (commit : r.command = .commit)
    (moved : commitStep s k r sent label = some t) :
    ∃ phase tag, Answers s t k r phase tag := by
  unfold commitStep at moved
  split at moved
  · next result status =>
    split_ifs at moved with can
    simp only at moved
    have same := same_after s sent (failure result) status
    cases result with
    | ok _ =>
      cases moved
      have link : s.link = true := (Bool.and_eq_true_iff.mp can).2
      refine ⟨.replied (.ctl .ok), .result, rfl, rfl, rfl, rfl, rfl, rfl, rfl, rfl,
        Or.inr ⟨rfl, .ended, rfl⟩, same.link, fun dead => (by cases dead),
        fun torn => (by cases torn), ?_, ?_⟩
      · intro _ _
        refine ⟨rfl, ?_, rfl, rfl⟩
        exact Bool.and_eq_true_iff.mpr ⟨link, rfl⟩
      · intro failed
        have no := failed commit
        cases no
    | error e =>
      cases moved
      refine ⟨.replied (.ctl (.err e)), .result, rfl, rfl, rfl, rfl, rfl, rfl, rfl, rfl,
        Or.inr ⟨rfl, .ended, rfl⟩, same.link, ?_, fun torn => (by cases torn),
        fun _ ok => (by cases ok), fun _ => ⟨rfl, rfl⟩⟩
      intro dead
      exact Or.inl (link_of_dead status can (Or.inr rfl) dead)
  · cases moved

theorem produced_answers {u : State} (same : Same s u) (other : r.command ≠ .commit)
    (kept : u.commitFrom = s.commitFrom ∧ u.committed = s.committed) {terminal : Terminal}
    {ended : StreamEnded}
    (dead : terminalSaysFinished terminal = true → ended = .intact → u.link = false) :
    Answers s (produced u k r terminal ended) k r (.done terminal) .result := by
  unfold produced
  cases ended with
  | intact =>
    refine .resumes same rfl ?_ other kept
    intro says'
    exact dead says' rfl
  | broken =>
    simp only
    split_ifs
    · exact .cuts same rfl (Or.inl rfl) (fun torn => (by cases torn)) other kept
    · exact .cuts same rfl (Or.inr rfl) (fun torn => (by cases torn)) other kept

theorem streamStep_answers (other : r.command ≠ .commit)
    (moved : streamStep s k r sent label = some t) :
    ∃ phase tag, Answers s t k r phase tag := by
  unfold streamStep at moved
  split at moved
  · next outcome status =>
    split_ifs at moved with can
    cases moved
    refine ⟨_, _, produced_answers (same_after s sent (streamFailure outcome) status) other
      ⟨rfl, rfl⟩ ?_⟩
    intro dead intact
    cases outcome with
    | finished body => cases dead
    | failed e =>
      have open' : is57014 e = false := by
        rw [Bool.eq_false_iff]
        intro cancelled
        have broken := (endedBy_broken (is57014 e)).mpr cancelled
        exact StreamEnded.noConfusion (intact.symm.trans broken)
      exact link_of_dead status can (Or.inl open') dead
    | stopped e => cases intact
    | finishFails e => cases intact
  · cases moved

theorem copyStep_answers (other : r.command ≠ .commit)
    (moved : copyStep s k r sent label = some t) :
    ∃ phase tag, Answers s t k r phase tag := by
  unfold copyStep at moved
  split at moved
  · next terminal ended lost status =>
    by_cases agrees : ended = endedBy (terminalSaysFinished terminal)
    · rw [if_pos agrees] at moved
      cases moved
      refine ⟨_, _, produced_answers (same_after s sent _ status) other ⟨rfl, rfl⟩ ?_⟩
      intro dead intact
      rw [agrees, dead] at intact
      cases intact
    · rw [if_neg agrees] at moved
      cases moved
  · cases moved

/-- A queue verb may go on with its next step. -/
theorem queueStep_answers {step : Nat} {verb : TxVerb} (other : r.command ≠ .commit)
    (moved : queueStep s k step sent r verb label = some t) :
    (∃ phase tag, Answers s t k r phase tag) ∨
      (sent = true ∧ Same s t ∧ t.actor = .running k (step + 1) false ∧
        t.commitFrom = s.commitFrom ∧ t.committed = s.committed) := by
  unfold queueStep at moved
  split at moved
  · split_ifs at moved
    cases moved
    have same : Same s s := ⟨rfl, rfl, rfl, rfl, rfl, rfl, rfl, rfl, id⟩
    exact Or.inl ⟨_, _, .resumes same rfl (fun dead => (by cases dead)) other ⟨rfl, rfl⟩⟩
  · next result _ rows status =>
    by_cases can : canAnswer s.link sent (failure result) = true
    swap
    · rw [if_neg can] at moved
      cases moved
    rw [if_pos can] at moved
    simp only at moved
    have same := same_after s sent (failure result) status
    cases result with
    | ok result =>
      simp only at moved
      split_ifs at moved
      · cases moved
        right
        refine ⟨(Bool.and_eq_true_iff.mp can).1, ?_, rfl, rfl, rfl⟩
        exact ⟨rfl, rfl, rfl, rfl, rfl, rfl, rfl, rfl, same.link⟩
      · cases moved
        left
        unfold decodeStep
        split
        · next body wakes _ =>
          have same' : Same s { s.after sent (failure (.ok result)) status with
              afterCommit := (s.after sent (failure (.ok result)) status).afterCommit + wakes } :=
            ⟨rfl, rfl, rfl, rfl, rfl, rfl, rfl, rfl, same.link⟩
          exact ⟨_, _, .resumes same' rfl (fun dead => (by cases dead)) other ⟨rfl, rfl⟩⟩
        · next outcome decoded =>
          refine ⟨_, _, .resumes same rfl ?_ other ⟨rfl, rfl⟩⟩
          intro dead
          unfold saysDead terminalOf declare at dead
          rw [Option.map_some, Option.getD_some, decode_noEffect decoded] at dead
          cases dead
        · exact ⟨_, _, .cuts same rfl (Or.inr rfl) (fun torn => (by cases torn)) other ⟨rfl, rfl⟩⟩
    | error e =>
      simp only at moved
      split_ifs at moved with cancelled
      · cases moved
        exact Or.inl ⟨_, _, .cuts same rfl (Or.inr rfl) (fun _ => ⟨_, rfl, Or.inl rfl⟩) other
          ⟨rfl, rfl⟩⟩
      · left
        split at moved
        · cases moved
          exact ⟨_, _, .cuts same rfl (Or.inr rfl) (fun torn => (by cases torn)) other ⟨rfl, rfl⟩⟩
        · cases moved
          refine ⟨_, _, .resumes same rfl ?_ other ⟨rfl, rfl⟩⟩
          intro dead
          exact link_of_dead status can (Or.inl (Bool.eq_false_iff.mpr cancelled)) dead
  · next status =>
    cases moved
    exact Or.inl ⟨_, _, .cuts (same_after s sent none status) rfl (Or.inr rfl)
      (fun _ => ⟨_, rfl, Or.inl rfl⟩) other ⟨rfl, rfl⟩⟩
  · next status =>
    split_ifs at moved
    cases moved
    exact Or.inl ⟨_, _, .cuts (same_after s sent none status) rfl (Or.inl rfl) (fun _ => trivial)
      other ⟨rfl, rfl⟩⟩
  · cases moved

theorem commandStep_answers {step : Nat} (moved : commandStep s k step sent r label = some t) :
    (∃ phase tag, Answers s t k r phase tag) ∨
      (sent = true ∧ Same s t ∧ t.actor = .running k (step + 1) false ∧
        t.commitFrom = s.commitFrom ∧ t.committed = s.committed) := by
  unfold commandStep at moved
  split at moved
  · next command =>
    exact Or.inl (execStep_answers (by rw [command]; exact TxCommand.noConfusion) moved)
  · next command =>
    exact Or.inl (streamStep_answers (by rw [command]; exact TxCommand.noConfusion) moved)
  · next command =>
    exact Or.inl (copyStep_answers (by rw [command]; exact TxCommand.noConfusion) moved)
  · next command =>
    exact queueStep_answers (by rw [command]; exact TxCommand.noConfusion) moved
  · next command => exact Or.inl (commitStep_answers command moved)
  · next command => exact Or.inl (rollbackStep_answers command moved)
  · next command =>
    exact Or.inl (savepointStep_answers (by rw [command]; exact TxCommand.noConfusion) moved)
  · next command =>
    exact Or.inl (savepointStep_answers (by rw [command]; exact TxCommand.noConfusion) moved)
  · next command =>
    exact Or.inl (savepointStep_answers (by rw [command]; exact TxCommand.noConfusion) moved)

end Commands

/-! ## Everything a step can do -/

inductive Move (s t : State) : Prop where
  | arrive (r : Request) (unsent : r.sent = false)
      (fresh : r.phase = .resolved ∨ ∃ p, r.phase = .done (.error p) ∧
        (saysFinished p = true → s.entry = .tombstoned))
      (same : t = { s with requests := s.requests ++ [r] })
  | refuse (k : Nat) (r : Request) (p : ErrorPayload) (found : s.requests[k]? = some r)
      (phase : r.phase = .resolved) (dead : saysFinished p = true → s.entry = .tombstoned)
      (same : t = s.setPhase k r (.done (.error p)))
  | send (k : Nat) (r : Request) (found : s.requests[k]? = some r) (phase : r.phase = .resolved)
      (channelOpen : s.channelOpen = true)
      (same : t = { s with
        requests := s.requests.set k { r with phase := .queued, sent := true }
        channel := s.channel ++ [k] })
  | declare (k : Nat) (r : Request) (reply : Reply) (found : s.requests[k]? = some r)
      (phase : r.phase = .replied reply)
      (same : t = s.setPhase k r (.done (TxCommands.declare r.command reply)))
  | recover (k : Nat) (r : Request) (p : ErrorPayload) (found : s.requests[k]? = some r)
      (phase : r.phase = .dropped) (teardown : isTeardown p)
      (dead : saysFinished p = true → s.entry = .tombstoned)
      (same : t = s.setPhase k r (.done (.error p)))
  | abort (same : t = { s with abort := true })
  | forget (same : t = { s with entry := .gone })
  | leave (reason : TxEnd) (idle : s.actor = .idle) (cut : reason = .abort ∨ reason = .deadline)
      (same : t = s.leave reason)
  | take (k : Nat) (rest : List Nat) (r : Request) (savepoints : SavepointStack)
      (idle : s.actor = .idle) (channel : s.channel = k :: rest) (found : s.requests[k]? = some r)
      (same : t = { s with
        channel := rest
        requests := s.requests.set k { r with phase := .taken }
        actor := .running k 0 false
        savepoints := savepoints })
  | decline (k : Nat) (rest : List Nat) (r : Request) (idle : s.actor = .idle)
      (channel : s.channel = k :: rest) (found : s.requests[k]? = some r)
      (other : r.command ≠ .commit)
      (same : t = ({ s with channel := rest }.reply k r (.ctl .unknownSavepoint)).resume)
  | dispatch (k step : Nat) (running : s.actor = .running k step false)
      (same : t = { s with
        actor := .running k step true
        dispatched := s.dispatched ++ [(k, step)] })
  | answer (k step : Nat) (sent : Bool) (r : Request) (phase : Phase) (tag : Answer)
      (running : s.actor = .running k step sent) (found : s.requests[k]? = some r)
      (answers : Answers s t k r phase tag)
  | goOn (k step : Nat) (running : s.actor = .running k step true) (same : Same s t)
      (actor : t.actor = .running k (step + 1) false)
      (kept : t.commitFrom = s.commitFrom ∧ t.committed = s.committed)
  | tearDown (reason : TxEnd) (rolledBack : Bool) (tearing : s.actor = .tearing)
      (ended : s.ended = some reason) (same : t = tearDownStep s reason rolledBack)
  | drain (reason : TxEnd) (closing : s.actor = .closing) (ended : s.ended = some reason)
      (same : t = drainStep s reason)

theorem actorGone_dead (entry : Entry) :
    isTeardown (actorGoneTerminal entry.lookup) ∧
      (saysFinished (actorGoneTerminal entry.lookup) = true → entry = .tombstoned) := by
  cases entry with
  | active => exact ⟨Or.inr (Or.inl rfl), fun dead => (by cases dead)⟩
  | tombstoned => exact ⟨Or.inl rfl, fun _ => rfl⟩
  | gone => exact ⟨Or.inr (Or.inl rfl), fun dead => (by cases dead)⟩

section Moves

variable {s t : State}

theorem resolveActive_dead {entry : Entry} {p : ErrorPayload}
    (failed : resolveActive entry.lookup = .error p) (dead : saysFinished p = true) :
    entry = .tombstoned := by
  cases entry with
  | active => cases failed
  | tombstoned => rfl
  | gone =>
    cases failed
    cases dead

theorem arrive_moves (command : TxCommand) : Move s (arrive s command) := by
  unfold arrive
  split
  · exact .arrive _ rfl (Or.inl rfl) rfl
  · next p failed => exact .arrive _ rfl (Or.inr ⟨p, rfl, resolveActive_dead failed⟩) rfl

theorem send_moves {k : Nat} (moved : send s k = some t) : Move s t := by
  unfold send at moved
  split at moved
  · next command sent found =>
    split_ifs at moved with closed room
    · cases moved
      exact .refuse k _ _ found rfl (actorGone_dead s.entry).2 rfl
    · cases moved
      exact .send k _ found rfl (by rw [← Bool.not_eq_false]; exact closed) rfl
  · cases moved

theorem declareStep_moves {k : Nat} (moved : declareStep s k = some t) : Move s t := by
  unfold declareStep at moved
  split at moved
  · next command reply sent found =>
    cases moved
    exact .declare k _ reply found rfl rfl
  · next command sent found =>
    cases moved
    obtain ⟨teardown, dead⟩ := actorGone_dead s.entry
    exact .recover k _ _ found rfl teardown dead rfl
  · cases moved

theorem takeStep_moves (idle : s.actor = .idle) (moved : takeStep s = some t) : Move s t := by
  unfold takeStep at moved
  split_ifs at moved
  split at moved
  · cases moved
  · next k rest channel =>
    split at moved
    · next r found =>
      cases moved
      unfold begin
      simp only
      split
      · exact .take k rest r _ idle channel found rfl
      · next name command =>
        split
        · exact .take k rest r _ idle channel found rfl
        · exact .decline k rest r idle channel found (by rw [command]; exact TxCommand.noConfusion)
            rfl
      · next name command =>
        split
        · exact .take k rest r _ idle channel found rfl
        · exact .decline k rest r idle channel found (by rw [command]; exact TxCommand.noConfusion)
            rfl
      · exact .take k rest r _ idle channel found rfl
    · cases moved

theorem runningStep_moves {k step : Nat} {sent : Bool} {label : Label}
    (running : s.actor = .running k step sent)
    (moved : runningStep s k step sent label = some t) : Move s t := by
  unfold runningStep at moved
  split at moved
  · split_ifs at moved with sent'
    cases moved
    rw [Bool.not_eq_true] at sent'
    rw [sent'] at running
    exact .dispatch k step running rfl
  · split at moved
    · next r found =>
      rcases commandStep_answers moved with ⟨phase, tag, answers⟩ | ⟨sent', same, actor, kept⟩
      · exact .answer k step sent r phase tag running found answers
      · rw [sent'] at running
        exact .goOn k step running same actor kept
    · cases moved

theorem actorStep_moves {label : Label} (moved : actorStep s label = some t) : Move s t := by
  unfold actorStep at moved
  split at moved
  · next reason idle =>
    unfold endStep at moved
    split at moved
    · split_ifs at moved
      cases moved
      exact .leave _ idle (Or.inl rfl) rfl
    · split_ifs at moved
      cases moved
      exact .leave _ idle (Or.inr rfl) rfl
    · cases moved
  · next idle => exact takeStep_moves idle moved
  · next k step sent _ running => exact runningStep_moves running moved
  · next rolledBack tearing =>
    rw [Option.map_eq_some_iff] at moved
    obtain ⟨reason, ended, same⟩ := moved
    exact .tearDown reason rolledBack tearing ended same.symm
  · next closing =>
    rw [Option.map_eq_some_iff] at moved
    obtain ⟨reason, ended, same⟩ := moved
    exact .drain reason closing ended same.symm
  · cases moved

theorem step_moves {label : Label} (moved : step s label = some t) : Move s t := by
  unfold step at moved
  split at moved
  · cases moved
    exact arrive_moves _
  · exact send_moves moved
  · exact declareStep_moves moved
  · cases moved
    exact .abort rfl
  · split_ifs at moved
    cases moved
    exact .forget rfl
  · split_ifs at moved
    cases moved
    exact .forget rfl
  · exact actorStep_moves moved

end Moves

end FerroEngine.TxActorSteps
