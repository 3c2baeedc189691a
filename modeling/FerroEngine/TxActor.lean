import FerroEngine.LabelledRuns
import FerroEngine.TxCommands

set_option autoImplicit false

/-! # The actor of a transaction

The loop of `tx/actor.rs` with its teardown, the handlers that forward requests to it, and the
backend connection it owns. What a select arm, the backend or the scheduler decides is a label.
-/

namespace FerroEngine.TxActor

open FateMapping TxRegistry TxTable TxTerminals CopyRequests TxCommands
open AutocommitExec (Terminal QueryResult)
open SessionTeardown (TxEnd)

/-! ## State -/

inductive TxStatus where
  | idle
  | inTx
  | failed
  deriving DecidableEq, Repr

/-- The registry's entry of this transaction, as its owner sees it. -/
inductive Entry where
  | active
  | tombstoned
  | gone
  deriving DecidableEq, Repr

def Entry.lookup : Entry → Except LookupErr Unit
  | .active => .ok ()
  | .tombstoned => .error .tombstoned
  | .gone => .error .notFoundOrForbidden

inductive Phase where
  /-- Holds the handle, and has not sent its command. -/
  | resolved
  | queued
  | taken
  | replied (reply : Reply)
  /-- The reply sender is dropped. -/
  | dropped
  | done (terminal : Terminal)

structure Request where
  command : TxCommand
  phase : Phase
  /-- Its command went into the actor's channel. -/
  sent : Bool

inductive Actor where
  /-- At the outer `select!`. -/
  | idle
  /-- Works on a step of a command, whose statement has been dispatched or not. -/
  | running (k step : Nat) (sent : Bool)
  | tearing
  /-- The connection is released and the registry updated. -/
  | closing
  | gone
  deriving DecidableEq, Repr

/-- Whether a command got its own result or the end of the transaction. -/
inductive Answer where
  | result
  | teardown
  deriving DecidableEq, Repr

structure State where
  requests : List Request
  channel : List Nat
  channelOpen : Bool
  actor : Actor
  /-- Why the loop ended. -/
  ended : Option TxEnd
  abort : Bool
  entry : Entry
  savepoints : SavepointStack
  afterCommit : Nat
  fired : Nat
  /-- The status byte of the connection. -/
  status : TxStatus
  /-- The connection has not been lost. -/
  link : Bool
  committed : Bool
  /-- The status in which the backend completed the `COMMIT`. -/
  commitFrom : Option TxStatus
  /-- The steps that went to the backend. -/
  dispatched : List (Nat × Nat)
  /-- The commands that the actor has answered or dropped. -/
  answers : List (Nat × Answer)

def State.start : State :=
  { requests := [], channel := [], channelOpen := true, actor := .idle, ended := none,
    abort := false, entry := .active, savepoints := .new, afterCommit := 0, fired := 0,
    status := .inTx, link := true, committed := false, commitFrom := none, dispatched := [],
    answers := [] }

def txCmdChannelCap : Nat := 16

inductive Label where
  | arrives (command : TxCommand)
  | sends (k : Nat)
  | declares (k : Nat)
  /-- The session's abort token. -/
  | aborts
  | purges
  | evicts
  /-- An arm of the outer `select!` other than the channel. -/
  | ends (reason : TxEnd)
  | takes
  | dispatch
  | cancelledUnsent
  | completes (result : Except PoolError QueryResult) (execUs : Nat) (rows : Decoded)
      (status : TxStatus)
  | interrupts (reason : TxEnd) (status : TxStatus)
  | controls (result : Except PoolError Unit) (status : TxStatus)
  | streams (outcome : StreamOutcome) (status : TxStatus)
  | copies (terminal : Terminal) (ended : StreamEnded) (lost : Bool) (status : TxStatus)
  | tearsDown (rolledBack : Bool)
  | drains

/-! ## The backend -/

/-- A backend's error carries its SQLSTATE, or a code that is not one of the engine's own. -/
def isBackendError : PoolError → Bool
  | .sql code _ sqlstate _ _ =>
    sqlstate.isSome || (code != txDeadlineCode && code != connectionLostCode)
  | _ => true

/-- What can come back: a guard refuses before it dispatches, and a lost connection never answers
again. -/
def canAnswer (link sent : Bool) : Option PoolError → Bool
  | some (.unsupported _) => !sent || link
  | some .connectionLost => sent
  | some err => sent && link && isBackendError err
  | none => sent && link

def failure {α : Type} : Except PoolError α → Option PoolError
  | .ok _ => none
  | .error e => some e

def isLost : Option PoolError → Bool
  | some .connectionLost => true
  | _ => false

/-! ## Answers -/

namespace State

def setPhase (s : State) (k : Nat) (r : Request) (phase : Phase) : State :=
  { s with requests := s.requests.set k { r with phase := phase } }

/-- The actor is done with command `k`. -/
def answer (s : State) (k : Nat) (r : Request) (phase : Phase) (answer : Answer) : State :=
  { s.setPhase k r phase with answers := s.answers ++ [(k, answer)] }

def reply (s : State) (k : Nat) (r : Request) (reply : Reply) : State :=
  s.answer k r (.replied reply) .result

/-- The transaction ends under a command that is in flight. -/
def cut (s : State) (k : Nat) (r : Request) (phase : Phase) (reason : TxEnd) : State :=
  { s.answer k r phase .teardown with actor := .tearing, ended := some reason }

def leave (s : State) (reason : TxEnd) : State :=
  { s with actor := .tearing, ended := some reason }

def resume (s : State) : State :=
  { s with actor := .idle }

/-- A `COMMIT` that the backend completed. PostgreSQL answers that of a failed block with a
rollback and no error; the wake hints fire only for a block that was not failed. -/
def commits (s : State) (before : TxStatus) : State :=
  { s with
    commitFrom := some before
    committed := before == .inTx
    fired := if before = .failed then s.fired else s.fired + s.afterCommit
    afterCommit := if before = .failed then s.afterCommit else 0 }

/-- What a backend call leaves of the connection. -/
def after (s : State) (sent : Bool) (err : Option PoolError) (status : TxStatus) : State :=
  { s with status := if sent then status else s.status, link := s.link && !isLost err }

end State

open State

/-! ## Handlers -/

def arrive (s : State) (command : TxCommand) : State :=
  match resolveActive s.entry.lookup with
  | .ok () =>
    { s with requests := s.requests ++ [{ command := command, phase := .resolved, sent := false }] }
  | .error p =>
    { s with
      requests := s.requests ++ [{ command := command, phase := .done (.error p), sent := false }] }

def send (s : State) (k : Nat) : Option State :=
  match s.requests[k]? with
  | some { command, phase := .resolved, sent } =>
    if s.channelOpen = false then
      some (s.setPhase k { command := command, phase := .resolved, sent := sent }
        (.done (.error (actorGoneTerminal s.entry.lookup))))
    else if s.channel.length < txCmdChannelCap then
      some { s with
        requests := s.requests.set k { command := command, phase := .queued, sent := true }
        channel := s.channel ++ [k] }
    else none
  | _ => none

def declareStep (s : State) (k : Nat) : Option State :=
  match s.requests[k]? with
  | some { command, phase := .replied reply, sent } =>
    some (s.setPhase k { command := command, phase := .replied reply, sent := sent }
      (.done (declare command reply)))
  | some { command, phase := .dropped, sent } =>
    some (s.setPhase k { command := command, phase := .dropped, sent := sent }
      (.done (.error (actorGoneTerminal s.entry.lookup))))
  | _ => none

/-! ## The loop -/

/-- The handles' senders: the registry's, and those of the handlers. -/
def hasSender (s : State) : Bool :=
  s.entry == .active || s.requests.any fun r =>
    match r.phase with
    | .done _ => false
    | _ => true

def endStep (s : State) : TxEnd → Option State
  | .abort =>
    if s.abort ∨ (s.channel = [] ∧ hasSender s = false) then some (s.leave .abort) else none
  | .deadline => if s.abort then none else some (s.leave .deadline)
  | .ended => none

/-- What a command does before its first await. -/
def begin (s : State) (k : Nat) (r : Request) : State :=
  let busy : State :=
    { s with
      requests := s.requests.set k { r with phase := .taken }
      actor := .running k 0 false }
  match r.command with
  | .savepoint name => { busy with savepoints := s.savepoints.push name }
  | .release name | .rollbackTo name =>
    match s.savepoints.resolve name with
    | some _ => busy
    | none => (s.reply k r (.ctl .unknownSavepoint)).resume
  | _ => busy

def takeStep (s : State) : Option State :=
  if s.abort then none
  else match s.channel with
    | [] => none
    | k :: rest =>
      match s.requests[k]? with
      | some r => some (begin { s with channel := rest } k r)
      | none => none

/-! ## A command in flight -/

def execStep (s : State) (k : Nat) (r : Request) (sent : Bool) : Label → Option State
  | .completes result execUs _ status =>
    if canAnswer s.link sent (failure result) then
      let t := s.after sent (failure result) status
      match result with
      | .error e =>
        if is57014 e then some (t.cut k r (.replied .deadline) .deadline)
        else some (t.reply k r (.completed result execUs)).resume
      | .ok _ => some (t.reply k r (.completed result execUs)).resume
    else none
  | .interrupts .deadline status =>
    some ((s.after sent none status).cut k r (.replied .deadline) .deadline)
  | .interrupts .abort status =>
    if s.abort then some ((s.after sent none status).cut k r .dropped .abort) else none
  | _ => none

def decodeStep (s : State) (k : Nat) (r : Request) (verb : TxVerb) (rows : Decoded) : State :=
  match verb.decode rows with
  | .applied body wakes =>
    ({ s with afterCommit := s.afterCommit + wakes }.reply k r (.queueDone (.ok body))).resume
  | .noEffect outcome => (s.reply k r (.queueDone outcome)).resume
  | .unreadable p => (s.reply k r (.queueRolledBack p)).leave .deadline

def queueStep (s : State) (k step : Nat) (sent : Bool) (r : Request) (verb : TxVerb) :
    Label → Option State
  | .cancelledUnsent =>
    if step = 0 ∧ sent = false then
      some (s.reply k r (.queueDone (.error queueCancelledUnsent))).resume
    else none
  | .completes result _ rows status =>
    if canAnswer s.link sent (failure result) then
      let t := s.after sent (failure result) status
      match result with
      | .ok _ =>
        if step < verb.more then some { t with actor := .running k (step + 1) false }
        else some (decodeStep t k r verb rows)
      | .error e =>
        if is57014 e then some (t.cut k r (.replied (.queueRolledBack queueRolledBack)) .deadline)
        else match verb.rollsBackOn e with
          | some p => some ((t.reply k r (.queueRolledBack p)).leave .deadline)
          | none => some (t.reply k r (.queueFailed e)).resume
    else none
  | .interrupts .deadline status =>
    some ((s.after sent none status).cut k r (.replied (.queueRolledBack queueRolledBack)) .deadline)
  | .interrupts .abort status =>
    if s.abort then some ((s.after sent none status).cut k r .dropped .abort) else none
  | _ => none

def commitStep (s : State) (k : Nat) (r : Request) (sent : Bool) : Label → Option State
  | .controls result status =>
    if canAnswer s.link sent (failure result) then
      let t := s.after sent (failure result) status
      match result with
      | .ok () => some (((t.commits s.status).reply k r (.ctl .ok)).leave .ended)
      | .error e => some ((t.reply k r (.ctl (.err e))).leave .ended)
    else none
  | _ => none

def rollbackStep (s : State) (k : Nat) (r : Request) (sent : Bool) : Label → Option State
  | .controls result status =>
    if canAnswer s.link sent (failure result) then
      some (((s.after sent (failure result) status).reply k r (.ctl (ctlReply result))).leave .ended)
    else none
  | _ => none

/-- What the outcome of a savepoint statement leaves of the stack. -/
def settleSavepoint (sp : SavepointStack) (command : TxCommand) (ok : Bool) : SavepointStack :=
  match command, ok with
  | .savepoint _, false => sp.pop
  | .release name, true => (sp.resolve name).elim sp sp.truncateRelease
  | .rollbackTo name, true => (sp.resolve name).elim sp sp.truncateRollbackTo
  | _, _ => sp

def savepointStep (s : State) (k : Nat) (r : Request) (sent : Bool) : Label → Option State
  | .controls result status =>
    if canAnswer s.link sent (failure result) then
      let t : State :=
        { s.after sent (failure result) status with
          savepoints := settleSavepoint s.savepoints r.command (failure result).isNone }
      some (t.reply k r (.ctl (ctlReply result))).resume
    else none
  | _ => none

/-- A producer that has declared its terminal: an intact transaction goes on. -/
def produced (s : State) (k : Nat) (r : Request) (terminal : Terminal) (ended : StreamEnded) :
    State :=
  let t := s.answer k r (.done terminal) .result
  match ended with
  | .intact => t.resume
  | .broken => if s.abort then t.leave .abort else t.leave .deadline

def streamFailure : StreamOutcome → Option PoolError
  | .failed e | .finishFails e => some e
  | _ => none

/-- A stop needs no answer. -/
def canEndStream (link sent : Bool) : StreamOutcome → Bool
  | .stopped _ => true
  | outcome => canAnswer link sent (streamFailure outcome)

def streamStep (s : State) (k : Nat) (r : Request) (sent : Bool) : Label → Option State
  | .streams outcome status =>
    if canEndStream s.link sent outcome then
      let (terminal, ended) := streamTerminal (readonlyOf r.command) outcome
      some (produced (s.after sent (streamFailure outcome) status) k r terminal ended)
    else none
  | _ => none

/-- A COPY's verdict is what its terminal says. -/
def copyStep (s : State) (k : Nat) (r : Request) (sent : Bool) : Label → Option State
  | .copies terminal ended lost status =>
    if ended = endedBy (terminalSaysFinished terminal) then
      some (produced (s.after sent (if lost then some .connectionLost else none) status) k r
        terminal ended)
    else none
  | _ => none

def commandStep (s : State) (k step : Nat) (sent : Bool) (r : Request) (label : Label) :
    Option State :=
  match r.command with
  | .exec _ _ => execStep s k r sent label
  | .execStreamed _ => streamStep s k r sent label
  | .copy _ => copyStep s k r sent label
  | .queue verb => queueStep s k step sent r verb label
  | .commit => commitStep s k r sent label
  | .rollback => rollbackStep s k r sent label
  | .savepoint _ | .release _ | .rollbackTo _ => savepointStep s k r sent label

def runningStep (s : State) (k step : Nat) (sent : Bool) (label : Label) : Option State :=
  match label with
  | .dispatch =>
    if sent then none
    else some { s with actor := .running k step true, dispatched := s.dispatched ++ [(k, step)] }
  | _ =>
    match s.requests[k]? with
    | some r => commandStep s k step sent r label
    | none => none

/-! ## Teardown -/

def Entry.settle (entry : Entry) : TxEnd → Entry
  | .deadline => if entry = .active then .tombstoned else entry
  | _ => .gone

def tearDownStep (s : State) (reason : TxEnd) (rolledBack : Bool) : State :=
  { s with
    actor := .closing
    entry := s.entry.settle reason
    status := if reason ≠ .ended ∧ rolledBack = true then .idle else s.status }

/-- `drain_buffered_on_teardown`. -/
def drainRequest (reason : TxEnd) (r : Request) : Request :=
  match r.phase with
  | .queued =>
    match r.command with
    | .execStreamed _ | .copy _ => { r with phase := .done (.error (tornDown reason)) }
    | _ => { r with phase := .dropped }
  | _ => r

def drainStep (s : State) (reason : TxEnd) : State :=
  { s with
    requests := s.requests.map (drainRequest reason)
    answers := s.answers ++ s.channel.map fun k => (k, .teardown)
    channel := []
    channelOpen := false
    actor := .gone }

/-! ## Steps -/

def actorStep (s : State) (label : Label) : Option State :=
  match s.actor, label with
  | .idle, .ends reason => endStep s reason
  | .idle, .takes => takeStep s
  | .running k step sent, label => runningStep s k step sent label
  | .tearing, .tearsDown rolledBack => s.ended.map fun reason => tearDownStep s reason rolledBack
  | .closing, .drains => s.ended.map fun reason => drainStep s reason
  | _, _ => none

def step (s : State) (label : Label) : Option State :=
  match label with
  | .arrives command => some (arrive s command)
  | .sends k => send s k
  | .declares k => declareStep s k
  | .aborts => some { s with abort := true }
  -- The final sweep of `abort_session` follows its aborts.
  | .purges => if s.abort then some { s with entry := .gone } else none
  | .evicts => if s.entry = .tombstoned then some { s with entry := .gone } else none
  | _ => actorStep s label

end FerroEngine.TxActor
