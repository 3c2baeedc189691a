import FerroEngine.LabelledRuns
import FerroEngine.TxRegistry

set_option autoImplicit false

/-! # Transactions and the end of their session

`begin_on_pool`, the life of a transaction's actor, and the shutdown of `run_with_handler` with
`abort_session`, as steps of tasks that a scheduler interleaves.
-/

namespace FerroEngine.SessionTeardown

open TxRegistry

/-! ## Tasks -/

/-- Where the handler of a `BEGIN` stands. -/
inductive BeginPhase where
  | checkout
  /-- The backend's `BEGIN` is in flight on the pinned connection. -/
  | opening (txId : Nat)
  | registering (txId : Nat)
  | spawning (txId : Nat)
  | ended
  deriving DecidableEq, Repr

structure Begin where
  owner : Nat
  phase : BeginPhase
  deriving DecidableEq, Repr

/-- A handler that forwards a command, with its clone of the transaction's handle. -/
structure Forwarder where
  caller : Nat
  txId : Nat
  live : Bool
  deriving DecidableEq, Repr

inductive TxEnd where
  | ended
  | abort
  | deadline
  deriving DecidableEq, Repr

inductive ActorPhase where
  /-- Registered, and not spawned yet. -/
  | registered
  /-- At the outer `select!`. -/
  | serving
  /-- Runs a command. -/
  | running
  | tearing (reason : TxEnd)
  /-- The `Checkout` is dropped. -/
  | dropped (reason : TxEnd)
  | unregistered
  | done
  deriving DecidableEq, Repr

/-- How the connection went back to the pool. -/
inductive Settled where
  /-- After the client's `COMMIT` or `ROLLBACK`. -/
  | ended
  | rolledBack
  /-- The rollback failed or timed out: the next checkout resets or evicts the connection. -/
  | tainted
  deriving DecidableEq, Repr

structure Actor where
  owner : Nat
  aborted : Bool
  /-- Commands in the channel. -/
  queued : Nat
  phase : ActorPhase
  settled : Option Settled
  deriving DecidableEq, Repr

/-- Where the shutdown of a session stands. -/
inductive Teardown where
  /-- The reader loop runs. -/
  | serving
  /-- `liveness.end()` and `cancel_all()` are done. -/
  | cancelled
  | collected (handles : List Nat)
  | aborting (handles : List Nat)
  /-- Every actor has signalled, or the deadline has passed. -/
  | waited
  | purged
  | finished
  deriving DecidableEq, Repr

structure Engine where
  table : TxTable
  nextTxId : Nat
  actors : Nat → Option Actor
  begins : List Begin
  forwarders : List Forwarder
  teardown : Nat → Teardown

def Engine.start : Engine :=
  { table := .empty, nextTxId := 1, actors := fun _ => none, begins := [], forwarders := [],
    teardown := fun _ => .serving }

namespace Engine

def setActor (s : Engine) (txId : Nat) (a : Actor) : Engine :=
  { s with actors := Function.update s.actors txId (some a) }

def setBegin (s : Engine) (h owner : Nat) (phase : BeginPhase) : Engine :=
  { s with begins := s.begins.set h { owner := owner, phase := phase } }

def setTeardown (s : Engine) (sid : Nat) (phase : Teardown) : Engine :=
  { s with teardown := Function.update s.teardown sid phase }

end Engine

/-! ## The actor -/

/-- The handles that `abort_session` holds while it waits. -/
def Teardown.holds (txId : Nat) : Teardown → Bool
  | .collected handles | .aborting handles => handles.contains txId
  | _ => false

/-- Some sender of the actor's command channel is alive. -/
def hasSender (s : Engine) (txId owner : Nat) : Bool :=
  (match s.table.map txId with
    | some (.active _) => true
    | _ => false) ||
    s.forwarders.any (fun f => f.live && f.txId == txId) ||
    (s.teardown owner).holds txId

inductive Outcome where
  | continues
  | ends (reason : TxEnd)
  deriving DecidableEq, Repr

inductive ActorOp where
  | stopped
  /-- The idle or the maximum timer fires. -/
  | expired
  | command
  | closed
  | completes (outcome : Outcome)
  /-- The teardown's `ROLLBACK`, where there is one, and the drop of the `Checkout`. -/
  | release (rolledBack : Bool)
  | unregister
  | signal
  deriving DecidableEq, Repr

/-- A session abort ends a command only when the token has fired. -/
def canEnd (a : Actor) : TxEnd → Bool
  | .abort => a.aborted
  | _ => true

def settle (reason : TxEnd) (rolledBack : Bool) : Settled :=
  match reason with
  | .ended => .ended
  | _ => if rolledBack then .rolledBack else .tainted

def actorStep (s : Engine) (txId : Nat) (a : Actor) (op : ActorOp) : Option Engine :=
  match a.phase, op with
  -- The `select!` is biased: abort, timers, then the channel.
  | .serving, .stopped =>
    if a.aborted then some (s.setActor txId { a with phase := .tearing .abort }) else none
  | .serving, .expired =>
    if a.aborted then none else some (s.setActor txId { a with phase := .tearing .deadline })
  | .serving, .command =>
    if a.aborted ∨ a.queued = 0 then none
    else some (s.setActor txId { a with phase := .running, queued := a.queued - 1 })
  | .serving, .closed =>
    if a.aborted ∨ a.queued ≠ 0 ∨ hasSender s txId a.owner then none
    else some (s.setActor txId { a with phase := .tearing .abort })
  | .running, .completes .continues => some (s.setActor txId { a with phase := .serving })
  | .running, .completes (.ends reason) =>
    if canEnd a reason then some (s.setActor txId { a with phase := .tearing reason }) else none
  | .tearing reason, .release rolledBack =>
    some (s.setActor txId
      { a with phase := .dropped reason, settled := some (settle reason rolledBack) })
  | .dropped reason, .unregister =>
    let table := match reason with
      | .deadline => s.table.tombstone txId
      | _ => s.table.deregister txId
    some { s.setActor txId { a with phase := .unregistered } with table := table }
  | .unregistered, .signal => some (s.setActor txId { a with phase := .done, queued := 0 })
  | _, _ => none

/-- `cmd_tx.send(..)`: the channel is closed once the actor has torn down. -/
def enqueueCommand (s : Engine) (txId : Nat) : Engine :=
  match s.actors txId with
  | some a =>
    if a.phase = .done then s else s.setActor txId { a with queued := a.queued + 1 }
  | none => s

/-! ## The shutdown -/

/-- `handle.abort.cancel()` for every collected handle. -/
def fireAborts (actors : Nat → Option Actor) (handles : List Nat) : Nat → Option Actor :=
  fun txId =>
    if handles.contains txId then (actors txId).map fun a => { a with aborted := true }
    else actors txId

def isDone (s : Engine) (txId : Nat) : Bool :=
  match s.actors txId with
  | some a => a.phase == .done
  | none => true

/-- Every request of the session has ended. -/
def drained (s : Engine) (sid : Nat) : Bool :=
  s.begins.all (fun b => b.owner != sid || b.phase == .ended) &&
    s.forwarders.all (fun f => f.caller != sid || !f.live)

/-- The next statement of the shutdown; `expired` says that the wait's deadline has passed. -/
def shutdownStep (s : Engine) (sid : Nat) (expired : Bool) : Option Engine :=
  match s.teardown sid with
  | .serving => some (s.setTeardown sid .cancelled)
  | .cancelled => some (s.setTeardown sid (.collected (s.table.handles sid s.nextTxId)))
  | .collected handles =>
    some { s.setTeardown sid (.aborting handles) with actors := fireAborts s.actors handles }
  | .aborting handles =>
    if expired || handles.all (isDone s) then some (s.setTeardown sid .waited) else none
  | .waited => some { s.setTeardown sid .purged with table := s.table.purge sid }
  | .purged => if expired || drained s sid then some (s.setTeardown sid .finished) else none
  | .finished => none

/-! ## Steps -/

inductive Label where
  /-- The reader accepts a `BEGIN`. -/
  | begin (sid : Nat)
  | checkout (h : Nat) (ok : Bool)
  | beginTx (h : Nat) (ok : Bool)
  | register (h : Nat)
  | spawn (h : Nat)
  /-- A tx-scoped request looks up its transaction. -/
  | lookup (sid txId : Nat)
  | send (f : Nat)
  /-- The forwarding handler ends. -/
  | release (f : Nat)
  | actor (txId : Nat) (op : ActorOp)
  | shutdown (sid : Nat) (expired : Bool)
  deriving DecidableEq, Repr

/-- The next statement of a `BEGIN` handler. -/
def beginStep (s : Engine) (h : Nat) (b : Begin) : Label → Option Engine
  | .checkout _ ok =>
    if b.phase = .checkout then
      if ok then
        some { s.setBegin h b.owner (.opening s.nextTxId) with nextTxId := s.nextTxId + 1 }
      else some (s.setBegin h b.owner .ended)
    else none
  | .beginTx _ ok =>
    match b.phase with
    | .opening txId => some (s.setBegin h b.owner (if ok then .registering txId else .ended))
    | _ => none
  | .register _ =>
    match b.phase with
    | .registering txId =>
      some { (s.setBegin h b.owner (.spawning txId)).setActor txId
          { owner := b.owner, aborted := false, queued := 0, phase := .registered,
            settled := none } with
        table := s.table.register txId b.owner }
    | _ => none
  | .spawn _ =>
    match b.phase with
    | .spawning txId =>
      match s.actors txId with
      | some a => some ((s.setBegin h b.owner .ended).setActor txId { a with phase := .serving })
      | none => none
    | _ => none
  | _ => none

def step (s : Engine) (label : Label) : Option Engine :=
  match label with
  | .begin sid =>
    if s.teardown sid = .serving then
      some { s with begins := s.begins ++ [{ owner := sid, phase := .checkout }] }
    else none
  | .checkout h _ | .beginTx h _ | .register h | .spawn h =>
    (s.begins[h]?).bind fun b => beginStep s h b label
  | .lookup sid txId =>
    match s.table.lookup txId sid with
    | .ok () =>
      some { s with forwarders := s.forwarders ++ [{ caller := sid, txId := txId, live := true }] }
    | .error _ => some s
  | .send f =>
    (s.forwarders[f]?).bind fun q => if q.live then some (enqueueCommand s q.txId) else none
  | .release f =>
    (s.forwarders[f]?).map fun q => { s with forwarders := s.forwarders.set f { q with live := false } }
  | .actor txId op => (s.actors txId).bind fun a => actorStep s txId a op
  | .shutdown sid expired => shutdownStep s sid expired

end FerroEngine.SessionTeardown
