import FerroEngine.CopyRequests
import FerroEngine.SessionTeardown

set_option autoImplicit false

/-! # Commands of a transaction

`TxCommand`, the replies of the actor, the savepoint stack of `tx/actor.rs`, and the terminals that
the forwarding handlers declare from a reply.
-/

namespace FerroEngine.TxCommands

open FateMapping TxTerminals CopyRequests
open AutocommitExec (Terminal QueryResult StreamSendError buildTerminalBody sendErrToPoolError)
open SessionTeardown (TxEnd)

/-- A tx-scoped queue verb; its decoder runs on the results of all its steps. -/
structure TxVerb where
  verb : String
  store : String
  /-- `SIZE`, which has no effect. -/
  read : Bool
  /-- Steps after the first. -/
  more : Nat
  deriving DecidableEq, Repr

inductive TxCommand where
  | exec (readonly : Bool) (fetch : Nat)
  | execStreamed (readonly : Bool)
  | copy (readonly : Bool)
  | queue (verb : TxVerb)
  | savepoint (name : Option String)
  | release (name : Option String)
  | rollbackTo (name : Option String)
  | commit
  | rollback
  deriving DecidableEq, Repr

/-! ## Savepoints -/

structure SavepointEntry where
  engineName : String
  clientName : Option String
  deriving DecidableEq, Repr

structure SavepointStack where
  counter : Nat
  /-- The top comes last. -/
  stack : List SavepointEntry
  deriving DecidableEq, Repr

namespace SavepointStack

def new : SavepointStack :=
  { counter := 0, stack := [] }

def push (sp : SavepointStack) (clientName : Option String) : SavepointStack :=
  { counter := sp.counter + 1
    stack := sp.stack ++
      [{ engineName := "sp_" ++ toString (sp.counter + 1), clientName := clientName }] }

def pop (sp : SavepointStack) : SavepointStack :=
  { sp with stack := sp.stack.dropLast }

/-- The index of the savepoint that a client's name means: the top without a name, else the last
one with that alias or engine name. -/
def resolve (sp : SavepointStack) : Option String → Option Nat
  | none => if sp.stack = [] then none else some (sp.stack.length - 1)
  | some name =>
    (sp.stack.reverse.findIdx? fun e =>
      e.clientName == some name || e.engineName == name).map (sp.stack.length - 1 - ·)

def truncateRelease (sp : SavepointStack) (idx : Nat) : SavepointStack :=
  { sp with stack := sp.stack.take idx }

def truncateRollbackTo (sp : SavepointStack) (idx : Nat) : SavepointStack :=
  { sp with stack := sp.stack.take (idx + 1) }

end SavepointStack

/-! ## Replies -/

inductive CtlReply where
  | ok
  | err (e : PoolError)
  | unknownSavepoint
  deriving DecidableEq

def ctlReply : Except PoolError Unit → CtlReply
  | .ok () => .ok
  | .error e => .err e

inductive Reply where
  | completed (result : Except PoolError QueryResult) (execUs : Nat)
  | deadline
  | queueDone (outcome : Except ErrorPayload (List UInt8))
  | queueFailed (e : PoolError)
  | queueRolledBack (payload : ErrorPayload)
  | ctl (reply : CtlReply)

def leaseLostCode : Nat := 0x300F

/-- What the rows of a verb say. -/
inductive Decoded where
  | applied (body : List UInt8) (wakes : Nat)
  | lost
  | found (body : List UInt8)
  | malformed

inductive TxVerdict where
  | applied (body : List UInt8) (wakes : Nat)
  | noEffect (outcome : Except ErrorPayload (List UInt8))
  | unreadable (payload : ErrorPayload)

namespace TxVerb

def writeRolledBack (v : TxVerb) (what : String) : ErrorPayload :=
  unsupported ("queue store " ++ v.store ++ ": the tx-scoped QUEUE " ++ v.verb ++ " statement " ++
    "ran but " ++ what ++ " (was the table altered after it was verified?). The transaction was " ++
    "rolled back, so the unreported effect can never commit, and this transaction id is " ++
    "finished. Retrying cannot help until the store's table is fixed and ferrod is restarted " ++
    "(it re-verifies at restart); the engine re-runs nothing (SPEC D25)")

def unreadable (v : TxVerb) : TxVerdict :=
  if v.read then
    .noEffect (.error (unsupported ("queue store " ++ v.store ++ ": the tx-scoped QUEUE SIZE " ++
      "statement ran but its result did not have the expected shape (was the table altered " ++
      "after it was verified? ferrod re-verifies at restart); the transaction is unaffected")))
  else .unreadable (v.writeRolledBack "its result did not have the expected shape")

def leaseLost (v : TxVerb) : ErrorPayload :=
  payload leaseLostCode .nonRetryable ("queue store " ++ v.store ++ ": QUEUE " ++ v.verb ++
    " did nothing: the token names no current reservation (another holder has the job, or it " ++
    "was reserved again after this lease expired); the transaction is still open: roll it back " ++
    "(SPEC §24.5)")

/-- `TxVerb::decode`, from what the rows say; only one step has a decoder. -/
def decode (v : TxVerb) (rows : Decoded) : TxVerdict :=
  if v.more ≠ 0 then v.unreadable
  else match rows with
    | .applied body wakes => .applied body wakes
    | .lost => .noEffect (.error v.leaseLost)
    | .found body => .noEffect (.ok body)
    | .malformed => v.unreadable

def rollsBackOn (v : TxVerb) (e : PoolError) : Option ErrorPayload :=
  match e with
  | .sql _ _ _ _ _ | .connectionLost => none
  | _ => if v.read then none else some (v.writeRolledBack "the result could not be read")

end TxVerb

def queueRolledBack : ErrorPayload :=
  txDeadline ("a tx-scoped QUEUE verb's statement was cancelled or timed out (or the " ++
    "transaction's deadline passed); the transaction was rolled back (retryable — the engine " ++
    "never re-runs)")

def queueCancelledUnsent : ErrorPayload :=
  payload cancelledCode .nonRetryable ("the tx-scoped QUEUE verb was cancelled before it was " ++
    "sent: nothing was sent and the transaction is unaffected")

/-! ## Terminals -/

def errorTerminal (result : Except ErrorPayload (List UInt8)) : Terminal :=
  match result with
  | .ok body => .ok body
  | .error p => .error p

def inTxContext (readonly : Bool) : OpContext :=
  { readonly := readonly, sent := true, inTx := true }

/-- Every control statement is a boundary and not a statement of the transaction; only a lost
`COMMIT` may be a lost write. -/
def declareCtl (command : TxCommand) : CtlReply → Terminal
  | .ok => .ok []
  | .err e =>
    .error (classifyFate e
      { readonly := command != .commit, sent := true, inTx := false })
  | .unknownSavepoint => .error (protocol "no such savepoint in this transaction")

def midStatementDeadline : ErrorPayload :=
  txDeadline ("transaction deadline exceeded mid-statement; the statement was cancelled and the " ++
    "transaction rolled back (retryable — the engine never re-runs)")

def readonlyOf : TxCommand → Bool
  | .exec readonly _ | .execStreamed readonly | .copy readonly => readonly
  | .queue verb => verb.read
  | _ => false

def fetchOf : TxCommand → Nat
  | .exec _ fetch => fetch
  | _ => AutocommitExec.fetchRows

/-- What the handler of a request declares from the actor's reply. -/
def declare (command : TxCommand) : Reply → Terminal
  | .completed (.ok result) execUs =>
    errorTerminal (buildTerminalBody result (fetchOf command) 0 execUs)
  | .completed (.error e) _ | .queueFailed e =>
    .error (classifyFate e (inTxContext (readonlyOf command)))
  | .deadline => .error midStatementDeadline
  | .queueDone outcome => errorTerminal outcome
  | .queueRolledBack payload => .error payload
  | .ctl reply => declareCtl command reply

/-! ## Streams inside the actor -/

/-- How `run_tx_streamed` ends. -/
inductive StreamOutcome where
  | finished (body : List UInt8)
  /-- The open or a row failed. -/
  | failed (e : PoolError)
  /-- A cancel, a deadline or a frame that could not go out. -/
  | stopped (e : StreamSendError)
  | finishFails (e : PoolError)

def streamTerminal (readonly : Bool) : StreamOutcome → Terminal × StreamEnded
  | .finished body => (.ok body, .intact)
  | .failed e => (.error (classifyFate e (inTxContext readonly)), endedBy (is57014 e))
  | .stopped e => (.error (classifyFate (sendErrToPoolError e) (inTxContext readonly)), .broken)
  | .finishFails e => (.error (classifyFate e (inTxContext readonly)), .broken)

/-- `drain_buffered_on_teardown` for a command that took its responder with it. -/
def tornDown : TxEnd → ErrorPayload
  | .ended => protocol "transaction already ended before this queued streamed statement ran"
  | _ => txDeadline ("transaction torn down before this queued streamed statement ran " ++
      "(retryable — the engine never re-runs)")

end FerroEngine.TxCommands
