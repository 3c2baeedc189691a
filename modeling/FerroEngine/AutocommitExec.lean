import Mathlib.Algebra.Ring.Nat
import FerroEngine.FateMapping
import FerroEngine.LabelledRuns
import FerroEngine.SqlMessages

set_option autoImplicit false

/-! # An autocommit statement

`handle_exec` without a transaction, `run_exec_on_pool`, `run_autocommit_streamed` and
`run_streamed_exec` of `services/sql.rs`. Every await is a program point, and what it can resolve
to is a label; the backend is the environment, which takes the statement and applies it or not.
-/

namespace FerroEngine.AutocommitExec

open FateMapping SqlMessages

/-! ## Results and their frames -/

def maxFramePayload : Nat := 16777216

def outcomeOkOverhead : Nat := 2

def fetchRows : Nat := 0

def fetchNone : Nat := 1

def fetchStream : Nat := 2

structure QueryResult where
  cols : List ColMeta
  rows : List (List Value)
  affected : Nat
  lastInsertId : Option Nat
  deriving DecidableEq

/-- The loop of `encode_exec_ok_fixpoint`, with the passes it has left. -/
def fixpointLoop : Nat → ExecOk → List UInt8 → List UInt8
  | 0, _, body => body
  | passes + 1, e, body =>
    if e.stats.bytes = body.length then body
    else
      let next := { e with stats := { e.stats with bytes := body.length } }
      fixpointLoop passes next next.encode

def encodeExecOkFixpoint (e : ExecOk) : List UInt8 :=
  fixpointLoop 8 e e.encode

def lastInsertIdValue (id : Option Nat) : Option Value :=
  id.map fun n : Nat => if n < 2 ^ 63 then .i64 n else .u64 n

def buildTerminalBody (result : QueryResult) (fetch queueUs execUs : Nat) :
    Except ErrorPayload (List UInt8) :=
  let rows := if fetch = fetchNone then [] else result.rows
  let body := encodeExecOkFixpoint
    { cols := result.cols, rows := rows, affected := result.affected,
      lastInsertId := lastInsertIdValue result.lastInsertId,
      stats := { queueUs := queueUs, execUs := execUs, rows := rows.length, bytes := 0 } }
  if body.length + outcomeOkOverhead > maxFramePayload then
    .error (unsupported ("buffered result exceeds one frame; re-issue with fetch=stream to " ++
      "receive it incrementally over the DATA channel"))
  else .ok body

/-- What `finish` reports of a drained stream. -/
structure StreamEnd where
  affected : Nat
  lastInsertId : Option Nat
  queueUs : Nat
  deriving DecidableEq

def buildStreamTerminalBody (fin : StreamEnd) (streamedRows execUs streamBytes : Nat) :
    List UInt8 :=
  ExecOk.encode
    { cols := [], rows := [], affected := fin.affected,
      lastInsertId := lastInsertIdValue fin.lastInsertId,
      stats := { queueUs := fin.queueUs, execUs := execUs, rows := streamedRows,
                 bytes := streamBytes } }

/-! ## Frames of a stream -/

inductive StreamSendError where
  | aborted
  | oversized
  | linkLost
  deriving DecidableEq, Repr

/-- How the wait for credit, for the session cap and for the channel ends. -/
inductive Wait where
  | ready
  | aborted
  | linkLost
  deriving DecidableEq, Repr

/-- `send_stream_frame`: the size first, then the waits. -/
def sendStreamFrame (frame : List UInt8) (wait : Wait) : Except StreamSendError Nat :=
  if maxFramePayload < frame.length then .error .oversized
  else match wait with
    | .ready => .ok frame.length
    | .aborted => .error .aborted
    | .linkLost => .error .linkLost

def streamCancelError : PoolError :=
  .sql cancelledCode .nonRetryable (some "57014") none "streamed statement cancelled or timed out"

def sendErrToPoolError : StreamSendError → PoolError
  | .aborted => streamCancelError
  | .oversized => .unsupported
      "a streamed row exceeds one frame (MAX_FRAME_PAYLOAD); large-row streaming is post-M1"
  | .linkLost => .connectionLost

def cancelledBeforeDispatch : PoolError :=
  .sql cancelledCode .nonRetryable none none "cancelled while waiting for a pooled connection"

/-- `StreamBatch::DEFAULT`. -/
def batchMaxRows : Nat := 1024

def batchMaxBytes : Nat := 256 * 1024

def estimateCellBytes : Value → Nat
  | .null | .bool _ => 1
  | .i64 _ | .f64 _ | .u64 _ => 9
  | .bytes b => b.length + 5
  | .text s | .decimal s | .date s | .time s | .timestamp s | .timestampTz s | .uuid s
  | .json s => s.toUTF8.size + 5

def estimateRowBytes (row : List Value) : Nat :=
  (row.map estimateCellBytes).sum + 2

/-! ## Admission -/

inductive ResolveError where
  | bothSqlAndQueryId
  | noStatement
  | refused (message : String)
  deriving DecidableEq, Repr

def resolvePayload : ResolveError → ErrorPayload
  | .bothSqlAndQueryId => protocol ("malformed ExecRequest: sql and query_id are both set (sql " ++
      "is nil iff a query_id is used)")
  | .noStatement => unsupported "EXEC requires an inline sql statement or a manifest query_id"
  | .refused message => unsupported message

/-- What the handler finds before it touches the pool. -/
structure Admission where
  /-- Why the request does not decode. -/
  malformed : Option String
  poolKnown : Bool
  /-- The pool's name in an error message. -/
  poolText : String
  statement : Except ResolveError Unit
  streams : Bool

def streamUnsupported : ErrorPayload :=
  unsupported ("fetch=stream is not supported on this pool's backend (MySQL/MariaDB row " ++
    "streaming is deferred — SPEC §22.2 (n)); re-issue with fetch=rows")

def checkAdmission (a : Admission) (fetch : Nat) : Except ErrorPayload Unit :=
  match a.malformed with
  | some why => .error (protocol ("malformed ExecRequest: " ++ why))
  | none =>
    if fetch ≠ fetchRows ∧ fetch ≠ fetchNone ∧ fetch ≠ fetchStream then
      .error (unsupported ("unknown fetch mode " ++ toString fetch))
    else if a.poolKnown = false then .error (unsupported ("unknown pool " ++ a.poolText))
    else match a.statement with
      | .error e => .error (resolvePayload e)
      | .ok () =>
        if fetch = fetchStream ∧ a.streams = false then .error streamUnsupported else .ok ()

/-! ## State -/

inductive Terminal where
  | ok (body : List UInt8)
  | error (payload : ErrorPayload)
  deriving DecidableEq

inductive Point where
  | start
  | checkout
  /-- `co.query` is in flight; the out-of-band cancel has fired or not. -/
  | query (stopped : Bool)
  /-- `query_stream` is in flight. -/
  | opening
  | sendingHead (cols : List ColMeta)
  | pulling
  /-- A batch goes out; `last` says that the stream has drained. -/
  | sendingData (rows : List (List Value)) (last : Bool)
  | finishing
  | done (terminal : Terminal)
  deriving DecidableEq

/-- What has become of the statement at the backend. -/
inductive Effect where
  | notApplied
  | unknown
  | applied
  deriving DecidableEq, Repr

structure Exec where
  readonly : Bool
  fetch : Nat
  point : Point
  batchRows : List (List Value)
  batchBytes : Nat
  streamedRows : Nat
  sentBytes : Nat
  /-- The statement has been transmitted. -/
  sent : Bool
  effect : Effect

def Exec.start (readonly : Bool) (fetch : Nat) : Exec :=
  { readonly := readonly, fetch := fetch, point := .start, batchRows := [], batchBytes := 0,
    streamedRows := 0, sentBytes := 0, sent := false, effect := .notApplied }

inductive Label where
  | admission (a : Admission)
  /-- A connection is ready; `timeLeft` says whether the deadline leaves time for the statement. -/
  | acquired (timeLeft : Bool)
  | acquireFails (err : PoolError)
  /-- The deadline passes. -/
  | expires
  /-- The request's cancel token fires. -/
  | cancels
  /-- The backend receives the statement. -/
  | dispatch
  /-- The statement takes effect at the backend. -/
  | apply
  | answer (result : Except PoolError QueryResult) (queueUs execUs : Nat)
  | opened (cols : List ColMeta)
  | openFails (err : PoolError)
  | sends (wait : Wait)
  | row (row : List Value)
  | rowFails (err : PoolError)
  | drained
  | finished (result : Except PoolError StreamEnd) (execUs : Nat)

/-! ## Steps -/

/-- The context of every error that comes after the connection was acquired. -/
def sentContext (s : Exec) : OpContext :=
  { readonly := s.readonly, sent := true, inTx := false }

def unsentContext (s : Exec) : OpContext :=
  { readonly := s.readonly, sent := false, inTx := false }

namespace Exec

def ends (s : Exec) (terminal : Terminal) : Exec :=
  { s with point := .done terminal }

/-- A failure before anything was sent. -/
def unsentError (s : Exec) (err : PoolError) : Exec :=
  s.ends (.error (classifyFate err (unsentContext s)))

def sentError (s : Exec) (err : PoolError) : Exec :=
  s.ends (.error (classifyFate err (sentContext s)))

/-- An error that the backend reports. The server refuses only what it has not applied. -/
def refusedBy (s : Exec) (err : PoolError) : Option Exec :=
  if isRefusal err then
    if s.effect = .applied then none else some { s with effect := .notApplied }
  else some s

def declareBufferedOk (s : Exec) (result : QueryResult) (queueUs execUs : Nat) : Exec :=
  match buildTerminalBody result s.fetch queueUs execUs with
  | .ok body => s.ends (.ok body)
  | .error payload => s.ends (.error payload)

/-- The frame that is being sent. -/
def frame (s : Exec) : List UInt8 :=
  match s.point with
  | .sendingHead cols => encodeHead cols
  | .sendingData rows _ => encodeData rows
  | _ => []

def pushRow (s : Exec) (row : List Value) : Exec :=
  let rows := s.batchRows ++ [row]
  let bytes := s.batchBytes + estimateRowBytes row
  if batchMaxRows ≤ rows.length ∨ batchMaxBytes ≤ bytes then
    { s with batchRows := [], batchBytes := 0, streamedRows := s.streamedRows + 1,
             point := .sendingData rows false }
  else { s with batchRows := rows, batchBytes := bytes, streamedRows := s.streamedRows + 1 }

/-- After a frame has gone out. -/
def afterSend (s : Exec) (len : Nat) : Exec :=
  { s with
    sentBytes := s.sentBytes + len
    point := match s.point with
      | .sendingData _ true => .finishing
      | _ => .pulling }

end Exec

open Exec

/-- What the backend does on its own. -/
def backendStep (s : Exec) : Label → Option Exec
  | .dispatch =>
    match s.point with
    | .query _ | .opening =>
      if s.sent then none else some { s with sent := true, effect := .unknown }
    | _ => none
  | .apply => if s.effect = .unknown then some { s with effect := .applied } else none
  | _ => none

def acquireStep (s : Exec) : Label → Option Exec
  | .acquired timeLeft =>
    if s.fetch = fetchStream then some { s with point := .opening }
    else if timeLeft then some { s with point := .query false }
    else some (s.unsentError .timeout)
  | .acquireFails err => some (s.unsentError err)
  -- The streamed path does not race its checkout.
  | .expires => if s.fetch = fetchStream then none else some (s.unsentError .timeout)
  | .cancels => if s.fetch = fetchStream then none else some (s.unsentError cancelledBeforeDispatch)
  | _ => none

def queryStep (s : Exec) : Label → Option Exec
  | .expires | .cancels => some { s with point := .query true }
  | .answer (.ok result) queueUs execUs =>
    if s.sent then some (s.declareBufferedOk result queueUs execUs) else none
  | .answer (.error err) _ _ => (s.refusedBy err).map fun t => t.sentError err
  | _ => none

def openStep (s : Exec) : Label → Option Exec
  | .opened cols => if s.sent then some { s with point := .sendingHead cols } else none
  | .openFails err => (s.refusedBy err).map fun t => t.sentError err
  | .expires | .cancels => some (s.sentError streamCancelError)
  | _ => none

def sendStep (s : Exec) : Label → Option Exec
  | .sends wait =>
    match sendStreamFrame s.frame wait with
    | .ok len => some (s.afterSend len)
    | .error e => some (s.sentError (sendErrToPoolError e))
  | _ => none

def pullStep (s : Exec) : Label → Option Exec
  | .row row => some (s.pushRow row)
  | .rowFails err => (s.refusedBy err).map fun t => t.sentError err
  | .drained =>
    if s.batchRows = [] then some { s with point := .finishing }
    else some { s with batchRows := [], point := .sendingData s.batchRows true }
  | .expires | .cancels => some (s.sentError streamCancelError)
  | _ => none

def finishStep (s : Exec) : Label → Option Exec
  | .finished (.ok fin) execUs =>
    some (s.ends (.ok (buildStreamTerminalBody fin s.streamedRows execUs s.sentBytes)))
  | .finished (.error err) _ => (s.refusedBy err).map fun t => t.sentError err
  | _ => none

def handlerStep (s : Exec) (label : Label) : Option Exec :=
  match s.point with
  | .start =>
    match label with
    | .admission a =>
      match checkAdmission a s.fetch with
      | .ok () => some { s with point := .checkout }
      | .error payload => some (s.ends (.error payload))
    | _ => none
  | .checkout => acquireStep s label
  | .query _ => queryStep s label
  | .opening => openStep s label
  | .sendingHead _ | .sendingData _ _ => sendStep s label
  | .pulling => pullStep s label
  | .finishing => finishStep s label
  | .done _ => none

def step (s : Exec) (label : Label) : Option Exec :=
  match label with
  | .dispatch | .apply => backendStep s label
  | _ => handlerStep s label

end FerroEngine.AutocommitExec
