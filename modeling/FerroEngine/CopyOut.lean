import FerroEngine.CopyRequests

set_option autoImplicit false

/-! # COPY TO STDOUT

`run_copy_out` of `services/copy.rs`: chunks of the backend are coalesced into a buffer and leave
it as frames. Every await is a program point and its outcomes are labels.
-/

namespace FerroEngine.CopyOut

open FateMapping MessagePack PostgresErrors CopyRequests
open AutocommitExec (Terminal Wait sendStreamFrame sendErrToPoolError streamCancelError
  cancelledBeforeDispatch buildStreamTerminalBody)

def copyOutFrameBytes : Nat := 256 * 1024

/-- `CopyData::encode_slice`. -/
def encodeSlice (data : List UInt8) : List UInt8 :=
  writeArrayLen 1 ++ writeBin data

/-- What `next` yields. -/
inductive Item where
  | chunk (bytes : List UInt8)
  | fails (e : DriverError)
  | drained

/-- How the drain of `CopyOutHandle::finish` ends. -/
inductive Drain where
  | drained (affected : Nat)
  | failed (e : DriverError)
  | elapsed

def finishCopyOut (errored : Bool) : Drain → Except PoolError Nat
  | .drained affected =>
    if errored then .error (.backend "COPY TO STDOUT failed") else .ok affected
  | .failed e => .error (errorMap e)
  | .elapsed => .error .connectionLost

inductive Point where
  | start
  | checkout
  | opening (stopped : Bool)
  | pulling
  /-- The buffer has room, and `next` is polled once. -/
  | polling
  | sending (last : Bool)
  | finishing
  | done (terminal : Terminal) (ended : Option StreamEnded)
  deriving DecidableEq

structure State where
  req : CopyRequest
  point : Point
  buf : List UInt8
  sentBytes : Nat
  queueUs : Nat
  /-- The data of every frame that has gone out. -/
  frames : List (List UInt8)
  /-- Every chunk that the backend has yielded. -/
  chunks : List (List UInt8)

def State.start (req : CopyRequest) : State :=
  { req := req, point := .start, buf := [], sentBytes := 0, queueUs := 0, frames := [],
    chunks := [] }

inductive Label where
  | admission (a : Admission)
  | acquired (queueUs : Nat)
  | acquireFails (err : PoolError)
  | expires
  | cancels
  | opens (result : Except DriverError Unit)
  | yields (item : Item)
  /-- `next().now_or_never()`. -/
  | polls (item : Option Item)
  | sends (wait : Wait)
  | finishes (drain : Drain) (execUs : Nat)

namespace State

def context (s : State) : OpContext :=
  { readonly := s.req.readonly, sent := true, inTx := s.req.inTx }

def ends (s : State) (terminal : Terminal) (ended : Option StreamEnded) : State :=
  { s with point := .done terminal ended }

def fails (s : State) (err : PoolError) (ended : StreamEnded) : State :=
  s.ends (.error (classifyFate err s.context)) (some ended)

def failsAs (s : State) (err : PoolError) : State :=
  s.fails err (endedBy (endsTx err))

/-- The frames go out while the buffer has bytes. -/
def flush (s : State) (last : Bool) : State :=
  { s with
    point := if s.buf = [] then (if last then .finishing else .pulling) else .sending last }

def takes (s : State) : Item → State
  | .chunk bytes =>
    let t : State := { s with buf := s.buf ++ bytes, chunks := s.chunks ++ [bytes] }
    if copyOutFrameBytes ≤ t.buf.length then t.flush false else { t with point := .polling }
  | .fails e => s.failsAs (errorMap e)
  | .drained => s.flush true

/-- `buf.split_to` and the frame's accounting. -/
def sent (s : State) : State :=
  let take := min s.buf.length copyOutFrameBytes
  { s with
    buf := s.buf.drop take
    frames := s.frames ++ [s.buf.take take]
    sentBytes := s.sentBytes + take }

end State

/-! ## Steps -/

def checkoutStep (s : State) : Label → Option State
  | .acquired queueUs => some { s with queueUs := queueUs, point := .opening false }
  | .acquireFails err =>
    some (s.ends (.error (classifyFate err
      { readonly := s.req.readonly, sent := false, inTx := false })) none)
  | .expires =>
    some (s.ends (.error (classifyFate .timeout
      { readonly := s.req.readonly, sent := false, inTx := false })) none)
  | .cancels =>
    some (s.ends (.error (classifyFate cancelledBeforeDispatch
      { readonly := s.req.readonly, sent := false, inTx := false })) none)
  | _ => none

def openStep (s : State) (stopped : Bool) : Label → Option State
  | .expires | .cancels => if stopped then none else some { s with point := .opening true }
  | .opens result =>
    match openCopy s.req .out result, stopped with
    | .ok (), false => some { s with point := .pulling }
    | .ok (), true => some (s.fails streamCancelError .broken)
    | .error e, stopped =>
      some (s.fails (if stopped then streamCancelError else e) (endedBy (stopped || endsTx e)))
  | _ => none

def pullStep (s : State) : Label → Option State
  | .yields item => some (s.takes item)
  | .cancels | .expires => some (s.fails streamCancelError .broken)
  | _ => none

def pollStep (s : State) : Label → Option State
  | .polls (some item) => some (s.takes item)
  | .polls none => some (s.flush false)
  | _ => none

def sendStep (s : State) (last : Bool) : Label → Option State
  | .sends wait =>
    match sendStreamFrame (encodeSlice (s.buf.take (min s.buf.length copyOutFrameBytes))) wait with
    | .ok _ => some (s.sent.flush last)
    | .error e => some (s.fails (sendErrToPoolError e) .broken)
  | _ => none

def finishStep (s : State) : Label → Option State
  | .finishes drain execUs =>
    -- A COPY that reported an error has returned before.
    match finishCopyOut false drain with
    | .ok affected =>
      some (s.ends (.ok (buildStreamTerminalBody
        { affected := affected, lastInsertId := none, queueUs := s.queueUs } affected execUs
        s.sentBytes)) (some .intact))
    | .error e => some (s.failsAs e)
  | _ => none

def step (s : State) (label : Label) : Option State :=
  match s.point with
  | .start =>
    match label with
    | .admission a =>
      match handleCopy .out s.req a with
      | .ok () => some { s with point := if s.req.inTx then .opening false else .checkout }
      | .error payload => some (s.ends (.error payload) none)
    | _ => none
  | .checkout => checkoutStep s label
  | .opening stopped => openStep s stopped label
  | .pulling => pullStep s label
  | .polling => pollStep s label
  | .sending last => sendStep s last label
  | .finishing => finishStep s label
  | .done _ _ => none

end FerroEngine.CopyOut
