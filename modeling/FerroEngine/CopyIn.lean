import FerroEngine.CopyRequests
import FerroEngine.InboundChannel

set_option autoImplicit false

/-! # COPY FROM STDIN

`run_copy_in` of `services/copy.rs` with the two ways into it, `run_tx_copy` and
`run_autocommit_copy`. Every await is a program point; its outcomes, the frames that the reader
loop delivers and the driver's answers are labels.
-/

namespace FerroEngine.CopyIn

open FateMapping PostgresErrors InboundChannel CopyRequests
open AutocommitExec (Terminal StreamEnd buildStreamTerminalBody cancelledBeforeDispatch)

inductive Point where
  | start
  /-- `open_inbound` waits for the session's COPY capacity. -/
  | capacity
  | checkout
  /-- `co.copy_in` is in flight, and why it has been told to stop. -/
  | opening (stopped : Option String)
  | granting
  | receiving
  | sending (chunk : List UInt8)
  | regranting
  /-- `handle.finish` is in flight. -/
  | finishing (stopped : Bool)
  /-- The terminal, and the verdict of a COPY that ran. -/
  | done (terminal : Terminal) (ended : Option StreamEnded)
  deriving DecidableEq

structure State where
  req : CopyRequest
  window : Credit
  point : Point
  channel : Option Channel
  regrant : Regrant
  bytesIn : Nat
  queueUs : Nat
  /-- Every frame that the reader loop has put into the channel. -/
  received : List Inbound
  /-- Every chunk that the backend has accepted. -/
  forwarded : List (List UInt8)
  /-- The end-of-data has gone out. -/
  endOfData : Bool
  /-- The last error of the driver. -/
  reported : Option DriverError
  /-- The reader loop runs; a violation ends it. -/
  reading : Bool

def State.start (req : CopyRequest) (window : Credit) : State :=
  { req := req, window := window, point := .start, channel := none, regrant := .new window,
    bytesIn := 0, queueUs := 0, received := [], forwarded := [], endOfData := false,
    reported := none, reading := true }

inductive Reserve where
  | ready
  | aborted
  | unavailable
  deriving DecidableEq, Repr

inductive Label where
  | admission (a : Admission)
  | reserves (result : Reserve)
  | acquired (queueUs : Nat)
  | acquireFails (err : PoolError)
  | expires
  | cancels
  | opens (result : Except DriverError Unit)
  /-- Whether the `WINDOW_UPDATE` has gone out. -/
  | grants (sent : Bool)
  | delivers (item : Inbound)
  | receives
  /-- `recv` finds the channel without senders. -/
  | closes
  | accepts (result : Except DriverError Unit)
  | finishes (result : Except DriverError Nat) (execUs : Nat)

namespace State

def beforeDone (s : State) : OpContext :=
  { readonly := false, sent := false, inTx := s.req.inTx }

def notApplied (s : State) (why : String) : ErrorPayload :=
  classifyFate (copyStoppedBeforeDone why) s.beforeDone

/-- Every return drops the receiver. -/
def ends (s : State) (terminal : Terminal) (ended : Option StreamEnded) : State :=
  { s with
    point := .done terminal ended
    channel := s.channel.map fun c => { c with closed := true } }

def fails (s : State) (payload : ErrorPayload) (ended : StreamEnded) : State :=
  s.ends (.error payload) (some ended)

/-- `handle.abort`, then the known terminal. -/
def abandons (s : State) (why : String) : State :=
  s.fails (s.notApplied why) .broken

def reports {α : Type} (s : State) (result : Except DriverError α) : State :=
  match result with
  | .ok _ => s
  | .error e => { s with reported := some e }

/-- What the driver reports of an open that the pool's guard lets through. -/
def opened (s : State) (result : Except DriverError Unit) : State :=
  match guardCopy s.req .in with
  | .ok () => s.reports result
  | .error _ => s

def grant (s : State) (frames bytes : Nat) (point : Point) : State :=
  { s with
    point := point
    channel := s.channel.map fun c => { c with credit := c.credit.replenish frames bytes } }

/-- A chunk that the backend has taken. -/
def accepted (s : State) (chunk : List UInt8) : State :=
  let t : State :=
    { s with
      forwarded := s.forwarded ++ [chunk]
      bytesIn := s.bytesIn + chunk.length
      regrant := (s.regrant.consumed chunk.length).1 }
  match (s.regrant.consumed chunk.length).2 with
  | some (frames, bytes) => t.grant frames bytes .regranting
  | none => { t with point := .receiving }

end State

/-! ## Steps -/

def capacityStep (s : State) : Label → Option State
  | .reserves .ready =>
    some { s with
      channel := some (.opened s.window)
      point := if s.req.inTx then .opening none else .checkout }
  | .reserves .aborted =>
    some (s.ends (.error (s.notApplied "waiting for the session's COPY capacity"))
      (if s.req.inTx then some .broken else none))
  | .reserves .unavailable =>
    some (s.ends (.error (protocol "COPY_IN could not open its data channel"))
      (if s.req.inTx then some .intact else none))
  | _ => none

def checkoutStep (s : State) : Label → Option State
  | .acquired queueUs => some { s with queueUs := queueUs, point := .opening none }
  | .acquireFails err =>
    some (s.ends (.error (classifyFate err
      { readonly := s.req.readonly, sent := false, inTx := false })) none)
  | .expires =>
    some (s.ends (.error (classifyFate .timeout
      { readonly := s.req.readonly, sent := false, inTx := false })) none)
  | .cancels =>
    some (s.ends (.error (classifyFate cancelledBeforeDispatch
      { readonly := s.req.readonly, sent := false, inTx := false })) none)
  | _ => none

def openStep (s : State) (stopped : Option String) : Label → Option State
  | .expires => if stopped = none then some { s with point := .opening (some "deadline") } else none
  | .cancels =>
    if stopped = none then some { s with point := .opening (some "cancelled") } else none
  | .opens result =>
    match openCopy s.req .in result, stopped with
    | .ok (), none => some (s.grant s.window.frames s.window.bytes .granting)
    | .ok (), some why => some (s.abandons why)
    | .error e, why =>
      some ((s.opened result).fails (copyInOpenFailed e why s.req.inTx)
        (endedBy (why.isSome || endsTx e)))
  | _ => none

def grantStep (s : State) : Label → Option State
  | .grants true => some { s with point := .receiving }
  | .grants false => some (s.abandons "the session ended")
  | _ => none

def receiveStep (s : State) : Label → Option State
  | .cancels => some (s.abandons "cancelled")
  | .expires => some (s.abandons "deadline")
  | .closes =>
    match s.channel with
    | some { queue := [], .. } => some (s.abandons "the request's data channel closed")
    | _ => none
  | .receives =>
    match s.channel with
    | some { queue := .data chunk :: rest, credit, capacity, closed } =>
      some { s with
        point := .sending chunk
        channel := some { queue := rest, credit := credit, capacity := capacity, closed := closed } }
    | some { queue := .done :: rest, credit, capacity, .. } =>
      some { s with
        point := .finishing false
        endOfData := true
        channel := some { queue := rest, credit := credit, capacity := capacity, closed := true } }
    | _ => none
  | _ => none

def sendStep (s : State) (chunk : List UInt8) : Label → Option State
  | .cancels | .expires => some (s.abandons "stopped while the backend was busy")
  | .accepts (.ok ()) => some (s.accepted chunk)
  | .accepts (.error e) =>
    some ((s.reports (.error e : Except DriverError Unit)).fails
      (classifyFate (errorMap e) s.beforeDone) (endedBy (endsTx (errorMap e))))
  | _ => none

def finishStep (s : State) (stopped : Bool) : Label → Option State
  | .cancels | .expires => if stopped then none else some { s with point := .finishing true }
  | .finishes (.ok affected) execUs =>
    some (s.ends (.ok (buildStreamTerminalBody
      { affected := affected, lastInsertId := none, queueUs := s.queueUs } 0 execUs s.bytesIn))
      (some .intact))
  | .finishes (.error e) _ =>
    some ((s.reports (.error e : Except DriverError Nat)).fails
      (classifyFate (errorMap e) { readonly := false, sent := true, inTx := s.req.inTx })
      (endedBy (endsTx (errorMap e))))
  | _ => none

def handlerStep (s : State) (label : Label) : Option State :=
  match s.point with
  | .start =>
    match label with
    | .admission a =>
      match handleCopy .in s.req a with
      | .ok () => some { s with point := .capacity }
      | .error payload => some (s.ends (.error payload) none)
    | _ => none
  | .capacity => capacityStep s label
  | .checkout => checkoutStep s label
  | .opening stopped => openStep s stopped label
  | .granting | .regranting => grantStep s label
  | .receiving => receiveStep s label
  | .sending chunk => sendStep s chunk label
  | .finishing stopped => finishStep s stopped label
  | .done _ _ => none

/-- The reader loop routes one COPY frame; a violation is session-fatal. -/
def readerStep (s : State) (item : Inbound) : State :=
  match deliver s.channel item with
  | (.delivered, channel) => { s with channel := channel, received := s.received ++ [item] }
  | (.discarded, channel) => { s with channel := channel }
  | (.violation _, channel) => { s with channel := channel, reading := false }

def step (s : State) (label : Label) : Option State :=
  match label with
  | .delivers item => if s.reading then some (readerStep s item) else none
  | _ => handlerStep s label

end FerroEngine.CopyIn
