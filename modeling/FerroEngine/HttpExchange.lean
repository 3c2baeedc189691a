import Mathlib.Algebra.Ring.Nat
import FerroEngine.HttpFate
import FerroEngine.LabelledRuns

set_option autoImplicit false

/-! # One HTTP exchange

The write tracker of `track.rs`, the causes of `head.rs` and the run of one request in
`engine/mod.rs`, from its admission to its terminal. Between two steps of the engine hyper's
connection task may write, read or fail.
-/

namespace FerroEngine.HttpExchange

open FateMapping (Branch)
open HttpFate hiding classify notSent

/-! ## The write tracker -/

inductive Dir where
  | read
  | write
  deriving DecidableEq, Repr

inductive ErrorKind where
  | unexpectedEof
  | connectionReset
  | connectionAborted
  | brokenPipe
  | notConnected
  | invalidData
  | invalidInput
  | other
  deriving DecidableEq, Repr

structure TrackState where
  tls : Bool
  armed : Bool
  plainSent : Bool
  writtenArmed : Nat
  writtenUnarmed : Nat
  cipherArmed : Nat
  cipherUnarmed : Nat
  readArmed : Nat
  readTotal : Nat
  firstError : Option (Dir × ErrorKind)
  deriving DecidableEq, Repr

namespace TrackState

def new (tls : Bool) : TrackState :=
  { tls := tls
    armed := false
    plainSent := false
    writtenArmed := 0
    writtenUnarmed := 0
    cipherArmed := 0
    cipherUnarmed := 0
    readArmed := 0
    readTotal := 0
    firstError := none }

def arm (self : TrackState) : TrackState :=
  { self with
    readArmed := 0
    plainSent := false
    writtenArmed := 0
    cipherArmed := 0
    firstError := none
    armed := true }

def sent (self : TrackState) : Bool :=
  if self.tls then decide (0 < self.cipherArmed) else self.plainSent

def noteError (self : TrackState) (dir : Dir) (kind : ErrorKind) : TrackState :=
  if self.firstError = none then { self with firstError := some (dir, kind) } else self

def noteRead (self : TrackState) (n : Nat) : TrackState :=
  { self with
    readTotal := self.readTotal + n
    readArmed := if self.armed then self.readArmed + n else self.readArmed }

def noteCipher (self : TrackState) (n : Nat) : TrackState :=
  if n = 0 then self
  else if self.armed then { self with cipherArmed := self.cipherArmed + n }
  else { self with cipherUnarmed := self.cipherUnarmed + n }

def noteWritten (self : TrackState) (n : Nat) : TrackState :=
  if n = 0 then self
  else if self.armed then
    { self with plainSent := true, writtenArmed := self.writtenArmed + n }
  else { self with writtenUnarmed := self.writtenUnarmed + n }

/-- A write that the socket accepted, counted where the connection meets the socket: by the cipher
tap below TLS, else by the tracker. -/
def noteSocket (self : TrackState) (n : Nat) : TrackState :=
  if self.tls then self.noteCipher n else self.noteWritten n

end TrackState

/-! ## Heads and hyper's errors -/

structure Head where
  status : Nat
  reason : List UInt8
  headers : List (List UInt8 × List UInt8)
  deriving DecidableEq, Repr

def maxHeadBytes : Nat := 256 * 1024

def headSize (head : Head) : Nat :=
  let sp := if head.reason = [] then 0 else 1
  let statusLine := 12 + sp + head.reason.length + 2
  statusLine + (head.headers.map fun field => field.1.length + field.2.length + 4).sum + 2

/-- What the engine reads off an error of hyper: its text, the I/O error and the TLS alert of a
refused client certificate in its chain. -/
structure HyperError where
  parse : Bool
  incompleteMessage : Bool
  text : String
  ioKind : Option ErrorKind
  alert : Option String
  deriving DecidableEq, Repr

def hyperTooLarge : String := "message head is too large"

def sentNoHead (err : HyperError) (track : TrackState) : SentNoHead :=
  if err.parse && err.text == hyperTooLarge then .oversizeHead
  else if err.parse then .malformedHead
  else if err.incompleteMessage then
    if 0 < track.readArmed then .eofPartialHead else .eofEmpty
  else
    match track.firstError with
    | some (.write, _) => .write
    | _ => .reset

def notSent (track : TrackState) : DispatchedNotSent :=
  match track.firstError with
  | some (.write, _) => .unsentWrite
  | _ => .unsentClosed

def afterHead (err : HyperError) : HeadReceived :=
  if err.incompleteMessage then .bodyEof
  else
    match err.ioKind with
    | some .unexpectedEof => .bodyEof
    | some .connectionReset | some .connectionAborted | some .brokenPipe | some .notConnected =>
      .bodyReset
    | some .invalidData | some .invalidInput => .bodyFraming
    | some .other => .bodyReset
    | none => .bodyFraming

/-! ## Terminals -/

/-- The counts of the statistics; the times are left out. -/
structure HttpDone where
  bytesSent : Nat
  bytesReceived : Nat
  reused : Bool
  deriving DecidableEq, Repr

inductive Terminal where
  | done (stats : HttpDone)
  | error (payload : ErrorPayload)
  | cancelled
  deriving DecidableEq, Repr

namespace Terminal

def ofFate : Fate → Terminal
  | .cancelled => .cancelled
  | .error payload => .error payload

def branch : Terminal → Option Branch
  | .error payload => some payload.branch
  | _ => none

end Terminal

def classify (situation : Situation) (idempotent : Bool) : Terminal :=
  Terminal.ofFate (HttpFate.classify situation idempotent)

def policy (cause : PolicyCause) (message : Option String) : Terminal :=
  match HttpFate.classify (.beforeDispatch (.policy cause)) false with
  | .error payload =>
    .error { payload with message := message.getD payload.message }
  | .cancelled => .cancelled

/-- A refused client certificate is named in the message, and only there. -/
def nameClientAuthRefusal (t : Terminal) (alert : Option String) : Terminal :=
  match alert, t with
  | some alert, .error payload =>
    .error { payload with
      message := "the upstream refused the TLS client certificate after the handshake (alert " ++
        alert ++ ", SPEC D23): " ++ payload.message }
  | _, _ => t

inductive SinkError where
  | cancelled
  | deadline
  | linkLost
  | oversized
  deriving DecidableEq, Repr

def afterHeadStop (drained : Bool) : HeadReceived :=
  if drained then .drain else .cancel

def sinkFailure (e : SinkError) (drained : Bool) : HeadReceived :=
  match e with
  | .deadline => .timeout
  | .cancelled => afterHeadStop drained
  | .linkLost => .cancel
  | .oversized => .bodyFraming

/-! ## The run of a request -/

structure Request where
  idempotent : Bool
  maxResponseBytes : Option Nat
  deriving DecidableEq, Repr

/-- Where the engine is. From `failing`, `stopping`, `early`, `refusing` and `leaving` it waits for
the connection task to be gone. -/
inductive Phase where
  | admitting
  | awaiting
  | failing (err : HyperError)
  | stopping (stopped drained : Bool)
  | headed (head : Head)
  | early
  | refusing (event : SentNoHead)
  | delivering
  | leaving (event : HeadReceived)
  | done (terminal : Terminal)
  deriving DecidableEq, Repr

/-- `live`: the connection task may still write. `pending`: a write that the socket accepted and the
tracker does not count yet. `accepted`: the bytes that the socket accepted since dispatch.
`received`: the head that hyper delivered, and whether the tracker had counted a byte by then. -/
structure Exchange where
  request : Request
  phase : Phase
  track : TrackState
  reused : Bool
  live : Bool
  alert : Option String
  pending : Option Nat
  cancelled : Bool
  drained : Bool
  handed : Nat
  accepted : Nat
  received : Option (Head × Bool)
  deriving DecidableEq, Repr

inductive Delivery where
  | frame
  | finished
  | frameFails (err : HyperError)
  | decodeFails
  | readIdle
  | sinkFails (e : SinkError)
  | stop
  | deadline
  deriving DecidableEq, Repr

inductive Event where
  /-- A `CANCEL`, and the drain cap. -/
  | cancel
  | cap
  /-- Admission: a refusal, or the connection that the request is handed to. -/
  | refuse (event : BeforeDispatch) (message : Option String)
  | dispatch (track : TrackState) (reused live : Bool)
  /-- The connection task: the socket accepts a write, the write is counted, TLS takes plaintext. -/
  | socket (n : Nat)
  | note
  | buffer (n : Nat)
  | read (n : Nat)
  | ioError (dir : Dir) (kind : ErrorKind)
  | gone (alert : Option String)
  /-- What the wait for the head ends with. -/
  | sendFails (err : HyperError)
  | head (head : Head)
  | stop
  | deadline
  /-- The head is looked at. -/
  | look
  /-- The aborted task was awaited. -/
  | torn
  | deliver (event : Delivery)
  deriving DecidableEq, Repr

def overMax (request : Request) (read : Nat) : Bool :=
  match request.maxResponseBytes with
  | some limit => decide (limit < read)
  | none => false

/-- What a failed delivery is classified as. -/
def deliveryFailure (drained : Bool) : Delivery → Option HeadReceived
  | .frame | .finished => none
  | .frameFails err => some (afterHead err)
  | .decodeFails => some .decode
  | .readIdle => some .readIdle
  | .sinkFails e => some (sinkFailure e drained)
  | .stop => some (afterHeadStop drained)
  | .deadline => some .timeout

/-- The verdict on a request that was stopped before a head. -/
def stopSituation (sent stopped drained : Bool) : Situation :=
  match sent, stopped, drained with
  | false, true, true => .dispatchedNotSent .drain
  | false, true, false => .dispatchedNotSent .cancel
  | false, false, _ => .dispatchedNotSent .deadline
  | true, true, true => .sentNoHead .drain
  | true, true, false => .sentNoHead .cancel
  | true, false, _ => .sentNoHead .timeout

namespace Exchange

def finish (s : Exchange) (situation : Situation) : Exchange :=
  { s with phase := .done (classify situation s.request.idempotent) }

/-- The terminal of a request that was refused before dispatch. -/
def refuse (s : Exchange) (event : BeforeDispatch) (message : Option String) : Exchange :=
  match event with
  | .policy cause => { s with phase := .done (policy cause message) }
  | event => s.finish (.beforeDispatch event)

/-- `sent` is read: the connection task is gone. -/
def teardown (s : Exchange) : Option Exchange :=
  match s.phase with
  | .failing err =>
    let refusal := err.alert <|> s.alert
    let situation :=
      if s.track.sent then Situation.sentNoHead (sentNoHead err s.track)
      else .dispatchedNotSent (notSent s.track)
    some { s with
      phase := .done
        (nameClientAuthRefusal (classify situation s.request.idempotent) refusal) }
  | .stopping stopped drained => some (s.finish (stopSituation s.track.sent stopped drained))
  | .early =>
    some (s.finish
      (if s.track.sent then .sentNoHead .malformedHead else .dispatchedNotSent .unsentClosed))
  | .refusing event => some (s.finish (.sentNoHead event))
  | .leaving event => some (s.finish (.headReceived event))
  | _ => none

/-- A head that came before any byte of the request is not its answer. -/
def examine (s : Exchange) (head : Head) : Exchange :=
  let s := { s with received := some (head, s.track.sent) }
  if s.track.sent = false then { s with phase := .early }
  else if head.status = 101 then { s with phase := .refusing .informational101 }
  else if maxHeadBytes < headSize head then { s with phase := .refusing .oversizeHead }
  else if overMax s.request s.track.readArmed then
    { s with phase := .leaving .maxResponseBytes }
  else { s with phase := .delivering }

def deliver (s : Exchange) (event : Delivery) : Exchange :=
  match deliveryFailure s.drained event with
  | some failure => { s with phase := .leaving failure }
  | none =>
    match event with
    | .finished =>
      { s with
        phase := .done (.done
          { bytesSent := s.track.writtenArmed
            bytesReceived := s.track.readArmed
            reused := s.reused }) }
    | _ =>
      if overMax s.request s.track.readArmed then
        { s with phase := .leaving .maxResponseBytes }
      else s

end Exchange

/-- A connection that is handed over is quiet: nothing is being written on it. -/
def step (s : Exchange) : Event → Option Exchange
  | .cancel => some { s with cancelled := true }
  | .cap => some { s with drained := true, cancelled := true }
  | .refuse event message => if s.phase = .admitting then some (s.refuse event message) else none
  | .dispatch track reused live =>
    if s.phase = .admitting ∧ s.cancelled = false then
      some { s with
        phase := .awaiting
        track := track.arm
        reused := reused
        live := live
        handed := s.handed + 1 }
    else none
  | .socket n =>
    if s.live ∧ s.pending = none then
      some { s with accepted := s.accepted + n, pending := some n }
    else none
  | .note =>
    s.pending.map fun n => { s with track := s.track.noteSocket n, pending := none }
  | .buffer n =>
    if s.live ∧ s.track.tls then some { s with track := s.track.noteWritten n } else none
  | .read n => if s.live then some { s with track := s.track.noteRead n } else none
  | .ioError dir kind =>
    if s.live then some { s with track := s.track.noteError dir kind } else none
  | .gone alert =>
    if s.live ∧ s.pending = none then some { s with live := false, alert := alert } else none
  | .sendFails err => if s.phase = .awaiting then some { s with phase := .failing err } else none
  | .head head => if s.phase = .awaiting then some { s with phase := .headed head } else none
  | .stop =>
    if s.phase = .awaiting ∧ s.cancelled then
      some { s with phase := .stopping true s.drained }
    else none
  | .deadline =>
    if s.phase = .awaiting then some { s with phase := .stopping false false } else none
  | .look =>
    match s.phase with
    | .headed head => some (s.examine head)
    | _ => none
  | .torn => if s.live then none else s.teardown
  | .deliver event => if s.phase = .delivering then some (s.deliver event) else none

def init (request : Request) : Exchange :=
  { request := request
    phase := .admitting
    track := TrackState.new false
    reused := false
    live := false
    alert := none
    pending := none
    cancelled := false
    drained := false
    handed := 0
    accepted := 0
    received := none }

def run (s : Exchange) (events : List Event) : Option Exchange :=
  LabelledRuns.run step s events

end FerroEngine.HttpExchange
