import FerroEngine.ClientRetry

set_option autoImplicit false

/-! # The COPY_IN sender of the PHP client

`CopyRunner::in` and `send`, over the COPY operations of `Session.php`. The engine, the link and the
caller's iterable are seen through what they answer; the wire operations are logged in their order.
-/

namespace FerroEngine.ClientCopyIn

open ClientRetry

/-! ## What a COPY meets -/

/-- The exceptions of a COPY. -/
inductive Raised where
  | ferro (ex : Thrown)
  | codec (message : String)
  | invalidArgument (message : String)
  /-- Any other exception of the caller's iterable. -/
  | other
  deriving DecidableEq, Repr

/-- What the iterable gives. -/
inductive Item where
  | piece (bytes : List UInt8)
  /-- Anything but a string, with its `get_debug_type`. -/
  | notString (debugType : String)
  | throws (ex : Raised)
  deriving DecidableEq, Repr

/-- A terminal; a successful one holds the decoded count, or why it does not decode. -/
abbrev Terminal := Outcome (Except String Nat)

/-- What `copyEvent` answers. -/
inductive Event where
  | grant (frames bytes : Nat)
  | data (bytes : List UInt8)
  | end_ (outcome : Terminal)
  /-- A terminal whose outcome does not decode. -/
  | badEnd (message : String)
  /-- A `TransportException`; the session is poisoned. -/
  | transport (message : String)
  /-- The `ConnectionLostException` of `nextFrameFor`, which carries no payload. -/
  | connectionLost (message : String)
  /-- A desync; the session is poisoned. -/
  | desync (message : String)
  /-- A malformed grant or chunk, or a frame of another kind. -/
  | malformed (message : String)

/-- How a frame is written. -/
inductive Write where
  | written
  /-- The frame is not completely written; the session is dead. -/
  | failed (message : String)
  /-- Another frame is being written: nothing is. -/
  | reentrant (message : String)
  deriving DecidableEq, Repr

/-- What the submission of the request ends in, before `copyEvent`. -/
inductive Submit where
  | written
  | refused (ex : Raised)

/-- A wire operation. -/
inductive Op where
  | submitted (submit : Submit)
  | read (event : Event)
  | data (chunk : List UInt8) (write : Write)
  | done (write : Write)
  | cancel (write : Write)
  /-- A frame read while an abandoned COPY is drained. -/
  | drained (event : Event)

/-- Why the runner stops. -/
inductive Stop where
  | threw (ex : Raised)
  /-- Nothing has arrived yet. -/
  | waiting
  deriving DecidableEq, Repr

/-- How a call ends. -/
inductive End where
  | returned (affected : Nat)
  | stopped (stop : Stop)
  deriving DecidableEq, Repr

structure State where
  /-- The credit, and the flags of `in`. -/
  frames : Nat
  bytes : Nat
  doneSent : Bool
  reachedTerminal : Bool
  /-- `streamOpen`, for the request of the COPY. -/
  streamOpen : Bool
  /-- What the reads to come answer. -/
  events : List Event
  /-- What the writes to come do; past the end they succeed. -/
  writes : List Write
  log : List Op

/-! ## `Session` -/

/-- The exception of a read. -/
def Event.raised : Event → Option Raised
  | .badEnd message => some (.codec message)
  | .transport message => some (.ferro (.transport false message))
  | .connectionLost message => some (.ferro (.connectionLost none message))
  | .desync message | .malformed message => some (.ferro (.protocol message))
  | .grant _ _ | .data _ | .end_ _ => none

/-- The read leaves the stream guard as it is. -/
def Event.keepsOpen : Event → Bool
  | .grant _ _ | .data _ | .malformed _ => true
  | _ => false

def Write.raised : Write → Option Raised
  | .written => none
  | .failed message => some (.ferro (.transport false message))
  | .reentrant message => some (.ferro (.reentrant message))

namespace State

/-- `readCopyEvent` returned or threw `event`. -/
def read (s : State) (event : Event) (rest : List Event) : State :=
  { s with
    streamOpen := s.streamOpen && event.keepsOpen
    events := rest
    log := s.log ++ [.read event] }

def nextWrite (s : State) : Write :=
  s.writes.headD .written

/-- `writeFrame`. -/
def write (s : State) (op : Write → Op) : State :=
  { s with
    streamOpen := s.streamOpen && match s.nextWrite with
      | .failed _ => false
      | _ => true
    writes := s.writes.tail
    log := s.log ++ [op s.nextWrite] }

end State

def sendCopyData (s : State) (chunk : List UInt8) : Option Raised × State :=
  (s.nextWrite.raised, s.write (.data chunk))

def sendCopyDone (s : State) : Option Raised × State :=
  (s.nextWrite.raised, s.write .done)

/-- The reads of `abandonCopy`. -/
def drain (s : State) : List Event → Option Stop × State
  | [] => (some .waiting, { s with events := [] })
  | event :: rest =>
    let next :=
      { s with
        streamOpen := event.keepsOpen
        events := rest
        log := s.log ++ [.drained event] }
    match event.raised with
    | some ex => (some (.threw ex), next)
    | none => if event.keepsOpen then drain next rest else (none, next)

def abandonCopy (s : State) : Option Stop × State :=
  if s.streamOpen then
    let sent := s.write .cancel
    match s.nextWrite.raised with
    | some ex => (some (.threw ex), sent)
    | none => drain sent sent.events
  else (none, s)

/-! ## `CopyRunner` -/

def chunkBytes : Nat := 262144

def affected : Terminal → Except Raised Nat
  | .ok (.ok rows) => .ok rows
  | .ok (.error message) => .error (.codec message)
  | outcome => .error (.ferro (fromOutcome outcome))

def unexpectedData : Raised :=
  .ferro (.protocol "unexpected COPY_DATA on a COPY_IN")

/-- A terminal in `send`. -/
def endedEarly (outcome : Terminal) : Raised :=
  match affected outcome with
  | .error ex => ex
  | .ok _ =>
    .ferro (.protocol "the engine ended a COPY_IN successfully before its end-of-data")

/-- The reads of `send` while a credit is used up. -/
def awaitCredit (s : State) : List Event → Option Stop × State
  | [] => if s.frames = 0 ∨ s.bytes = 0 then (some .waiting, s) else (none, s)
  | event :: rest =>
    if s.frames = 0 ∨ s.bytes = 0 then
      let next := s.read event rest
      match event with
      | .grant frames bytes =>
        awaitCredit
          { next with
            frames := next.frames + frames
            bytes := next.bytes + bytes } rest
      | .end_ outcome =>
        (some (.threw (endedEarly outcome)), { next with reachedTerminal := true })
      | .data _ => (some (.threw unexpectedData), next)
      | event => (event.raised.map .threw, next)
    else (none, s)

/-- The loop of `send` from an offset on, for at most `fuel` frames; each takes a byte or more. -/
def sendFrom (s : State) (piece : List UInt8) (off : Nat) : Nat → Option Stop × State
  | 0 => (none, s)
  | fuel + 1 =>
    if off < piece.length then
      match awaitCredit s s.events with
      | (some stop, s) => (some stop, s)
      | (none, s) =>
        let n := min (min (piece.length - off) s.bytes) chunkBytes
        let chunk := if off = 0 ∧ n = piece.length then piece else (piece.drop off).take n
        match sendCopyData s chunk with
        | (some ex, s) => (some (.threw ex), s)
        | (none, s) =>
          sendFrom
            { s with
              frames := s.frames - 1
              bytes := s.bytes - n } piece (off + n) fuel
    else (none, s)

def send (s : State) (piece : List UInt8) : Option Stop × State :=
  sendFrom s piece 0 piece.length

/-- The loop over the iterable, and the last piece. -/
def sendItems (s : State) (pending : List UInt8) : List Item → Option Stop × State
  | [] => if pending = [] then (none, s) else send s pending
  | .notString debugType :: _ =>
    (some (.threw (.invalidArgument
      ("COPY data must be strings of raw COPY bytes, got " ++ debugType))), s)
  | .throws ex :: _ => (some (.threw ex), s)
  | .piece bytes :: items =>
    if pending = [] ∧ chunkBytes ≤ bytes.length then
      match send s bytes with
      | (some stop, s) => (some stop, s)
      | (none, s) => sendItems s pending items
    else if chunkBytes ≤ (pending ++ bytes).length then
      match send s (pending ++ bytes) with
      | (some stop, s) => (some stop, s)
      | (none, s) => sendItems s [] items
    else sendItems s (pending ++ bytes) items

/-- The reads after COPY_DONE. -/
def awaitEnd (s : State) : List Event → End × State
  | [] => (.stopped .waiting, s)
  | event :: rest =>
    let next := s.read event rest
    match event with
    | .grant _ _ => awaitEnd next rest
    | .end_ outcome =>
      let ended := { next with reachedTerminal := true }
      match affected outcome with
      | .ok rows => (.returned rows, ended)
      | .error ex => (.stopped (.threw ex), ended)
    | .data _ => (.stopped (.threw unexpectedData), next)
    | .badEnd message => (.stopped (.threw (.codec message)), next)
    | .transport message => (.stopped (.threw (.ferro (.transport false message))), next)
    | .connectionLost message =>
      (.stopped (.threw (.ferro (.connectionLost none message))), next)
    | .desync message | .malformed message =>
      (.stopped (.threw (.ferro (.protocol message))), next)

/-- The inner `try`. -/
def copy (s : State) (items : List Item) : End × State :=
  match sendItems s [] items with
  | (some stop, s) => (.stopped stop, s)
  | (none, s) =>
    match sendCopyDone s with
    | (some ex, s) => (.stopped (.threw ex), s)
    | (none, s) => awaitEnd { s with doneSent := true } s.events

def copyStoppedBeforeDone (reason : String) : Thrown :=
  .retryable ⟨errConnectionLost, branchRetryable,
    "COPY lost before its end-of-data was sent — PostgreSQL completes a COPY only on its " ++
      "end-of-data, so it cannot have applied (Retryable): " ++ reason⟩

/-- The fate of a lost link. -/
def lost (inTx epochChanged doneSent : Bool) (server : Option ErrorPayload) (message : String) :
    Thrown :=
  if doneSent then
    classifyLoss (if inTx then .txStatement else .write)
      ("COPY_IN lost after its end-of-data was sent — whether it applied is unconfirmed: " ++
        message) server epochChanged true
  else copyStoppedBeforeDone message

/-- The `catch` clauses of the inner `try`, and whether they set `$wireFailed`. -/
def caught (inTx epochChanged doneSent : Bool) : End → End × Bool
  | .stopped (.threw (.ferro (.transport _ message))) =>
    (.stopped (.threw (.ferro (lost inTx epochChanged doneSent none message))), true)
  | .stopped (.threw (.ferro (.connectionLost server message))) =>
    (.stopped (.threw (.ferro (lost inTx epochChanged doneSent server message))), true)
  | .stopped (.threw (.codec message)) =>
    (.stopped (.threw (.ferro (.protocol ("failed to decode a COPY_IN frame: " ++ message)))), true)
  | result => (result, false)

/-- The `finally`; a call that still waits has not come to it. -/
def finish (s : State) (result : End) (wireFailed : Bool) : End × List Op :=
  if result = .stopped .waiting ∨ s.reachedTerminal = true ∨ wireFailed = true then (result, s.log)
  else
    match abandonCopy s with
    | (some stop, s) => (.stopped stop, s.log)
    | (none, s) => (result, s.log)

/-- The body of `in` once the COPY has started. -/
def started (inTx epochChanged : Bool) (s : State) (items : List Item) : End × List Op :=
  let (result, s) := copy s items
  let (result, wireFailed) := caught inTx epochChanged s.doneSent result
  finish s result wireFailed

/-- The exceptions of `openCopyIn`. -/
def openError : Raised → Raised
  | .ferro (.transport _ message) | .ferro (.connectionLost _ message) =>
    .ferro (copyStoppedBeforeDone ("the COPY_IN request was lost: " ++ message))
  | .codec message => .ferro (.protocol ("failed to decode the COPY_IN answer: " ++ message))
  | ex => ex

/-- The state in which a COPY starts. -/
def State.opened (frames bytes : Nat) (events : List Event) (writes : List Write) : State :=
  { frames := frames
    bytes := bytes
    doneSent := false
    reachedTerminal := false
    streamOpen := true
    events := events
    writes := writes
    log := [.submitted .written, .read (.grant frames bytes)] }

def in_ (inTx epochChanged : Bool) (requestId : Nat) (submit : Submit) (events : List Event)
    (writes : List Write) (items : List Item) : End × List Op :=
  match submit with
  | .refused ex => (.stopped (.threw (openError ex)), [.submitted submit])
  | .written =>
    match events with
    | [] => (.stopped .waiting, [.submitted submit])
    | .grant frames bytes :: rest =>
      started inTx epochChanged (.opened frames bytes rest writes) items
    | event :: _ =>
      let result : End :=
        match event with
        | .end_ outcome =>
          match affected outcome with
          | .ok rows => .returned rows
          | .error ex => .stopped (.threw ex)
        | .data _ =>
          .stopped (.threw (.ferro
            (.protocol ("expected a COPY_IN grant for request " ++ toString requestId))))
        | event =>
          match event.raised with
          | some ex => .stopped (.threw (openError ex))
          | none => .stopped .waiting
      (result, [.submitted submit, .read event])

end FerroEngine.ClientCopyIn
