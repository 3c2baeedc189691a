import FerroEngine.FrameRouting
import FerroEngine.LabelledRuns

set_option autoImplicit false

/-! # The request lifecycle of a session

The reader loop and `handle_request_frame` of `session/mod.rs`, `Registry::insert` and `remove`,
the handler tasks, `supervise` and the writer, as the steps that a scheduler can interleave.
-/

namespace FerroEngine.SessionLifecycle

open FrameRouting

/-! ## Frames to the client -/

inductive Terminal where
  | ok (body : List UInt8)
  | error (payload : ErrorPayload)
  | cancelled
  deriving DecidableEq, Repr

def noTerminalDeclared : Terminal :=
  .error { errorPayload protocolCode "handler produced no terminal" with
    detail := some "supervisor-synth" }

inductive FrameKind where
  /-- `HEAD`, `DATA` and the other frames a handler sends before its terminal. -/
  | stream
  | pong
  /-- The one `END` of a request. -/
  | terminal (outcome : Terminal)
  deriving DecidableEq, Repr

/-- A frame on the control channel; `origin` is the request whose tasks sent it, if any did. -/
structure OutFrame where
  id : Nat
  kind : FrameKind
  origin : Option Nat
  deriving DecidableEq, Repr

/-- What happened on the session, in order: a request was accepted, or a frame was enqueued. -/
inductive Event where
  | accepted (k id : Nat)
  | frame (frame : OutFrame)
  deriving DecidableEq, Repr

def Event.frame? : Event → Option OutFrame
  | .accepted _ _ => none
  | .frame sent => some sent

/-! ## State -/

inductive Phase where
  /-- Inserted; the reader waits for the terminal's permit. -/
  | reserving
  /-- The handler task runs, and has declared a terminal or not. -/
  | running (declared : Option Terminal)
  /-- The handler task has resolved; the supervisor is about to send. -/
  | finished (terminal : Terminal)
  /-- The supervisor has sent the terminal and is about to remove the id. -/
  | sent
  | removed
  /-- The permit could not be reserved. -/
  | dropped
  /-- The supervisor was aborted at the drain deadline; the handler may still run. -/
  | abandoned
  deriving DecidableEq, Repr

structure Request where
  id : Nat
  phase : Phase
  deriving DecidableEq, Repr

inductive Reader where
  | looping
  | reserving (k : Nat)
  | stopped
  deriving DecidableEq, Repr

structure Session where
  maxInflight : Nat
  peerUid : Option Nat
  adminUids : List Nat
  /-- The keys of the in-flight map. -/
  registry : List Nat
  requests : List Request
  log : List Event
  /-- How many of the enqueued frames are on the wire. -/
  written : Nat
  writing : Bool
  reader : Reader
  deriving DecidableEq, Repr

/-- The session once the handshake is done. -/
def Session.start (maxInflight : Nat) (peerUid : Option Nat) (adminUids : List Nat) : Session :=
  { maxInflight := maxInflight, peerUid := peerUid, adminUids := adminUids, registry := [],
    requests := [], log := [], written := 0, writing := true, reader := .looping }

namespace Session

/-- The frames of the control channel, in the order they were enqueued. -/
def frames (s : Session) : List OutFrame :=
  s.log.filterMap Event.frame?

def wire (s : Session) : List OutFrame :=
  s.frames.take s.written

def enqueue (s : Session) (frame : OutFrame) : Session :=
  { s with log := s.log ++ [.frame frame] }

def setPhase (s : Session) (k : Nat) (r : Request) (phase : Phase) : Session :=
  { s with requests := s.requests.set k { r with phase := phase } }

end Session

/-! ## The registry -/

inductive InsertErr where
  | reused
  | full
  deriving DecidableEq, Repr

/-- `Registry::insert`. -/
def Session.insert (s : Session) (id : Nat) : Except InsertErr (List Nat) :=
  if id ∈ s.registry then .error .reused
  else if s.maxInflight ≤ s.registry.length then .error .full
  else .ok (id :: s.registry)

/-- `Registry::remove`. -/
def Session.remove (s : Session) (id : Nat) : Session :=
  { s with registry := s.registry.erase id }

/-! ## The reader loop -/

/-- What the reader does about a frame. -/
inductive Action where
  | stop
  /-- One error `END` on request id 0, then stop. -/
  | fatal (payload : ErrorPayload)
  /-- One error `END` on the frame's id. -/
  | refuse (id : Nat) (payload : ErrorPayload)
  | pong (id : Nat)
  | ignore
  | accept (id : Nat) (registry : List Nat)
  deriving DecidableEq, Repr

/-- `handle_request_frame` up to the reservation of the permit. -/
def requestAction (s : Session) (id : Nat) : Action :=
  if id = 0 then
    .refuse id (errorPayload protocolCode "request_id 0 is reserved for session context")
  else match s.insert id with
    | .error .reused => .refuse id (errorPayload protocolCode "reused in-flight request id")
    | .error .full => .refuse id (errorPayload protocolCode "max_inflight exceeded")
    | .ok registry => .accept id registry

/-- The COPY frame's payload is malformed, or its delivery breaks the flow-control contract. -/
def copyAction (done decodes : Bool) (violation : Option String) : Action :=
  if decodes then
    match violation with
    | some why => .fatal (errorPayload protocolCode why)
    | none => .ignore
  else .fatal (errorPayload protocolCode (if done then "malformed CopyDone" else "malformed CopyData"))

/-- One turn of the loop; `violation` is what `Registry::deliver` says of a COPY frame. -/
def readerAction (s : Session) (input : Decoded) (violation : Option String) : Action :=
  match classify input with
  | .closed => .stop
  | .fatal err => .fatal err
  | .perRequestErr rid err => .refuse rid err
  | .frame frame =>
    if frame.flags &&& flagCancel ≠ 0 then .ignore
    else match route frame.service frame.method with
      | .coreControl .ping => if frame.decodes then .pong frame.requestId else .ignore
      | .coreControl .goodbye => .stop
      | .coreControl .windowUpdate => .ignore
      | .copyData done => copyAction done frame.decodes violation
      | .request => requestAction s frame.requestId
      | .admin verb =>
        match authorize s.peerUid s.adminUids verb with
        | .ok () => requestAction s frame.requestId
        | .error err => .refuse frame.requestId err
      | .unsupported => .refuse frame.requestId
          (errorPayload unsupportedCode "service/method not yet implemented")

/-- `control_tx.send(..)` of the reader: the loop ends when the writer is gone. -/
def readerSend (s : Session) (frame : OutFrame) : Session :=
  if s.writing then s.enqueue frame else { s with reader := .stopped }

/-- `SessionError::into_out_frame`. -/
def errorFrame (id : Nat) (payload : ErrorPayload) : OutFrame :=
  { id := id, kind := .terminal (.error payload), origin := none }

def takeAction (s : Session) : Action → Session
  | .stop => { s with reader := .stopped }
  | .fatal payload => { readerSend s (errorFrame 0 payload) with reader := .stopped }
  | .refuse id payload => readerSend s (errorFrame id payload)
  | .pong id => readerSend s { id := id, kind := .pong, origin := none }
  | .ignore => s
  | .accept id registry =>
    { s with
      registry := registry
      requests := s.requests ++ [{ id := id, phase := .reserving }]
      log := s.log ++ [.accepted s.requests.length id]
      reader := .reserving s.requests.length }

/-! ## The tasks of a request -/

inductive TaskOp where
  /-- The handler sends a frame of its stream. -/
  | emit
  /-- The handler consumes its `Responder`. -/
  | declare (terminal : Terminal)
  /-- The handler task ends, by return or by panic. -/
  | resolve (panicked : Bool)
  /-- The supervisor sends the terminal on its permit. -/
  | terminal
  /-- The supervisor removes the id. -/
  | remove
  deriving DecidableEq, Repr

/-- The next phase of a request and the frame that its task enqueues. -/
def taskStep : Phase → TaskOp → Option (Phase × Option FrameKind)
  | .running none, .emit => some (.running none, some .stream)
  | .abandoned, .emit => some (.abandoned, some .stream)
  | .running none, .declare terminal => some (.running (some terminal), none)
  | .running declared, .resolve panicked =>
    -- A panic discards what the handler declared.
    some (.finished (if panicked then noTerminalDeclared else declared.getD noTerminalDeclared),
      none)
  | .finished terminal, .terminal => some (.sent, some (.terminal terminal))
  | .sent, .remove => some (.removed, none)
  | _, _ => none

/-- A frame that is enqueued when the writer is gone stays off the wire. -/
def advance (s : Session) (k : Nat) (r : Request) (op : TaskOp)
    (next : Phase × Option FrameKind) : Session :=
  let moved := s.setPhase k r next.1
  let logged := match next.2 with
    | some kind => moved.enqueue { id := r.id, kind := kind, origin := some k }
    | none => moved
  if op = .remove then logged.remove r.id else logged

/-! ## Steps -/

inductive Label where
  | read (input : Decoded) (violation : Option String)
  /-- `reserve_owned` resolves. -/
  | reserve (granted : Bool)
  | task (k : Nat) (op : TaskOp)
  | write
  | writerFails
  /-- The drain deadline passes. -/
  | drainDeadline
  deriving DecidableEq, Repr

/-- `supervisors.abort_all()`. -/
def abandon (r : Request) : Request :=
  match r.phase with
  | .running _ | .finished _ => { r with phase := .abandoned }
  | _ => r

def step (s : Session) : Label → Option Session
  | .read input violation =>
    if s.reader = .looping then some (takeAction s (readerAction s input violation)) else none
  | .reserve granted =>
    match s.reader with
    | .reserving k =>
      match s.requests[k]? with
      | some r =>
        if granted then some { s.setPhase k r (.running none) with reader := .looping }
        else if s.writing then none
        else some { (s.setPhase k r .dropped).remove r.id with reader := .stopped }
      | none => none
    | _ => none
  | .task k op =>
    match s.requests[k]? with
    | some r => (taskStep r.phase op).map (advance s k r op)
    | none => none
  | .write =>
    if s.writing ∧ s.written < s.frames.length then some { s with written := s.written + 1 }
    else none
  | .writerFails => some { s with writing := false }
  | .drainDeadline =>
    if s.reader = .stopped then some { s with requests := s.requests.map abandon } else none

end FerroEngine.SessionLifecycle
