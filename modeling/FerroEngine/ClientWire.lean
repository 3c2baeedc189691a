import Mathlib.Data.List.Basic
import FerroEngine.LabelledRuns

set_option autoImplicit false

/-! # The bytes that the PHP session writes

`submitFrame`, `writeFrame`, `flushDeferred`, the reads and `close` of `Session.php` over the writes
of `Transport.php`. A destructor may call the session at any point, so the calls form a stack; only
the top one moves. What a read returns, and which frames are deferred, is up to the run.
-/

namespace FerroEngine.ClientWire

open LabelledRuns

inductive Exn where
  | transport (requestUnsent : Bool)
  | protocol
  | reentrantWrite
  | connectionLost
  | inFlightLimit
  /-- Any other exception of a destructor. -/
  | other
  /-- An `\Error`. -/
  | error
  deriving DecidableEq, Repr

/-- Why a frame is being written. -/
inductive Role where
  /-- It is the frame of the call itself. -/
  | own
  /-- `flushDeferred`, with the exception that waits behind its `finally`. -/
  | flush (pending : Option Exn)
  /-- A liveness PING inside a read. -/
  | ping
  deriving DecidableEq, Repr

structure Sending where
  frame : List UInt8
  written : Nat
  role : Role
  deriving DecidableEq, Repr

inductive Phase where
  /-- Between two transport operations, or before the return. -/
  | rests (pending : Option Exn)
  | reading
  | sending (w : Sending)
  deriving DecidableEq, Repr

inductive Op where
  /-- `submitFrame`; it is `waiting` until it hands its frame to the transport. -/
  | submit (token : Nat) (frame : List UInt8) (waiting : Bool)
  /-- A control frame about a request that was written before, or about none. -/
  | control (about : Option Nat)
  | read (about : Option Nat)
  | close
  deriving DecidableEq, Repr

structure Call where
  op : Op
  phase : Phase
  deriving DecidableEq, Repr

structure State where
  poisoned : Bool
  fatal : Bool
  writing : Bool
  busy : Nat
  /-- The calls in progress, the innermost first. -/
  stack : List Call
  /-- The bytes that the socket has accepted. -/
  out : List UInt8
  /-- The frames handed to the transport. -/
  begun : List (List UInt8)
  next : Nat
  /-- The requests whose frame was accepted to its last byte. -/
  complete : List Nat
  /-- The requests that an exception has reported as `requestUnsent`. -/
  unsent : List Nat
  deriving DecidableEq, Repr

def State.start : State :=
  { poisoned := false, fatal := false, writing := false, busy := 0, stack := [], out := [],
    begun := [], next := 0, complete := [], unsent := [] }

inductive Label where
  | submits (frame : List UInt8)
  | controls (about : Option Nat) (frame : List UInt8)
  | reads (about : Option Nat)
  | closes (frame : List UInt8)
  /-- A submission reads while no slot is free. -/
  | waits
  /-- Every slot is held by a parked exchange. -/
  | parks
  | sends
  | flushes (frame : List UInt8)
  | pings (frame : List UInt8)
  /-- The socket accepts bytes. -/
  | accepts (k : Nat)
  | completes
  /-- A frame was read. -/
  | received (fatal : Bool)
  | desyncs
  /-- The transport fails, in a write or in a read, nested or not. -/
  | fails
  /-- An exception escapes from a destructor into the transport operation it interrupted. -/
  | escapes (e : Exn)
  | returns
  deriving DecidableEq, Repr

/-- The least length of an encoded frame, its header. -/
def headerLen : Nat := 16

namespace State

def dead (s : State) : Bool := s.poisoned || s.fatal

def poison (s : State) : State := { s with poisoned := true }

def push (s : State) (op : Op) (phase : Phase) : State :=
  { s with stack := ⟨op, phase⟩ :: s.stack }

def replace (s : State) (op : Op) (phase : Phase) (rest : List Call) : State :=
  { s with stack := ⟨op, phase⟩ :: rest }

/-- `writeFrame` past its refusals. -/
def begins (s : State) (op : Op) (frame : List UInt8) (role : Role) (rest : List Call) : State :=
  { s.replace op (.sending ⟨frame, 0, role⟩) rest with
    writing := true
    busy := s.busy + 1
    begun := s.begun ++ [frame] }

end State

/-- The request that an exception of the call is about. -/
def Op.subject : Op → Option Nat
  | .submit token _ _ => some token
  | .control about | .read about => about
  | .close => none

/-- How an exception of a read leaves the call that reads. -/
def readError (fatal : Bool) (op : Op) (e : Exn) : Exn :=
  match op, e with
  | .submit _ _ _, .transport _ | .submit _ _ _, .protocol => .transport true
  -- After a session-fatal terminal the end of the stream is expected.
  | .read _, .transport unsent => if fatal then .connectionLost else .transport unsent
  | _, e => e

/-- How an exception of the transport leaves `writeFrame`. -/
def writeError (isRequest : Bool) (e : Exn) : Exn :=
  match e with
  | .error => .error
  | .transport unsent => if isRequest then .transport true else .transport unsent
  | _ => .transport isRequest

def isRequest (op : Op) (role : Role) : Bool :=
  match op, role with
  | .submit _ _ _, .own => true
  | _, _ => false

def raiseReading (s : State) (op : Op) (rest : List Call) (e : Exn) : State :=
  let s := match e with
    | .transport _ => s.poison
    | _ => s
  { s.replace op (.rests (some (readError s.fatal op e))) rest with busy := s.busy - 1 }

/-- What is left of an exception of `writeFrame` behind the catches of its caller. -/
def caught (op : Op) (role : Role) (lost : Exn) : Option Exn :=
  match role, op, lost with
  | .own, .close, _ => none
  | .flush pending, _, .transport _ => pending
  | _, _, lost => some lost

def raiseSending (s : State) (op : Op) (w : Sending) (rest : List Call) (e : Exn) : State :=
  let s := { s.poison with
    writing := false
    busy := s.busy - 1 }
  let lost := writeError (isRequest op w.role) e
  match w.role with
  | .ping =>
    { s.replace op (.rests (some (readError s.fatal op lost))) rest with busy := s.busy - 1 }
  | role => s.replace op (.rests (caught op role lost)) rest

/-- The step of the innermost call. -/
def callStep (s : State) (op : Op) (phase : Phase) (rest : List Call) : Label → Option State
  | .waits =>
    match op, phase with
    | .submit _ _ true, .rests none =>
      if s.dead then some (s.replace op (.rests (some (.transport true))) rest)
      else some { s.replace op .reading rest with busy := s.busy + 1 }
    | _, _ => none
  | .parks =>
    match op, phase with
    | .submit _ _ true, .rests none => some (s.replace op (.rests (some .inFlightLimit)) rest)
    | _, _ => none
  | .sends =>
    match op, phase with
    | .submit token frame true, .rests none =>
      if s.dead then some (s.replace op (.rests (some (.transport true))) rest)
      else if s.writing then some (s.replace op (.rests (some .reentrantWrite)) rest)
      else some (s.begins (.submit token frame false) frame .own rest)
    | _, _ => none
  | .flushes frame =>
    match phase with
    | .rests pending =>
      if s.dead || s.writing || decide (s.busy ≠ 0 ∨ frame.length < headerLen) then none
      else some (s.begins op frame (.flush pending) rest)
    | _ => none
  | .pings frame =>
    match phase with
    | .reading =>
      if s.dead || s.writing || decide (frame.length < headerLen) then none
      else some (s.begins op frame .ping rest)
    | _ => none
  | .accepts k =>
    match phase with
    | .sending w =>
      if s.poisoned = false ∧ 0 < k ∧ w.written + k ≤ w.frame.length then
        some { s.replace op (.sending { w with written := w.written + k }) rest with
          out := s.out ++ (w.frame.drop w.written).take k
          complete :=
            if isRequest op w.role && decide (w.written + k = w.frame.length) then
              op.subject.toList ++ s.complete
            else s.complete }
      else none
    | _ => none
  | .completes =>
    match phase with
    | .sending w =>
      if w.written = w.frame.length then
        let s := { s with
          writing := false
          busy := s.busy - 1 }
        match w.role with
        | .own => some (s.replace op (.rests none) rest)
        | .flush pending => some (s.replace op (.rests pending) rest)
        | .ping => some (s.replace op .reading rest)
      else none
    | _ => none
  | .received fatal =>
    match phase with
    | .reading =>
      some { s.replace op (.rests none) rest with
        busy := s.busy - 1
        fatal := s.fatal || fatal }
    -- A write that cannot progress reads.
    | .sending _ => some { s with
        stack := ⟨op, phase⟩ :: rest
        fatal := s.fatal || fatal }
    | .rests _ => none
  | .desyncs =>
    match phase with
    | .reading => some (raiseReading s.poison op rest .protocol)
    | _ => none
  | .fails =>
    match phase with
    | .reading => some (raiseReading s op rest (.transport false))
    | .sending w =>
      if w.written < w.frame.length then some (raiseSending s op w rest (.transport false)) else none
    | .rests _ => none
  | .escapes e =>
    match phase with
    | .reading => some (raiseReading s op rest e)
    | .sending w => some (raiseSending s op w rest e)
    | .rests _ => none
  | .returns =>
    match op, phase with
    | .submit _ _ true, .rests none => none
    | .close, .rests _ => some { s.poison with stack := rest }
    | _, .rests pending =>
      some { s with
        stack := rest
        unsent := if pending = some (.transport true) then op.subject.toList ++ s.unsent
          else s.unsent }
    | _, _ => none
  | _ => none

def known (s : State) (about : Option Nat) : Bool :=
  about.all fun token => decide (token ∈ s.complete)

def step (s : State) (a : Label) : Option State :=
  match a with
  | .submits frame =>
    if frame.length < headerLen then none
    else if s.dead then
      some { s with
        next := s.next + 1
        unsent := s.next :: s.unsent }
    else some { s.push (.submit s.next frame true) (.rests none) with next := s.next + 1 }
  | .controls about frame =>
    if known s about && decide (headerLen ≤ frame.length) then
      -- The refusals are plain exceptions, and nothing is written.
      if s.dead || s.writing then some s
      else some (s.begins (.control about) frame .own s.stack)
    else none
  | .reads about =>
    if known s about then
      if s.poisoned then some s
      else some { s.push (.read about) .reading with busy := s.busy + 1 }
    else none
  | .closes frame =>
    if frame.length < headerLen then none
    else if s.dead || s.writing then some s.poison
    else some (s.begins .close frame .own s.stack)
  | a =>
    match s.stack with
    | [] => none
    | c :: rest => callStep s c.op c.phase rest a

end FerroEngine.ClientWire
