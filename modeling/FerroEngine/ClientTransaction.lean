import FerroEngine.ClientRetry

set_option autoImplicit false

/-! # The transaction closure of the PHP client

`Connection::transaction` and `txReRunDecision` of `Connection.php`, with the control requests of
`TxHandle`. A closure, its session and the reconnect loop are seen through what they answer at each
attempt: link losses, local refusals and the engine's terminals.
-/

namespace FerroEngine.ClientTransaction

open ClientRetry

/-! ## What an attempt meets -/

/-- What `sendRequest` meets for a request of the transaction service. -/
inductive Control (α : Type) where
  /-- `assertNoOpenStream`: the `ProtocolException` of an open stream. -/
  | streamOpen (message : String)
  /-- `InFlightLimitException`: no slot can free. -/
  | parked (message : String)
  /-- `ReentrantWriteException`. -/
  | reentrant (message : String)
  /-- `TransportException::requestNotSent`. -/
  | unsent (message : String)
  /-- A `TransportException` after the frame was written. -/
  | cut (message : String)
  /-- A `ConnectionLostException` after the frame was written. -/
  | connectionLost (server : Option ErrorPayload) (message : String)
  | undecodable (message : String)
  | terminal (outcome : Outcome α)
  deriving DecidableEq, Repr

namespace Control

variable {α : Type}

/-- The frame was completely written. -/
def written : Control α → Bool
  | .streamOpen _ | .parked _ | .reentrant _ | .unsent _ => false
  | .cut _ | .connectionLost _ _ | .undecodable _ | .terminal _ => true

/-- The client refused to write the frame, on a session that it did not find dead. -/
def refused : Control α → Bool
  | .streamOpen _ | .parked _ | .reentrant _ => true
  | _ => false

/-- The failure ends the session. -/
def loses : Control α → Bool
  | .unsent _ | .cut _ | .connectionLost _ _ => true
  | _ => false

/-- The frame was written and nothing came back. -/
def unanswered : Control α → Bool
  | .cut _ | .connectionLost _ _ => true
  | _ => false

def loss : Control α → Option Loss
  | .unsent message => some (.transport true message)
  | .cut message => some (.transport false message)
  | .connectionLost server message => some (.connectionLost server message)
  | _ => none

end Control

/-- How a closure ends. -/
inductive ClosureEnd (α : Type) where
  | returned (value : α)
  | threw (ex : Thrown)
  /-- An exception of the application, or any other that the client does not look into. -/
  | failed
  deriving DecidableEq, Repr

structure TxAttempt (α : Type) where
  session : SessionEvent
  /-- BEGIN, with the transaction's id if its body decodes. -/
  begin_ : Control (Option Nat)
  closure : ClosureEnd α
  /-- COMMIT after a return, ROLLBACK after an exception. -/
  control : Control Unit
  /-- What the reconnect loop answers when it is asked in the attempt. -/
  reconnect : ReconnectEvent
  /-- `lastEpochChanged` when it is asked in the attempt. -/
  epochChanged : Bool
  /-- Nothing but the attempt's own requests ends its session. -/
  spared : Bool
  deriving DecidableEq, Repr

/-- How a call ends. -/
inductive TxEnd (α : Type) where
  | returned (value : α)
  | threw (ex : Thrown)
  | failed
  | epochChanged
  deriving DecidableEq, Repr

/-- An attempt made, and whether the reconnect loop was asked after it. -/
structure Made (α : Type) where
  attempt : TxAttempt α
  reconnected : Bool
  deriving DecidableEq, Repr

/-- The attempts made, and how the call ends. -/
abbrev TxCall (α : Type) := List (Made α) × TxEnd α

inductive TxReRun where
  | no
  | sameSession
  | reconnect
  deriving DecidableEq, Repr

variable {α : Type}

/-! ## `TxHandle` -/

/-- `control`. -/
def control : Control Unit → Except Thrown Unit
  | .streamOpen message => .error (.protocol message)
  | .parked message => .error (parkedError message)
  | .reentrant message => .error (.reentrant message)
  | .unsent message => .error (.transport true message)
  | .cut message => .error (.transport false message)
  | .connectionLost server message => .error (.connectionLost server message)
  | .undecodable message => .error (.protocol ("failed to decode TX control terminal: " ++ message))
  | .terminal (.ok _) => .ok ()
  | .terminal outcome => .error (fromOutcome outcome)

/-! ## `Connection` -/

/-- `requestSession(OpKind::TxBegin, true)`. -/
def beginSession (resilient : Bool) (a : TxAttempt α) : Option Thrown :=
  if resilient then
    match a.session with
    | .live | .replaced => none
    | .lost message =>
      some (classifyLoss .txBegin
        ("reconnecting a session closed by an earlier failure failed: " ++ message) none false false)
    | .rejected payload => some (.handshake payload)
  else none

def isLoss : ClosureEnd α → Bool
  | .threw (.connectionLost _ _) | .threw (.transport _ _) => true
  | _ => false

def txReRunDecision (resilient : Bool) : ClosureEnd α → TxReRun
  | .threw (.connectionLost _ _) | .threw (.transport _ _) => if resilient then .reconnect else .no
  | .threw (.retryable _) => .sameSession
  | _ => .no

/-- The end of a call at an attempt. -/
def stop (a : TxAttempt α) (reconnected : Bool) (result : TxEnd α) : TxCall α :=
  ([⟨a, reconnected⟩], result)

/-- Another pass of the loop. -/
def continue_ (a : TxAttempt α) (reconnected : Bool) (rest : TxCall α) : TxCall α :=
  (⟨a, reconnected⟩ :: rest.1, rest.2)

/-- `$this->reconnect->reconnect()` and another pass. -/
def reconnectAndContinue (a : TxAttempt α) (rest : TxCall α) : TxCall α :=
  match a.reconnect with
  | .fresh => continue_ a true rest
  | .fails ex => stop a true (.threw ex)

/-- A lost BEGIN. -/
def beginLost (resilient : Bool) (a : TxAttempt α) (again : Option (TxCall α)) (loss : Loss) :
    TxCall α :=
  let fate := classifyLoss .txBegin ("BEGIN lost: " ++ loss.message) loss.server false loss.wasSent
  match again with
  | some rest => if resilient then reconnectAndContinue a rest else stop a false (.threw fate)
  | none => stop a false (.threw fate)

/-- A BEGIN that was answered with an error. -/
def beginErred (a : TxAttempt α) (again : Option (TxCall α)) (ex : Thrown) : TxCall α :=
  match ex, again with
  | .retryable _, some rest => continue_ a false rest
  | _, _ => stop a false (.threw ex)

/-- The exception of a closure, after the rollback, whose own failure is swallowed. -/
def closureError (resilient : Bool) (a : TxAttempt α) (again : Option (TxCall α)) : TxCall α :=
  let surfaced : TxCall α :=
    if resilient && a.epochChanged && isLoss a.closure then stop a false .epochChanged
    else
      match a.closure with
      | .threw ex => stop a false (.threw ex)
      | _ => stop a false .failed
  match txReRunDecision resilient a.closure, again with
  | .no, _ | _, none => surfaced
  | .reconnect, some rest => reconnectAndContinue a rest
  | .sameSession, some rest => continue_ a false rest

/-- The COMMIT after a closure that returned. -/
def commit (resilient : Bool) (a : TxAttempt α) (value : α) (again : Option (TxCall α)) : TxCall α :=
  let lost (loss : Loss) : TxCall α :=
    stop a false (.threw (classifyLoss .txCommit ("COMMIT lost: " ++ loss.message) none
      (resilient && a.epochChanged) loss.wasSent))
  match control a.control with
  | .ok _ => stop a false (.returned value)
  | .error (.transport requestUnsent message) => lost (.transport requestUnsent message)
  | .error (.connectionLost server message) => lost (.connectionLost server message)
  | .error (.retryable payload) =>
    match again with
    | some rest => continue_ a false rest
    | none => stop a false (.threw (.retryable payload))
  | .error ex => stop a false (.threw ex)

/-- One pass of the loop; `again` is the rest of it while `attempt + 1 < maxAttempts`. -/
def txAttempt (resilient : Bool) (a : TxAttempt α) (again : Option (TxCall α)) : TxCall α :=
  match beginSession resilient a with
  | some ex => stop a false (.threw ex)
  | none =>
    match a.begin_ with
    | .unsent message => beginLost resilient a again (.transport true message)
    | .cut message => beginLost resilient a again (.transport false message)
    | .connectionLost server message => beginLost resilient a again (.connectionLost server message)
    | .streamOpen message => stop a false (.threw (.protocol message))
    | .parked message => stop a false (.threw (parkedError message))
    | .reentrant message => stop a false (.threw (.reentrant message))
    | .undecodable message =>
      stop a false (.threw (.protocol ("failed to decode BEGIN terminal: " ++ message)))
    | .terminal (.ok none) => stop a false (.threw (.protocol "failed to decode BEGIN response"))
    | .terminal (.ok (some _)) =>
      match a.closure with
      | .returned value => commit resilient a value again
      | _ => closureError resilient a again
    | .terminal outcome => beginErred a again (fromOutcome outcome)

/-- The loop with `left` further attempts allowed; `env n` is what the attempt `n` meets. -/
def txAttempts (resilient : Bool) (env : Nat → TxAttempt α) : Nat → Nat → TxCall α
  | 0, n => txAttempt resilient (env n) none
  | left + 1, n => txAttempt resilient (env n) (some (txAttempts resilient env left (n + 1)))

def transaction (resilient : Bool) (policy : RetryPolicy) (env : Nat → TxAttempt α) : TxCall α :=
  txAttempts resilient env (policy.maxAttempts - 1) 0

end FerroEngine.ClientTransaction
