import Mathlib.Data.List.Basic

set_option autoImplicit false

/-! # The retry loop of the PHP client

`FateClassifier`, `ErrorMapper` and the two autocommit entry points of `Connection.php`. A session
and the reconnect loop are seen through what they answer at each attempt. The decoded rows are a
parameter, and `lastInsertId` is left out.
-/

namespace FerroEngine.ClientRetry

inductive OpKind where
  | read
  | write
  | txBegin
  | txStatement
  | txCommit
  | txRollback
  | txSavepoint
  deriving DecidableEq, Repr

/-- The wire's error payload; the client sets no other field. -/
structure ErrorPayload where
  code : Nat
  branch : Nat
  message : String
  deriving DecidableEq, Repr

def branchRetryable : Nat := 1

def branchIndeterminate : Nat := 2

def branchNonRetryable : Nat := 3

def errConnectionLost : Nat := 4097

def errPoolTimeout : Nat := 4098

def errWriteUnconfirmed : Nat := 8193

inductive Cause where
  | linkLost
  | engineRestart
  | engineReported
  deriving DecidableEq, Repr

/-- The exceptions that a statement may end in. -/
inductive Thrown where
  | retryable (payload : ErrorPayload)
  | indeterminate (payload : ErrorPayload) (cause : Cause)
  | nonRetryable (payload : ErrorPayload)
  | cancelled
  | protocol (message : String)
  | handshake (payload : ErrorPayload)
  | transport (requestUnsent : Bool) (message : String)
  | connectionLost (server : Option ErrorPayload) (message : String)
  | reentrant (message : String)
  deriving DecidableEq, Repr

structure RetryPolicy where
  retryReads : Bool
  maxAttempts : Nat
  retryIdempotentWrites : Bool
  deriving DecidableEq, Repr

structure ManifestQuery where
  idempotent : Bool
  deriving DecidableEq, Repr

/-! ## `FateClassifier` -/

def mayRetry (retryReads : Bool) (branch : Option Nat) (readonly : Bool) (opKind : OpKind)
    (idempotent : Bool) : Bool :=
  if opKind = .txCommit then false
  else if branch = some branchIndeterminate then false
  else if branch ≠ some branchRetryable then false
  else if !readonly then idempotent
  else retryReads

/-- The branch of an exception of the taxonomy; the others carry none. -/
def Thrown.branch : Thrown → Option Nat
  | .retryable _ => some branchRetryable
  | .indeterminate _ _ => some branchIndeterminate
  | .nonRetryable payload => some payload.branch
  | _ => none

def mayRetryException (retryReads : Bool) (ex : Thrown) (readonly : Bool) (opKind : OpKind) : Bool :=
  mayRetry retryReads ex.branch readonly opKind false

def classifyLoss (opKind : OpKind) (reason : String) (server : Option ErrorPayload)
    (epochChanged sent : Bool) : Thrown :=
  let noResponseCause := if epochChanged then Cause.engineRestart else .linkLost
  if !sent then
    .retryable ⟨errConnectionLost, branchRetryable,
      "request not sent — the connection failed before its frame was completely written, so " ++
        "it cannot have executed (Retryable): " ++ reason⟩
  else if opKind = .txCommit then
    .indeterminate ⟨errWriteUnconfirmed, branchIndeterminate,
      "COMMIT sent with no confirmed response — the transaction may or may not have applied " ++
        "(§19.3 Indeterminate; the client never re-runs it): " ++ reason⟩ noResponseCause
  else
    match server with
    | some payload =>
      if payload.branch = branchRetryable then .retryable payload
      else if payload.branch = branchIndeterminate then .indeterminate payload .engineReported
      else .nonRetryable payload
    | none =>
      if opKind = .write then
        .indeterminate ⟨errWriteUnconfirmed, branchIndeterminate,
          "autocommit write lost mid-flight — fate unknown (§19.3 Indeterminate): " ++ reason⟩
          noResponseCause
      else
        .retryable ⟨errConnectionLost, branchRetryable,
          "connection lost with no write-fate to be unsure about (Retryable): " ++ reason⟩

/-! ## `ErrorMapper` -/

inductive Outcome (α : Type) where
  | ok (decoded : α)
  | cancelled
  | error (payload : ErrorPayload)
  deriving DecidableEq, Repr

def fromErrorPayload (payload : ErrorPayload) : Thrown :=
  if payload.branch = branchRetryable then .retryable payload
  else if payload.branch = branchIndeterminate then .indeterminate payload .engineReported
  else .nonRetryable payload

def fromOutcome {α : Type} : Outcome α → Thrown
  | .cancelled => .cancelled
  | .ok _ => .protocol "ErrorMapper::fromOutcome called on an Ok outcome"
  | .error payload => fromErrorPayload payload

/-! ## What an attempt meets -/

/-- `liveSession`: a poisoned session is replaced first. -/
inductive SessionEvent where
  | live
  | replaced
  | lost (message : String)
  | rejected (payload : ErrorPayload)
  deriving DecidableEq, Repr

/-- A `TransportException` or a `ConnectionLostException`. -/
inductive Loss where
  | transport (requestUnsent : Bool) (message : String)
  | connectionLost (server : Option ErrorPayload) (message : String)
  deriving DecidableEq, Repr

namespace Loss

def wasSent : Loss → Bool
  | .transport requestUnsent _ => !requestUnsent
  | .connectionLost _ _ => true

def server : Loss → Option ErrorPayload
  | .transport _ _ => none
  | .connectionLost server _ => server

def message : Loss → String
  | .transport _ message => message
  | .connectionLost _ message => message

def thrown : Loss → Thrown
  | .transport requestUnsent message => .transport requestUnsent message
  | .connectionLost server message => .connectionLost server message

end Loss

/-- What `sendRequest` meets: a failure of its `submit`, or one of its `awaitTerminal`, or the
terminal. -/
inductive SendEvent (α : Type) where
  | submitLost (loss : Loss)
  /-- `InFlightLimitException`. -/
  | parked (message : String)
  /-- `ReentrantWriteException`. -/
  | reentrant (message : String)
  | awaitLost (loss : Loss)
  | undecodable (message : String)
  | terminal (outcome : Outcome α)
  deriving DecidableEq, Repr

inductive ReconnectEvent where
  | fresh
  | fails (ex : Thrown)
  deriving DecidableEq, Repr

structure Attempt (α : Type) where
  session : SessionEvent
  send : SendEvent α
  /-- What the reconnect loop answers when it is asked after the attempt. -/
  reconnect : ReconnectEvent
  /-- `lastEpochChanged` when a loss is classified. -/
  epochChanged : Bool
  /-- The engine has applied the statement of this attempt. -/
  applied : Bool
  deriving DecidableEq, Repr

structure Client where
  policy : RetryPolicy
  /-- There is a reconnect loop. -/
  resilient : Bool
  /-- The session is a `MultiplexingSessionInterface`. -/
  multiplexing : Bool
  deriving DecidableEq, Repr

/-- The attempts made, and how the call ends. -/
abbrev Call (α : Type) := List (Attempt α) × Except Thrown α

variable {α : Type}

/-! ## `Connection` -/

def opKindOf (readonly : Bool) : OpKind :=
  if readonly then .read else .write

/-- The exception of `requestSession`, if any. -/
def requestSession (c : Client) (readonly : Bool) (a : Attempt α) : Option Thrown :=
  if c.resilient then
    match a.session with
    | .live | .replaced => none
    | .lost message =>
      some (classifyLoss (opKindOf readonly)
        ("reconnecting a session closed by an earlier failure failed: " ++ message) none false false)
    | .rejected payload => some (.handshake payload)
  else none

def idempotentLicence (policy : RetryPolicy) (fate : Thrown) (byId : Option ManifestQuery) : Bool :=
  match byId, fate with
  | some query, .indeterminate _ _ => query.idempotent && policy.retryIdempotentWrites
  | _, _ => false

def lossFate (readonly : Bool) (a : Attempt α) (loss : Loss) : Thrown :=
  classifyLoss (opKindOf readonly) loss.message loss.server a.epochChanged loss.wasSent

def parkedError (message : String) : Thrown :=
  .retryable ⟨errPoolTimeout, branchRetryable, message⟩

def undecodableError (message : String) : Thrown :=
  .protocol ("failed to decode SQL terminal: " ++ message)

/-- The loss of one attempt of the loop; `again` is the rest of the loop while
`attempt + 1 < maxAttempts`. -/
def lostAttempt (c : Client) (readonly : Bool) (byId : Option ManifestQuery) (a : Attempt α)
    (again : Option (Call α)) (loss : Loss) : Call α :=
  let fate := lossFate readonly a loss
  match again with
  | none => ([a], .error fate)
  | some rest =>
    if c.resilient && mayRetryException c.policy.retryReads fate readonly (opKindOf readonly) then
      match a.reconnect with
      | .fresh => (a :: rest.1, rest.2)
      | .fails ex => ([a], .error ex)
    else if c.resilient && idempotentLicence c.policy fate byId then
      match a.reconnect with
      | .fresh => (a :: rest.1, rest.2)
      -- The caller is told the fate of the write, not that of the dial.
      | .fails _ => ([a], .error fate)
    else ([a], .error fate)

def erredAttempt (c : Client) (readonly : Bool) (byId : Option ManifestQuery) (a : Attempt α)
    (again : Option (Call α)) (ex : Thrown) : Call α :=
  match again with
  | none => ([a], .error ex)
  | some rest =>
    if c.resilient && (mayRetryException c.policy.retryReads ex readonly (opKindOf readonly) ||
        idempotentLicence c.policy ex byId) then (a :: rest.1, rest.2)
    else ([a], .error ex)

/-- One pass of the loop of `dispatchAutocommit`. -/
def attempt (c : Client) (readonly : Bool) (byId : Option ManifestQuery) (a : Attempt α)
    (again : Option (Call α)) : Call α :=
  match requestSession c readonly a with
  | some ex => ([a], .error ex)
  | none =>
    match a.send with
    | .submitLost loss | .awaitLost loss => lostAttempt c readonly byId a again loss
    | .parked message => ([a], .error (parkedError message))
    | .reentrant message => ([a], .error (.reentrant message))
    | .undecodable message => ([a], .error (undecodableError message))
    | .terminal (.ok decoded) => ([a], .ok decoded)
    | .terminal outcome => erredAttempt c readonly byId a again (fromOutcome outcome)

/-- The loop with `left` further attempts allowed; `env n` is what the attempt `n` meets. -/
def attempts (c : Client) (readonly : Bool) (byId : Option ManifestQuery) (env : Nat → Attempt α) :
    Nat → Nat → Call α
  | 0, n => attempt c readonly byId (env n) none
  | left + 1, n => attempt c readonly byId (env n) (some (attempts c readonly byId env left (n + 1)))

def dispatchAutocommit (c : Client) (readonly : Bool) (startAttempt : Nat)
    (byId : Option ManifestQuery) (env : Nat → Attempt α) (n : Nat) : Call α :=
  attempts c readonly byId env (c.policy.maxAttempts - (startAttempt + 1)) n

/-- The re-issue of a future, counted as its second attempt. -/
def reissue (c : Client) (readonly : Bool) (env : Nat → Attempt α) (ex : Thrown) : Call α :=
  if c.resilient && decide (1 < c.policy.maxAttempts) &&
      mayRetryException c.policy.retryReads ex readonly (opKindOf readonly) then
    let rest := dispatchAutocommit c readonly 1 none env 1
    (env 0 :: rest.1, rest.2)
  else ([env 0], .error ex)

def dispatchAsync (c : Client) (readonly : Bool) (env : Nat → Attempt α) : Call α :=
  let a := env 0
  match requestSession c readonly a with
  | some ex => ([a], .error ex)
  | none =>
    if !c.multiplexing then dispatchAutocommit c readonly 0 none env 1
    else
      match a.send with
      | .submitLost loss =>
        if loss.wasSent then ([a], .error loss.thrown)
        else
          let rest := dispatchAutocommit c readonly 0 none env 1
          (a :: rest.1, rest.2)
      | .parked message => ([a], .error (parkedError message))
      | .reentrant message => ([a], .error (.reentrant message))
      | .awaitLost loss => reissue c readonly env (lossFate readonly a loss)
      | .undecodable message => ([a], .error (undecodableError message))
      | .terminal (.ok decoded) => ([a], .ok decoded)
      | .terminal outcome => reissue c readonly env (fromOutcome outcome)

/-- An autocommit statement: at once, by manifest id or not, or through a future. -/
inductive Entry where
  | sync (byId : Option ManifestQuery)
  | future
  deriving DecidableEq, Repr

def call (c : Client) (readonly : Bool) : Entry → (Nat → Attempt α) → Call α
  | .sync byId, env => dispatchAutocommit c readonly 0 byId env 0
  | .future, env => dispatchAsync c readonly env

end FerroEngine.ClientRetry
