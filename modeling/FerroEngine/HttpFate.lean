import FerroEngine.FateMapping

set_option autoImplicit false

/-! # The fate table of HTTP requests

`fate.rs`: one function from the phase, the event and the effective idempotency to the terminal.
-/

namespace FerroEngine.HttpFate

open FateMapping

inductive PolicyCause where
  | upstream
  | origin
  | target
  | method
  | header
  | body
  | address
  deriving DecidableEq, Repr

inductive BeforeDispatch where
  | policy (cause : PolicyCause)
  | rateLimited (retryAfterMs : Nat)
  | retryAfterHold (retryAfterMs : Nat)
  | breakerOpen (retryAfterMs : Nat)
  | breakerProbeBusy
  | draining
  | queueFull
  | queueTimeout
  | bodyBudget
  | deadline
  | cancel
  | dns
  | connectRefused
  | connectUnreachable
  | connectTimeout
  | tlsHandshake
  | tlsVerify
  | tlsVersion
  | tlsAlpn
  deriving DecidableEq, Repr

inductive DispatchedNotSent where
  | unsentWrite
  | unsentClosed
  | deadline
  | cancel
  | drain
  deriving DecidableEq, Repr

inductive SentNoHead where
  | write
  | reset
  | eofEmpty
  | eofPartialHead
  | malformedHead
  | oversizeHead
  | informational101
  | h2RefusedStream
  | h2GoawayAboveLast
  | h2StreamError
  | h2ConnectionError
  | timeout
  | cancel
  | drain
  deriving DecidableEq, Repr

inductive HeadReceived where
  | bodyReset
  | bodyEof
  | bodyFraming
  | h2StreamError
  | decode
  | maxResponseBytes
  | readIdle
  | timeout
  | cancel
  | drain
  deriving DecidableEq, Repr

inductive Situation where
  | beforeDispatch (event : BeforeDispatch)
  | dispatchedNotSent (event : DispatchedNotSent)
  | sentNoHead (event : SentNoHead)
  | headReceived (event : HeadReceived)
  deriving DecidableEq, Repr

structure ErrorPayload where
  code : Nat
  branch : Branch
  sqlstate : Option String
  errno : Option Int
  message : String
  detail : Option String
  retryAfterMs : Option Nat
  deriving DecidableEq, Repr

inductive Fate where
  | cancelled
  | error (payload : ErrorPayload)
  deriving DecidableEq, Repr

/-! ## Codes -/

def upstreamUnavailableCode : Nat := 0x1007

def rateLimitedCode : Nat := 0x1008

def queryTimeoutCode : Nat := 0x3007

def forbiddenCode : Nat := 0x300C

def tlsRefusedCode : Nat := 0x300D

def responseIncompleteCode : Nat := 0x300E

def err (code : Nat) (branch : Branch) (cause message : String) : Fate :=
  .error
    { code := code
      branch := branch
      sqlstate := none
      errno := none
      message := message
      detail := some cause
      retryAfterMs := none }

def withRetryAfter (f : Fate) (ms : Nat) : Fate :=
  match f with
  | .error payload => .error { payload with retryAfterMs := some ms }
  | other => other

def policyCauseToken : PolicyCause → String
  | .upstream => "forbidden_upstream"
  | .origin => "forbidden_origin"
  | .target => "forbidden_target"
  | .method => "forbidden_method"
  | .header => "forbidden_header"
  | .body => "forbidden_body"
  | .address => "forbidden_address"

/-! ## Messages -/

def notSent : String :=
  "the request was not sent upstream (retryable — the engine never re-sends)"

def unsent : String :=
  "the upstream connection failed after dispatch, before any byte of the request was sent " ++
    "(retryable — the engine never re-sends)"

def linkLostIdem : String :=
  "the upstream connection failed after the request was sent and before a response head; the " ++
    "request was declared idempotent (retryable — the engine never re-sends)"

def linkLostWrite : String :=
  "the upstream connection failed after the request was sent and before a response head; it may " ++
    "or may not have been applied (§9.2 indeterminate, cause link_lost — the engine never re-sends)"

def timeoutWrite : String :=
  "the request was sent and timed out or was cancelled before a response head; it may or may not " ++
    "have been applied (§9.2 indeterminate, cause timeout — the engine never re-sends)"

def bodyIdem : String :=
  "the upstream connection failed while the response body was delivered; the request was " ++
    "declared idempotent (retryable)"

def bodyWrite : String :=
  "the upstream connection failed while the response body was delivered; the upstream received " ++
    "and answered the request"

def drainUnsent : String :=
  "the daemon is draining: the exchange outlived FERRO_HTTP_DRAIN_MS and was stopped before any " ++
    "byte was sent (retryable — the engine never re-sends)"

def drainIdem : String :=
  "the daemon is draining: the exchange outlived FERRO_HTTP_DRAIN_MS and was stopped; the " ++
    "request was declared idempotent (retryable — the engine never re-sends)"

def drainWrite : String :=
  "the daemon is draining: the exchange outlived FERRO_HTTP_DRAIN_MS and was stopped after the " ++
    "request was sent and before a response head; it may or may not have been applied (§9.2 " ++
    "indeterminate — the engine never re-sends)"

def drainBody : String :=
  "the daemon is draining: the exchange outlived FERRO_HTTP_DRAIN_MS and was stopped while the " ++
    "response body was delivered; the upstream received and answered the request"

/-! ## The table -/

def dial (cause : String) : Fate :=
  err upstreamUnavailableCode .retryable cause
    "the upstream could not be reached; nothing was sent (retryable — the engine never re-sends)"

def tlsRefused (cause : String) : Fate :=
  err tlsRefusedCode .nonRetryable cause
    "the upstream's TLS identity or parameters were refused; nothing was sent"

def classifyBeforeDispatch : BeforeDispatch → Fate
  | .policy cause =>
    err forbiddenCode .nonRetryable (policyCauseToken cause)
      "refused by the engine's access policy before sending"
  | .rateLimited ms =>
    withRetryAfter (err rateLimitedCode .retryable "rate_limited" notSent) ms
  | .retryAfterHold ms =>
    withRetryAfter (err rateLimitedCode .retryable "retry_after_hold" notSent) ms
  | .breakerOpen ms =>
    withRetryAfter (err upstreamUnavailableCode .retryable "breaker_open" notSent) ms
  | .breakerProbeBusy => err upstreamUnavailableCode .retryable "breaker_probe_busy" notSent
  | .draining => err upstreamUnavailableCode .retryable "draining" notSent
  | .queueFull => err poolTimeoutCode .retryable "queue_full" notSent
  | .queueTimeout => err poolTimeoutCode .retryable "queue_timeout" notSent
  | .bodyBudget => err poolTimeoutCode .retryable "body_budget" notSent
  | .deadline =>
    err poolTimeoutCode .retryable "deadline" ("the request's deadline elapsed before it was " ++
      "sent (retryable — the engine never re-sends)")
  | .cancel => .cancelled
  | .dns => dial "dns"
  | .connectRefused => dial "connect_refused"
  | .connectUnreachable => dial "connect_unreachable"
  | .connectTimeout => dial "connect_timeout"
  | .tlsHandshake => dial "tls_handshake"
  | .tlsVerify => tlsRefused "tls_verify"
  | .tlsVersion => tlsRefused "tls_version"
  | .tlsAlpn => tlsRefused "tls_alpn"

def classifyDispatchedNotSent : DispatchedNotSent → Fate
  | .unsentWrite => err connectionLostCode .retryable "unsent_write" unsent
  | .unsentClosed => err connectionLostCode .retryable "unsent_closed" unsent
  | .deadline =>
    err poolTimeoutCode .retryable "deadline" ("the request's deadline elapsed after dispatch, " ++
      "before any byte was sent (retryable — the engine never re-sends)")
  | .cancel => .cancelled
  | .drain => err upstreamUnavailableCode .retryable "draining" drainUnsent

def classifySentNoHead (event : SentNoHead) (idempotent : Bool) : Fate :=
  let link (cause : String) : Fate :=
    if idempotent then err connectionLostCode .retryable cause linkLostIdem
    else err writeUnconfirmedCode .indeterminate cause linkLostWrite
  match event with
  | .write => link "write"
  | .reset => link "reset"
  | .eofEmpty => link "eof_empty"
  | .eofPartialHead => link "eof_partial_head"
  | .malformedHead => link "malformed_head"
  | .oversizeHead => link "oversize_head"
  | .informational101 => link "informational_101"
  | .h2RefusedStream => link "h2_refused_stream"
  | .h2GoawayAboveLast => link "h2_goaway_above_last"
  | .h2StreamError => link "h2_stream_error"
  | .h2ConnectionError => link "h2_connection_error"
  | .timeout =>
    if idempotent then
      err queryTimeoutCode .nonRetryable "timeout"
        "the request timed out before a response head (declared idempotent)"
    else err writeUnconfirmedCode .indeterminate "timeout" timeoutWrite
  | .cancel =>
    if idempotent then .cancelled
    else err writeUnconfirmedCode .indeterminate "cancelled" timeoutWrite
  | .drain =>
    if idempotent then err connectionLostCode .retryable "draining" drainIdem
    else err writeUnconfirmedCode .indeterminate "draining" drainWrite

def classifyHeadReceived (event : HeadReceived) (idempotent : Bool) : Fate :=
  let link (cause : String) : Fate :=
    if idempotent then err connectionLostCode .retryable cause bodyIdem
    else err responseIncompleteCode .nonRetryable cause bodyWrite
  match event with
  | .bodyReset => link "body_reset"
  | .bodyEof => link "body_eof"
  | .bodyFraming => link "body_framing"
  | .h2StreamError => link "h2_stream_error"
  | .decode =>
    err responseIncompleteCode .nonRetryable "decode" "the response body could not be decoded"
  | .maxResponseBytes =>
    err responseIncompleteCode .nonRetryable "max_response_bytes"
      "the response exceeded the upstream's MAX_RESPONSE_BYTES"
  | .readIdle =>
    err queryTimeoutCode .nonRetryable "read_idle"
      "the response body was idle longer than the read timeout"
  | .timeout =>
    err queryTimeoutCode .nonRetryable "timeout"
      "the request timed out while the response was delivered"
  | .cancel => .cancelled
  | .drain =>
    if idempotent then err connectionLostCode .retryable "draining" drainIdem
    else err responseIncompleteCode .nonRetryable "draining" drainBody

def classify (situation : Situation) (idempotent : Bool) : Fate :=
  match situation with
  | .beforeDispatch event => classifyBeforeDispatch event
  | .dispatchedNotSent event => classifyDispatchedNotSent event
  | .sentNoHead event => classifySentNoHead event idempotent
  | .headReceived event => classifyHeadReceived event idempotent

/-! ## What the table says -/

def Fate.branch : Fate → Option Branch
  | .cancelled => none
  | .error payload => some payload.branch

@[simp] theorem branch_cancelled : Fate.branch .cancelled = none := rfl

@[simp] theorem branch_err (code : Nat) (branch : Branch) (cause message : String) :
    (err code branch cause message).branch = some branch := rfl

@[simp] theorem branch_withRetryAfter (f : Fate) (ms : Nat) :
    (withRetryAfter f ms).branch = f.branch := by
  cases f <;> rfl

/-- `Indeterminate` is the fate of one region: not idempotent, sent, no head. -/
theorem branch_indeterminate (situation : Situation) (idempotent : Bool) :
    (classify situation idempotent).branch = some .indeterminate ↔
      idempotent = false ∧ ∃ event, situation = .sentNoHead event := by
  cases situation with
  | beforeDispatch event =>
    cases event <;> simp [classify, classifyBeforeDispatch, dial, tlsRefused]
  | dispatchedNotSent event =>
    cases event <;> simp [classify, classifyDispatchedNotSent]
  | sentNoHead event =>
    cases idempotent <;> cases event <;> simp [classify, classifySentNoHead]
  | headReceived event =>
    cases idempotent <;> cases event <;> simp [classify, classifyHeadReceived]

/-- Without idempotency only a request that was not sent may be sent again. -/
theorem branch_retryable {situation : Situation}
    (retryable : (classify situation false).branch = some .retryable) :
    (∃ event, situation = .beforeDispatch event) ∨
      ∃ event, situation = .dispatchedNotSent event := by
  cases situation with
  | beforeDispatch event => exact Or.inl ⟨event, rfl⟩
  | dispatchedNotSent event => exact Or.inr ⟨event, rfl⟩
  | sentNoHead event =>
    cases event <;> simp [classify, classifySentNoHead] at retryable
  | headReceived event =>
    cases event <;> simp [classify, classifyHeadReceived] at retryable

/-- Every error names its cause. -/
theorem classify_detail {situation : Situation} {idempotent : Bool} {payload : ErrorPayload}
    (failed : classify situation idempotent = .error payload) : payload.detail ≠ none := by
  cases situation with
  | beforeDispatch event =>
    cases event <;> simp [classify, classifyBeforeDispatch, dial, tlsRefused, err,
      withRetryAfter] at failed <;> simp [← failed]
  | dispatchedNotSent event =>
    cases event <;> simp [classify, classifyDispatchedNotSent, err] at failed <;>
      simp [← failed]
  | sentNoHead event =>
    cases idempotent <;> cases event <;> simp [classify, classifySentNoHead, err] at failed <;>
      simp [← failed]
  | headReceived event =>
    cases idempotent <;> cases event <;> simp [classify, classifyHeadReceived, err] at failed <;>
      simp [← failed]

end FerroEngine.HttpFate
