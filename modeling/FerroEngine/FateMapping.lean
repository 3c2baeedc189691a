import Mathlib.Data.List.Basic

set_option autoImplicit false

/-! # The write-fate matrix

`PoolError`, `OpContext` and `classify_fate` of `services/fate.rs`, with the payloads that the
services mint themselves.
-/

namespace FerroEngine.FateMapping

inductive Branch where
  | retryable
  | indeterminate
  | nonRetryable
  deriving DecidableEq, Repr

/-- The payload of an error terminal; `detail` and `retry_after_ms` are never set here. -/
structure ErrorPayload where
  code : Nat
  branch : Branch
  sqlstate : Option String
  errno : Option Int
  message : String
  deriving DecidableEq, Repr

inductive PoolError where
  | sql (code : Nat) (branch : Branch) (sqlstate : Option String) (errno : Option Int)
      (message : String)
  | connectionLost
  | timeout
  | unsupported (message : String)
  | closed
  | backend (message : String)
  deriving DecidableEq, Repr

/-! ## Codes -/

def connectionLostCode : Nat := 0x1001

def poolTimeoutCode : Nat := 0x1002

def txDeadlineCode : Nat := 0x1003

def writeUnconfirmedCode : Nat := 0x2001

def cancelledCode : Nat := 0x3008

def protocolCode : Nat := 0x3009

def unsupportedCode : Nat := 0x300A

def txNotFoundCode : Nat := 0x300B

def payload (code : Nat) (branch : Branch) (message : String) : ErrorPayload :=
  { code := code, branch := branch, sqlstate := none, errno := none, message := message }

def unsupported (message : String) : ErrorPayload :=
  payload unsupportedCode .nonRetryable message

def protocol (message : String) : ErrorPayload :=
  payload protocolCode .nonRetryable message

def txDeadline (message : String) : ErrorPayload :=
  payload txDeadlineCode .retryable message

def txNotFound (message : String) : ErrorPayload :=
  payload txNotFoundCode .nonRetryable message

/-! ## The matrix -/

structure OpContext where
  readonly : Bool
  sent : Bool
  inTx : Bool
  deriving DecidableEq, Repr

/-- A cancel or a statement timeout. -/
def is57014 : PoolError → Bool
  | .sql code _ sqlstate _ _ => sqlstate == some "57014" || code == cancelledCode
  | _ => false

def cancelPayload (ctx : OpContext) : ErrorPayload :=
  if ctx.inTx then
    payload txDeadlineCode .retryable ("transaction statement cancelled or timed out; the " ++
      "transaction was rolled back (retryable — the engine never re-runs)")
  else if ctx.readonly then
    payload cancelledCode .nonRetryable "statement cancelled or timed out"
  else if ctx.sent then
    payload writeUnconfirmedCode .indeterminate ("write cancelled or timed out after dispatch; " ++
      "it may or may not have applied (§19.3 indeterminate — the engine never retries; retry is " ++
      "client policy)")
  else
    payload connectionLostCode .retryable ("cancelled before the write could take effect — it " ++
      "was never dispatched, or it is a COPY FROM STDIN stopped before its end-of-data — so it " ++
      "cannot have applied (retryable — the engine never retries)")

def lossPayload (ctx : OpContext) : ErrorPayload :=
  if ctx.sent && !ctx.readonly && !ctx.inTx then
    payload writeUnconfirmedCode .indeterminate ("connection lost during an in-flight " ++
      "non-readonly statement; the write may or may not have applied (§19.3 indeterminate — the " ++
      "engine never retries; retry is client policy)")
  else
    payload connectionLostCode .retryable ("connection lost with a known-fate outcome " ++
      "(statement not transmitted, a readonly read, or an in-tx statement whose transaction is " ++
      "now dead) — retryable; the engine never retries")

def classifyFate (err : PoolError) (ctx : OpContext) : ErrorPayload :=
  if is57014 err then cancelPayload ctx
  else match err with
    | .sql code branch sqlstate errno message =>
      { code := code, branch := branch, sqlstate := sqlstate, errno := errno, message := message }
    | .connectionLost => lossPayload ctx
    | .timeout => payload poolTimeoutCode .retryable "timed out waiting for a pooled connection"
    | .unsupported message => unsupported message
    | .closed => protocol "pool is closed"
    | .backend message => protocol message

/-! ## Which fates are known -/

/-- The server's own answer to the statement, or a lost link. -/
def isAnswer : PoolError → Bool
  | .sql _ _ _ _ _ | .connectionLost => true
  | _ => false

/-- The server answered, and not because of a cancel. -/
def isRefusal (err : PoolError) : Bool :=
  match err with
  | .sql _ _ _ _ _ => !is57014 err
  | _ => false

/-- A dispatched autocommit write has a known fate only after the server's refusal, unless the
error is neither an answer nor a lost link. -/
theorem classifyFate_write {err : PoolError} (answer : isAnswer err = true)
    (open' : isRefusal err = false) :
    (classifyFate err { readonly := false, sent := true, inTx := false }).branch =
      .indeterminate := by
  unfold classifyFate
  cases err with
  | sql code branch sqlstate errno message =>
    rw [isRefusal, Bool.not_eq_false'] at open'
    rw [if_pos open']
    rfl
  | connectionLost => rfl
  | _ => cases answer

end FerroEngine.FateMapping
