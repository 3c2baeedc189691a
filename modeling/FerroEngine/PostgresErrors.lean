import FerroEngine.FateMapping

set_option autoImplicit false

/-! # Errors of the PostgreSQL backend

`is_session_fatal` and `error_map::map` of `ferro-backend-pg`.
-/

namespace FerroEngine.PostgresErrors

open FateMapping

inductive Severity where
  | error
  | fatal
  | panic
  deriving DecidableEq, Repr

/-- What the driver reports: a failed transport, or an error that the server sent. -/
inductive DriverError where
  | transport
  | db (severity : Severity) (sqlstate message : String)
  deriving DecidableEq, Repr

def isSessionFatal : DriverError → Bool
  | .transport => true
  | .db severity _ _ => severity == .fatal || severity == .panic

def deadlockCode : Nat := 0x1004

def serializationFailureCode : Nat := 0x1005

def syntaxCode : Nat := 0x3001

def uniqueCode : Nat := 0x3002

def classifySqlstate (code : String) : Nat × Branch :=
  if code = "23505" then (uniqueCode, .nonRetryable)
  else if code = "40001" then (serializationFailureCode, .retryable)
  else if code = "40P01" then (deadlockCode, .retryable)
  else if code = "57014" then (cancelledCode, .nonRetryable)
  else if code.startsWith "42" then (syntaxCode, .nonRetryable)
  else if code.startsWith "08" then (connectionLostCode, .retryable)
  else (protocolCode, .nonRetryable)

def errorMap (e : DriverError) : PoolError :=
  match e with
  | .transport => .connectionLost
  | .db _ sqlstate message =>
    if isSessionFatal e then .connectionLost
    else
      let (code, branch) := classifySqlstate sqlstate
      .sql code branch (some sqlstate) none message

/-- A mapped error is a lost link, or the server's answer with its SQLSTATE. -/
theorem errorMap_cases (e : DriverError) :
    (isSessionFatal e = true ∧ errorMap e = .connectionLost) ∨
      (isSessionFatal e = false ∧ ∃ code branch sqlstate message,
        errorMap e = .sql code branch (some sqlstate) none message) := by
  cases e with
  | transport => exact Or.inl ⟨rfl, rfl⟩
  | db severity sqlstate message =>
    by_cases fatal : isSessionFatal (.db severity sqlstate message) = true
    · left
      refine ⟨fatal, ?_⟩
      rw [errorMap, if_pos fatal]
    · right
      refine ⟨Bool.eq_false_iff.mpr fatal, (classifySqlstate sqlstate).1, (classifySqlstate sqlstate).2,
        sqlstate, message, ?_⟩
      rw [errorMap, if_neg fatal]

end FerroEngine.PostgresErrors
