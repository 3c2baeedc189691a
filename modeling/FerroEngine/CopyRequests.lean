import FerroEngine.AutocommitExec
import FerroEngine.CopyShape
import FerroEngine.PostgresErrors
import FerroEngine.TxTerminals

set_option autoImplicit false

/-! # COPY requests

What `handle_copy` of `services/copy.rs` checks before it runs a COPY, the guard of the pool's
COPY entry points, and the fates that both directions share.
-/

namespace FerroEngine.CopyRequests

open SourceText CopyShape FateMapping TxRegistry TxTable TxTerminals PostgresErrors
open AutocommitExec (Terminal)

/-- Whether the transaction of a streamed statement survives it. -/
inductive StreamEnded where
  | intact
  | broken
  deriving DecidableEq, Repr

def endedBy (broken : Bool) : StreamEnded :=
  if broken then .broken else .intact

/-- One COPY request and the backend it names. -/
structure CopyRequest where
  sql : Text
  readonly : Bool
  /-- The request names a transaction. -/
  inTx : Bool
  supportsCopy : Bool
  deriving DecidableEq

theorem endedBy_broken (broken : Bool) : endedBy broken = .broken ↔ broken = true := by
  cases broken with
  | false => exact ⟨StreamEnded.noConfusion, Bool.noConfusion⟩
  | true => exact ⟨fun _ => rfl, fun _ => rfl⟩

/-! ## Before a COPY runs -/

/-- What the handler finds on its way to the pool or to the transaction's actor. -/
structure Admission where
  malformed : Option String
  lookup : Except LookupErr Unit
  /-- What the registry says when the actor no longer takes commands. -/
  actorGone : Option (Except LookupErr Unit)
  poolKnown : Bool
  poolText : String

def readonlyCopyIn : ErrorPayload :=
  unsupported "COPY_IN is a write (COPY … FROM STDIN) and cannot be declared readonly"

def wrongShape : CopyDirection → ErrorPayload
  | .in => unsupported ("COPY_IN requires exactly one `COPY … FROM STDIN` statement (refused " ++
      "before it reached a connection; nothing was sent)")
  | .out => unsupported ("COPY_OUT requires exactly one `COPY … TO STDOUT` statement (refused " ++
      "before it reached a connection; nothing was sent)")

def copyUnsupported : ErrorPayload :=
  unsupported ("COPY is not supported on this pool's backend (PostgreSQL only; MySQL's LOAD " ++
    "DATA LOCAL INFILE and SQLite have no COPY sub-protocol here)")

def handleCopy (direction : CopyDirection) (req : CopyRequest) (a : Admission) :
    Except ErrorPayload Unit :=
  match a.malformed with
  | some why => .error (protocol ("malformed CopyRequest: " ++ why))
  | none =>
    if direction = .in ∧ req.readonly = true then .error readonlyCopyIn
    else if copyDirection req.sql ≠ some direction then .error (wrongShape direction)
    else if req.inTx then
      match resolveActive a.lookup with
      | .error payload => .error payload
      | .ok () =>
        if req.supportsCopy = false then .error copyUnsupported
        else match a.actorGone with
          | some lookup => .error (actorGoneTerminal lookup)
          | none => .ok ()
    else if a.poolKnown = false then .error (unsupported ("unknown pool " ++ a.poolText))
    else if req.supportsCopy = false then .error copyUnsupported
    else .ok ()

/-! ## The pool's guard -/

def guardCopy (req : CopyRequest) (want : CopyDirection) : Except PoolError Unit :=
  if req.supportsCopy = false then
    .error (.unsupported "COPY is not supported on this backend (PostgreSQL only)")
  else if copyDirection req.sql = some want then .ok ()
  else .error (.unsupported (match want with
    | .in => "COPY_IN requires exactly one `COPY … FROM STDIN` statement"
    | .out => "COPY_OUT requires exactly one `COPY … TO STDOUT` statement"))

/-- `Checkout::copy_in` and `Checkout::copy_out`: the guard, then what the backend answers. -/
def openCopy (req : CopyRequest) (want : CopyDirection) (result : Except DriverError Unit) :
    Except PoolError Unit :=
  match guardCopy req want with
  | .error e => .error e
  | .ok () => result.mapError errorMap

/-! ## Fates -/

def copyStoppedBeforeDone (why : String) : PoolError :=
  .sql cancelledCode .nonRetryable none none
    ("COPY FROM STDIN stopped before its end-of-data (" ++ why ++ "); PostgreSQL completes a " ++
      "COPY only on its end-of-data, so nothing of it was applied")

/-- A server's own answer, or a refusal that sent nothing. -/
def isKnown : PoolError → Bool
  | .sql _ _ _ _ _ | .unsupported _ => true
  | _ => false

def copyInOpenFailed (e : PoolError) (why : Option String) (inTx : Bool) : ErrorPayload :=
  let ctx : OpContext := { readonly := false, sent := !isKnown e, inTx := inTx }
  match why with
  | some w => if isKnown e then classifyFate (copyStoppedBeforeDone w) ctx else classifyFate e ctx
  | none => classifyFate e ctx

def endsTx (e : PoolError) : Bool :=
  is57014 e || !isKnown e

/-! ## What a terminal says of the transaction -/

/-- The engine's own report that the transaction is over: its deadline or cancel terminal, or its
lost-connection terminal. A server's answer carries a SQLSTATE. -/
def saysFinished (p : ErrorPayload) : Bool :=
  p.sqlstate == none && (p.code == txDeadlineCode || p.code == connectionLostCode)

def terminalSaysFinished : Terminal → Bool
  | .ok _ => false
  | .error p => saysFinished p

/-- What the guard or the backend of a COPY can report. -/
inductive CopyError : PoolError → Prop where
  | lost : CopyError .connectionLost
  | refused (message : String) : CopyError (.unsupported message)
  | answered (code : Nat) (branch : Branch) (sqlstate message : String) :
      CopyError (.sql code branch (some sqlstate) none message)

theorem copyError_errorMap (e : DriverError) : CopyError (errorMap e) := by
  rcases errorMap_cases e with ⟨_, mapped⟩ | ⟨_, code, branch, sqlstate, message, mapped⟩
  · rw [mapped]
    exact .lost
  · rw [mapped]
    exact .answered code branch sqlstate message

theorem openCopy_error {req : CopyRequest} {want : CopyDirection}
    {result : Except DriverError Unit} {e : PoolError}
    (failed : openCopy req want result = .error e) : CopyError e := by
  unfold openCopy at failed
  split at failed
  · next refused guard =>
    cases failed
    unfold guardCopy at guard
    split_ifs at guard
    · cases guard
      exact .refused _
    · cases guard
      exact .refused _
  · cases result with
    | error e' =>
      cases failed
      exact copyError_errorMap e'
    | ok _ => cases failed

theorem saysFinished_cancelled {e : PoolError} (cancelled : is57014 e = true) {ctx : OpContext}
    (inTx : ctx.inTx = true) : saysFinished (classifyFate e ctx) = true := by
  unfold classifyFate cancelPayload
  rw [if_pos cancelled, if_pos inTx]
  rfl

/-- In a transaction an error is reported as the end of the transaction exactly when it is one. -/
theorem saysFinished_classifyFate {e : PoolError} (error : CopyError e) {ctx : OpContext}
    (inTx : ctx.inTx = true) : saysFinished (classifyFate e ctx) = endsTx e := by
  by_cases cancelled : is57014 e = true
  · rw [saysFinished_cancelled cancelled inTx, endsTx, cancelled]
    rfl
  · unfold classifyFate endsTx
    rw [if_neg cancelled, Bool.eq_false_iff.mpr cancelled]
    cases error with
    | lost =>
      simp only [lossPayload, inTx, Bool.not_true, Bool.and_false, Bool.false_eq_true, if_false]
      rfl
    | refused message => rfl
    | answered code branch sqlstate message => rfl

theorem is57014_copyStoppedBeforeDone (why : String) :
    is57014 (copyStoppedBeforeDone why) = true := rfl

theorem saysFinished_copyInOpenFailed {e : PoolError} (error : CopyError e)
    (why : Option String) :
    saysFinished (copyInOpenFailed e why true) = (why.isSome || endsTx e) := by
  cases why with
  | none => exact saysFinished_classifyFate error rfl
  | some w =>
    rw [Option.isSome_some, Bool.true_or]
    unfold copyInOpenFailed
    simp only
    split_ifs with known
    · exact saysFinished_cancelled (is57014_copyStoppedBeforeDone w) rfl
    · rw [saysFinished_classifyFate error rfl, endsTx, Bool.eq_false_iff.mpr known]
      exact Bool.or_true _

end FerroEngine.CopyRequests
