import FerroEngine.FateMapping
import FerroEngine.TxRegistry

set_option autoImplicit false

/-! # Terminals of transaction-scoped requests

What `services/sql.rs` declares when a request names a transaction.
-/

namespace FerroEngine.TxTerminals

open FateMapping TxRegistry TxTable

def deadlineExceeded : ErrorPayload :=
  txDeadline ("transaction deadline exceeded; the pinned connection was rolled back and released " ++
    "(retryable — the engine never re-runs)")

/-- `resolve_active`, from what the registry answers. -/
def resolveActive : Except LookupErr Unit → Except ErrorPayload Unit
  | .ok () => .ok ()
  | .error .notFoundOrForbidden => .error (txNotFound ("unknown or forbidden tx_id (committed, " ++
      "rolled back, aborted, or another session's)"))
  | .error .tombstoned => .error deadlineExceeded

def actorGoneTerminal : Except LookupErr Unit → ErrorPayload
  | .error .tombstoned => deadlineExceeded
  | _ => txNotFound "transaction is no longer active"

end FerroEngine.TxTerminals
