import FerroEngine.TxControlGuard

set_option autoImplicit false

/-! # Statements on a checked-out connection

The guarded entries of `Checkout` in `ferro-pool`, the post-statement bookkeeping of its flags, and
the stream and COPY handles that borrow it. A connection carries the history of its session.
-/

namespace FerroEngine.PoolStatements

open SourceText TxControlGuard CopyShape

inductive TxStatus where
  | idle
  | inTx
  | failed
  deriving DecidableEq, Repr

inductive ResetProfile where
  | full
  | targeted
  deriving DecidableEq, Repr

/-- What happened to the session of a connection. -/
inductive Event where
  /-- A statement has ended; `after` is the transaction the session is then in. -/
  | ran (failed mutated classified : Bool) (after : TxStatus)
  /-- A stream or a COPY was left before its end. -/
  | halfDrained
  /-- The latch `discard` was set. -/
  | discarded
  | rolledBack (ok : Bool)
  | reset (profile : ResetProfile) (ok : Bool)
  | handedOut
  deriving DecidableEq, Repr

/-- The history is newest first. -/
structure Conn where
  id : Nat
  log : List Event
  deriving DecidableEq, Repr

def Conn.logs (conn : Conn) (event : Event) : Conn :=
  { conn with log := event :: conn.log }

structure Config where
  maxSize : Nat
  supportsCopy : Bool
  cleanResetProfile : Option ResetProfile
  /-- `ferro_classify::classify` at the pool's dialect and settings finds a trigger. -/
  classifies : Text → Bool

/-- What the backend says after a statement, and the transaction that the session is in. -/
structure After where
  status : TxStatus
  mutated : Bool
  session : TxStatus
  deriving DecidableEq, Repr

inductive Handle where
  | rows (sql : Text) (errored : Bool)
  | copyIn (sql : Text)
  | copyOut (sql : Text) (errored : Bool)
  deriving DecidableEq, Repr

structure Checkout where
  conn : Conn
  txOpen : Bool
  tainted : Bool
  discard : Bool
  /-- The handle that borrows the checkout. -/
  handle : Option Handle
  deriving DecidableEq, Repr

def Checkout.new (conn : Conn) : Checkout :=
  { conn := conn, txOpen := false, tainted := false, discard := false, handle := none }

def txStatusBits : TxStatus → Bool × Bool
  | .idle => (false, false)
  | .inTx => (true, false)
  | .failed => (true, true)

namespace Checkout

def logs (co : Checkout) (event : Event) : Checkout :=
  { co with conn := co.conn.logs event }

def applyTxStatus (co : Checkout) (st : TxStatus) : Checkout :=
  { co with
    txOpen := (txStatusBits st).1
    tainted := co.tainted || (txStatusBits st).2 }

def applySessionTracker (co : Checkout) (mutated : Bool) : Checkout :=
  { co with tainted := co.tainted || mutated }

/-- The fail-safe of every error arm: what the backend says is not trusted. -/
def forces (co : Checkout) (errored : Bool) : Checkout :=
  { co with
    txOpen := co.txOpen || errored
    tainted := co.tainted || errored }

def applyClassify (cfg : Config) (co : Checkout) (sql : Text) : Checkout :=
  { co with tainted := co.tainted || cfg.classifies sql }

def applyClassifyFor (cfg : Config) (co : Checkout) (verdict : TxControlVerdict) (sql : Text) :
    Checkout :=
  match verdict with
  | .proceed => co.applyClassify cfg sql
  | .savepointPassthrough => co

/-- The sequence that every instrumented method runs after the backend has answered. -/
def settles (co : Checkout) (ok : Bool) (after : After) : Checkout :=
  ((co.applyTxStatus after.status).applySessionTracker after.mutated).forces (!ok)

def ran (co : Checkout) (ok : Bool) (after : After) (classified : Bool) : Checkout :=
  co.logs (.ran (!ok) after.mutated classified after.session)

def condemns (co : Checkout) (event : Event) : Checkout :=
  { co.logs event with discard := true }

/-! ## Whole statements -/

def beginTxWith (co : Checkout) (ok : Bool) (after : After) : Checkout :=
  ({ co with txOpen := co.txOpen || ok }.settles ok after).ran ok after false

def txControl (co : Checkout) (ok : Bool) (after : After) : Checkout :=
  (co.settles ok after).ran ok after false

/-- `commit_tx` and `rollback_tx`. -/
def endTx (co : Checkout) (ok : Bool) (after : After) : Checkout :=
  ({ co with txOpen := co.txOpen && !ok }.settles ok after).ran ok after false

def runs (cfg : Config) (co : Checkout) (verdict : TxControlVerdict) (sql : Text) (ok : Bool)
    (after : After) : Checkout :=
  ((co.settles ok after).applyClassifyFor cfg verdict sql).ran ok after
    (verdict == .proceed && cfg.classifies sql)

/-- A refused statement never reaches the backend. -/
def query (cfg : Config) (co : Checkout) (sql : Text) (params : Nat) (ok : Bool) (after : After) :
    Checkout :=
  match guardTxControl cfg.supportsCopy co.txOpen sql params with
  | .ok verdict => co.runs cfg verdict sql ok after
  | .error _ => co

def exec (cfg : Config) (co : Checkout) (sql : Text) (ok : Bool) (after : After) : Checkout :=
  co.query cfg sql 0 ok after

/-! ## Streams and COPY -/

def finalizeStream (cfg : Config) (co : Checkout) (errored : Bool) (sql : Text) (after : After) :
    Checkout :=
  ((co.settles (!errored) after).applyClassify cfg sql).ran (!errored) after (cfg.classifies sql)

def queryStream (cfg : Config) (co : Checkout) (sql : Text) (params : Nat) (opened : Bool)
    (after : After) : Checkout :=
  match guardTxControl cfg.supportsCopy co.txOpen sql params with
  | .ok .proceed =>
    if opened then { co with handle := some (.rows sql false) }
    else co.finalizeStream cfg true sql after
  | _ => co

def guardCopy (cfg : Config) (sql : Text) (want : CopyDirection) : Bool :=
  cfg.supportsCopy && copyDirection sql == some want

inductive CopyOpen where
  | opened
  /-- `sqlError`: the server's own error, which leaves the connection in step. -/
  | failed (sqlError : Bool) (after : After)
  deriving DecidableEq, Repr

def copyOpenFailed (cfg : Config) (co : Checkout) (sqlError : Bool) (sql : Text) (after : After) :
    Checkout :=
  (if sqlError then co else co.condemns .discarded).finalizeStream cfg true sql after

def copyHandle (sql : Text) : CopyDirection → Handle
  | .in => .copyIn sql
  | .out => .copyOut sql false

/-- `copy_in` and `copy_out`. -/
def copy (cfg : Config) (co : Checkout) (want : CopyDirection) (sql : Text) (answer : CopyOpen) :
    Checkout :=
  if guardCopy cfg sql want then
    match answer with
    | .opened => { co with handle := some (copyHandle sql want) }
    | .failed sqlError after => co.copyOpenFailed cfg sqlError sql after
  else co

inductive RowsEnd where
  | drainTimedOut
  /-- `lateError`: the drain met an error. -/
  | reclaimed (lateError : Bool)
  /-- The reclaim failed or timed out. -/
  | notReclaimed
  deriving DecidableEq, Repr

inductive CopyOutEnd where
  | drained (lateError : Bool)
  | timedOut
  deriving DecidableEq, Repr

end Checkout

inductive Op where
  | beginTxWith (ok : Bool) (after : After)
  | txControl (ok : Bool) (after : After)
  | commitTx (ok : Bool) (after : After)
  | rollbackTx (ok : Bool) (after : After)
  | exec (sql : Text) (ok : Bool) (after : After)
  | query (sql : Text) (params : Nat) (ok : Bool) (after : After)
  | queryStream (sql : Text) (params : Nat) (opened : Bool) (after : After)
  | copy (want : CopyDirection) (sql : Text) (answer : Checkout.CopyOpen)
  /-- `set_tainted(true)`. -/
  | taints
  | discards
  /-- A pull of the next row or chunk. -/
  | next (failed : Bool)
  | finishRows (answer : Checkout.RowsEnd) (after : After)
  /-- A chunk for the server. -/
  | send
  | finishCopyIn (ok : Bool) (after : After)
  | abortCopyIn (acknowledged : Bool) (after : After)
  | finishCopyOut (answer : Checkout.CopyOutEnd) (after : After)
  /-- The handle is dropped before its terminal method has ended. -/
  | dropsHandle
  deriving DecidableEq, Repr

namespace Checkout

def returns (co : Checkout) : Checkout :=
  { co with handle := none }

def finishRows (cfg : Config) (co : Checkout) (sql : Text) (errored : Bool) (after : After) :
    RowsEnd → Checkout
  | .drainTimedOut => (co.condemns .halfDrained).finalizeStream cfg true sql after
  | .reclaimed lateError => co.finalizeStream cfg (errored || lateError) sql after
  | .notReclaimed => (co.condemns .discarded).finalizeStream cfg true sql after

def abortCopyIn (cfg : Config) (co : Checkout) (sql : Text) (acknowledged : Bool)
    (after : After) : Checkout :=
  (if acknowledged then co else co.condemns .discarded).finalizeStream cfg true sql after

def finishCopyOut (cfg : Config) (co : Checkout) (sql : Text) (errored : Bool) (after : After) :
    CopyOutEnd → Checkout
  | .drained lateError => co.finalizeStream cfg (errored || lateError) sql after
  | .timedOut => (co.condemns .halfDrained).finalizeStream cfg true sql after

/-- The safety net of the three handles. -/
def abandons (co : Checkout) : Checkout :=
  { co.condemns .halfDrained with tainted := true }

/-- The handle borrows the checkout: only it can be used while it is alive. -/
def apply (cfg : Config) (co : Checkout) (op : Op) : Option Checkout :=
  match co.handle, op with
  | none, .beginTxWith ok after => some (co.beginTxWith ok after)
  | none, .txControl ok after => some (co.txControl ok after)
  | none, .commitTx ok after => some (co.endTx ok after)
  | none, .rollbackTx ok after => some (co.endTx ok after)
  | none, .exec sql ok after => some (co.exec cfg sql ok after)
  | none, .query sql params ok after => some (co.query cfg sql params ok after)
  | none, .queryStream sql params opened after => some (co.queryStream cfg sql params opened after)
  | none, .copy want sql answer => some (co.copy cfg want sql answer)
  | none, .taints => some { co with tainted := true }
  | none, .discards => some (co.condemns .discarded)
  | some (.rows sql errored), .next failed =>
    some { co with handle := some (.rows sql (errored || failed)) }
  | some (.rows sql errored), .finishRows answer after =>
    some (co.finishRows cfg sql errored after answer).returns
  | some (.copyIn _), .send => some co
  | some (.copyIn sql), .finishCopyIn ok after =>
    some (co.finalizeStream cfg (!ok) sql after).returns
  | some (.copyIn sql), .abortCopyIn acknowledged after =>
    some (co.abortCopyIn cfg sql acknowledged after).returns
  | some (.copyOut sql errored), .next failed =>
    some { co with handle := some (.copyOut sql (errored || failed)) }
  | some (.copyOut sql errored), .finishCopyOut answer after =>
    some (co.finishCopyOut cfg sql errored after answer).returns
  | some _, .dropsHandle => some co.abandons.returns
  | _, _ => none

end Checkout

end FerroEngine.PoolStatements
