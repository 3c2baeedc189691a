import FerroEngine.CopyRequests
import FerroEngine.EndFrames
import FerroEngine.SqlCodec

set_option autoImplicit false

/-! # The pump of a streamed result

`run_streamed_exec` of `services/sql.rs` for any batch policy, with the frames that `send_head` and
`send_data` put into the control channel. The labels are those of the autocommit statement.
-/

namespace FerroEngine.StreamPump

open LabelledRuns FateMapping SqlMessages
open AutocommitExec (Exec Label Terminal Wait StreamEnd StreamSendError maxFramePayload
  sendStreamFrame sendErrToPoolError streamCancelError estimateRowBytes buildStreamTerminalBody)
open CopyRequests (StreamEnded endedBy)
open EndFrames (OutFrame)

abbrev Row := List Value

/-- A batch is flushed at `max_rows` rows or at `max_bytes` estimated bytes. -/
structure StreamBatch where
  maxRows : Nat
  maxBytes : Nat
  deriving DecidableEq, Repr

/-- `StreamBatch::DEFAULT`. -/
def StreamBatch.production : StreamBatch :=
  { maxRows := AutocommitExec.batchMaxRows
    maxBytes := AutocommitExec.batchMaxBytes }

def batchBytes (rows : List Row) : Nat :=
  (rows.map estimateRowBytes).sum

def StreamBatch.Full (b : StreamBatch) (rows : List Row) : Prop :=
  b.maxRows ≤ rows.length ∨ b.maxBytes ≤ batchBytes rows

instance (b : StreamBatch) (rows : List Row) : Decidable (b.Full rows) :=
  inferInstanceAs (Decidable (_ ∨ _))

/-! ## Frames -/

def serviceStream : Nat := 4

def methodHead : Nat := 1

def methodData : Nat := 2

def flagStream : Nat := 1

def streamFrame (requestId method flags : Nat) (payload : List UInt8) : OutFrame :=
  { header :=
      { flags := flags
        service := serviceStream
        method := method
        requestId := requestId
        payloadLen := payload.length % 2 ^ 32 }
    payload := payload }

def headFrame (requestId : Nat) (cols : List ColMeta) : OutFrame :=
  streamFrame requestId methodHead 0 (encodeHead cols)

def dataFrame (requestId : Nat) (rows : List Row) : OutFrame :=
  streamFrame requestId methodData flagStream (encodeData rows)

/-! ## State -/

inductive Point where
  | sendingHead
  | pulling
  /-- A batch goes out; `last` says that the stream has drained. -/
  | sendingData (rows : List Row) (last : Bool)
  | finishing
  /-- `fired` says whether the out-of-band cancel was fired. -/
  | done (fired : Bool) (terminal : Terminal) (ended : StreamEnded)

structure Pump where
  batch : StreamBatch
  ctx : OpContext
  requestId : Nat
  cols : List ColMeta
  point : Point
  batchRows : List Row
  batchBytes : Nat
  streamedRows : Nat
  sentBytes : Nat
  /-- Every row that the backend has yielded. -/
  pulled : List Row
  /-- The control channel. -/
  channel : List OutFrame

def Pump.start (batch : StreamBatch) (ctx : OpContext) (requestId : Nat) (cols : List ColMeta) :
    Pump :=
  { batch := batch, ctx := ctx, requestId := requestId, cols := cols, point := .sendingHead,
    batchRows := [], batchBytes := 0, streamedRows := 0, sentBytes := 0, pulled := [],
    channel := [] }

namespace Pump

/-- `abort_stream`. -/
def aborts (p : Pump) (fired : Bool) (err : PoolError) (ended : StreamEnded) : Pump :=
  { p with point := .done fired (.error (classifyFate err p.ctx)) ended }

/-- The frame goes into the channel, or the stream is aborted. -/
def sends (p : Pump) (frame : OutFrame) (wait : Wait) (next : Point) : Pump :=
  match sendStreamFrame frame.payload wait with
  | .ok len =>
    { p with
      sentBytes := p.sentBytes + len
      channel := p.channel ++ [frame]
      point := next }
  | .error e => p.aborts true (sendErrToPoolError e) .broken

def push (p : Pump) (row : Row) : Pump :=
  let rows := p.batchRows ++ [row]
  let bytes := p.batchBytes + estimateRowBytes row
  let q : Pump :=
    { p with
      streamedRows := p.streamedRows + 1
      pulled := p.pulled ++ [row] }
  if p.batch.maxRows ≤ rows.length ∨ p.batch.maxBytes ≤ bytes then
    { q with
      batchRows := []
      batchBytes := 0
      point := .sendingData rows false }
  else
    { q with
      batchRows := rows
      batchBytes := bytes }

/-- The stream has drained. -/
def drains (p : Pump) : Pump :=
  if p.batchRows = [] then { p with point := .finishing }
  else
    { p with
      batchRows := []
      point := .sendingData p.batchRows true }

def finishes (p : Pump) (execUs : Nat) : Except PoolError StreamEnd → Pump
  | .ok fin =>
    { p with
      point := .done false (.ok (buildStreamTerminalBody fin p.streamedRows execUs p.sentBytes))
        .intact }
  | .error e => p.aborts false e .broken

end Pump

/-- Where the pump goes after a batch has gone out. -/
def afterData (last : Bool) : Point :=
  if last then .finishing else .pulling

def pullStep (p : Pump) : Label → Option Pump
  | .row row => some (p.push row)
  | .rowFails err => some (p.aborts false err (endedBy (is57014 err)))
  | .drained => some p.drains
  | .cancels | .expires => some (p.aborts true streamCancelError .broken)
  | _ => none

def step (p : Pump) (label : Label) : Option Pump :=
  match p.point with
  | .sendingHead =>
    match label with
    | .sends wait => some (p.sends (headFrame p.requestId p.cols) wait .pulling)
    | _ => none
  | .pulling => pullStep p label
  | .sendingData rows last =>
    match label with
    | .sends wait => some (p.sends (dataFrame p.requestId rows) wait (afterData last))
    | _ => none
  | .finishing =>
    match label with
    | .finished result execUs => some (p.finishes execUs result)
    | _ => none
  | .done _ _ _ => none

/-- The rows that the backend yields in a run. -/
def yielded (labels : List Label) : List Row :=
  labels.filterMap fun label =>
    match label with
    | .row row => some row
    | _ => none

/-! ## The autocommit statement -/

inductive PointAlike (cols : List ColMeta) : AutocommitExec.Point → Point → Prop where
  | head : PointAlike cols (.sendingHead cols) .sendingHead
  | pulling : PointAlike cols .pulling .pulling
  | data (rows : List Row) (last : Bool) :
      PointAlike cols (.sendingData rows last) (.sendingData rows last)
  | finishing : PointAlike cols .finishing .finishing
  | done (terminal : Terminal) (fired : Bool) (ended : CopyRequests.StreamEnded) :
      PointAlike cols (.done terminal) (.done fired terminal ended)

/-- A streamed autocommit statement and its pump. -/
structure Alike (s : Exec) (p : Pump) : Prop where
  batch : p.batch = .production
  ctx : p.ctx = AutocommitExec.sentContext s
  point : PointAlike p.cols s.point p.point
  rows : p.batchRows = s.batchRows
  estimate : p.batchBytes = s.batchBytes
  streamed : p.streamedRows = s.streamedRows
  bytes : p.sentBytes = s.sentBytes

theorem Alike.aborts {s : Exec} {p : Pump} (alike : Alike s p) (effect : AutocommitExec.Effect)
    (fired : Bool) (err : PoolError) (ended : CopyRequests.StreamEnded) :
    Alike (Exec.sentError { s with effect := effect } err) (p.aborts fired err ended) := by
  refine ⟨alike.batch, alike.ctx, ?_, alike.rows, alike.estimate, alike.streamed, alike.bytes⟩
  have same : AutocommitExec.sentContext { s with effect := effect } = p.ctx := alike.ctx.symm
  unfold Exec.sentError Exec.ends Pump.aborts
  rw [same]
  exact .done _ fired ended

theorem refusedBy_cases {s t : Exec} {err : PoolError} (refused : s.refusedBy err = some t) :
    ∃ effect, t = { s with effect := effect } := by
  unfold Exec.refusedBy at refused
  split at refused
  · split at refused
    · cases refused
    · cases refused
      exact ⟨_, rfl⟩
  · cases refused
    exact ⟨s.effect, rfl⟩

theorem Alike.refused {s t : Exec} {p : Pump} (alike : Alike s p) {err : PoolError}
    (refused : ((s.refusedBy err).map fun u => u.sentError err) = some t) (fired : Bool)
    (ended : CopyRequests.StreamEnded) : Alike t (p.aborts fired err ended) := by
  rw [Option.map_eq_some_iff] at refused
  obtain ⟨u, refused, rfl⟩ := refused
  obtain ⟨effect, rfl⟩ := refusedBy_cases refused
  exact alike.aborts effect fired err ended

theorem Alike.sends {s t : Exec} {p : Pump} (alike : Alike s p) {wait : Wait} {next : Point}
    {frame : EndFrames.OutFrame} (same : frame.payload = s.frame)
    (after : PointAlike p.cols (s.afterSend 0).point next)
    (taken : AutocommitExec.sendStep s (.sends wait) = some t) :
    Alike t (p.sends frame wait next) := by
  rw [AutocommitExec.sendStep, ← same] at taken
  unfold Pump.sends
  cases sent : sendStreamFrame frame.payload wait with
  | ok len =>
    rw [sent] at taken
    cases taken
    refine ⟨alike.batch, alike.ctx, after, alike.rows, alike.estimate, alike.streamed, ?_⟩
    change p.sentBytes + len = s.sentBytes + len
    rw [alike.bytes]
  | error e =>
    rw [sent] at taken
    cases taken
    exact alike.aborts s.effect true _ _

theorem Alike.push {s : Exec} {p : Pump} (alike : Alike s p) (row : Row) :
    Alike (s.pushRow row) (p.push row) := by
  have limits : (p.batch.maxRows ≤ (p.batchRows ++ [row]).length ∨
      p.batch.maxBytes ≤ p.batchBytes + estimateRowBytes row) ↔
      (AutocommitExec.batchMaxRows ≤ (s.batchRows ++ [row]).length ∨
        AutocommitExec.batchMaxBytes ≤ s.batchBytes + estimateRowBytes row) := by
    rw [alike.batch, alike.rows, alike.estimate]
    rfl
  have streamed : p.streamedRows + 1 = s.streamedRows + 1 := by rw [alike.streamed]
  have rows : p.batchRows ++ [row] = s.batchRows ++ [row] := by rw [alike.rows]
  unfold Exec.pushRow Pump.push
  dsimp only
  by_cases full : p.batch.maxRows ≤ (p.batchRows ++ [row]).length ∨
      p.batch.maxBytes ≤ p.batchBytes + estimateRowBytes row
  · rw [if_pos full, if_pos (limits.mp full), rows]
    exact ⟨alike.batch, alike.ctx, .data _ _, rfl, rfl, streamed, alike.bytes⟩
  · rw [if_neg full, if_neg (mt limits.mpr full), rows, alike.estimate]
    exact ⟨alike.batch, alike.ctx, alike.point, rfl, rfl, streamed, alike.bytes⟩

theorem Alike.drains {s t : Exec} {p : Pump} (alike : Alike s p)
    (taken : AutocommitExec.pullStep s .drained = some t) : Alike t p.drains := by
  unfold AutocommitExec.pullStep at taken
  unfold Pump.drains
  rw [alike.rows]
  by_cases empty : s.batchRows = []
  · simp only [if_pos empty] at taken ⊢
    cases taken
    exact ⟨alike.batch, alike.ctx, .finishing, rfl, alike.estimate, alike.streamed, alike.bytes⟩
  · simp only [if_neg empty] at taken ⊢
    cases taken
    exact ⟨alike.batch, alike.ctx, .data _ _, rfl, alike.estimate, alike.streamed, alike.bytes⟩

/-- The handler of an autocommit statement moves its stream as the pump does. -/
theorem Alike.step {s t : Exec} {p : Pump} (alike : Alike s p) {label : Label}
    (taken : AutocommitExec.handlerStep s label = some t) :
    ∃ q, StreamPump.step p label = some q ∧ Alike t q := by
  have points := alike.point
  unfold AutocommitExec.handlerStep at taken
  generalize point : s.point = here at points taken
  generalize place : p.point = there at points
  unfold StreamPump.step
  rw [place]
  cases points with
  | head =>
    cases label with
    | sends wait =>
      refine ⟨_, rfl, alike.sends ?_ ?_ taken⟩
      · rw [Exec.frame, point]
        rfl
      · rw [Exec.afterSend, point]
        exact .pulling
    | _ => cases taken
  | pulling =>
    cases label with
    | row row =>
      cases taken
      exact ⟨_, rfl, alike.push row⟩
    | rowFails err => exact ⟨_, rfl, alike.refused taken false _⟩
    | drained => exact ⟨_, rfl, alike.drains taken⟩
    | expires =>
      cases taken
      exact ⟨_, rfl, alike.aborts s.effect true _ _⟩
    | cancels =>
      cases taken
      exact ⟨_, rfl, alike.aborts s.effect true _ _⟩
    | _ => cases taken
  | data rows last =>
    cases label with
    | sends wait =>
      refine ⟨_, rfl, alike.sends ?_ ?_ taken⟩
      · rw [Exec.frame, point]
        rfl
      · rw [Exec.afterSend, point]
        cases last with
        | false => exact .pulling
        | true => exact .finishing
    | _ => cases taken
  | finishing =>
    cases label with
    | finished result execUs =>
      cases result with
      | ok fin =>
        cases taken
        refine ⟨_, rfl, alike.batch, alike.ctx, ?_, alike.rows, alike.estimate, alike.streamed,
          alike.bytes⟩
        rw [← alike.streamed, ← alike.bytes]
        exact .done _ _ _
      | error err => exact ⟨_, rfl, alike.refused taken false _⟩
    | _ => cases taken
  | done terminal fired ended => cases taken

end FerroEngine.StreamPump
