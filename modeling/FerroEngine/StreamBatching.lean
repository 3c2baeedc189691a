import FerroEngine.StreamPump

set_option autoImplicit false

/-! # The batches of a streamed result

How the rows of a result are cut into batches, and that the frames of a stream carry these batches
and nothing else.
-/

namespace FerroEngine.StreamBatching

open LabelledRuns FateMapping SqlMessages CodecLaws SqlCodec StreamPump
open AutocommitExec (Label Terminal Wait StreamEnd StreamSendError maxFramePayload sendStreamFrame
  sendErrToPoolError streamCancelError estimateRowBytes buildStreamTerminalBody)
open EndFrames (OutFrame)

/-! ## Cutting -/

/-- The batches that are full, and the rows that wait. -/
def pushed (b : StreamBatch) (groups : List (List Row) × List Row) (row : Row) :
    List (List Row) × List Row :=
  let rows := groups.2 ++ [row]
  if b.Full rows then (groups.1 ++ [rows], []) else (groups.1, rows)

def cut (b : StreamBatch) (rows : List Row) : List (List Row) × List Row :=
  rows.foldl (pushed b) ([], [])

/-- The rows that still wait at the end, when there are any. -/
def remainder (rows : List Row) : List (List Row) :=
  if rows = [] then [] else [rows]

/-- Every batch of a result. -/
def batches (b : StreamBatch) (rows : List Row) : List (List Row) :=
  (cut b rows).1 ++ remainder (cut b rows).2

theorem cut_concat (b : StreamBatch) (rows : List Row) (row : Row) :
    cut b (rows ++ [row]) = pushed b (cut b rows) row := by
  rw [cut, cut, List.foldl_append]
  rfl

theorem pushed_full {b : StreamBatch} {full : List (List Row)} {waiting : List Row} {row : Row}
    (cuts : b.Full (waiting ++ [row])) :
    pushed b (full, waiting) row = (full ++ [waiting ++ [row]], []) :=
  if_pos cuts

theorem pushed_waits {b : StreamBatch} {full : List (List Row)} {waiting : List Row} {row : Row}
    (waits : ¬ b.Full (waiting ++ [row])) :
    pushed b (full, waiting) row = (full, waiting ++ [row]) :=
  if_neg waits

theorem pushed_flatten (b : StreamBatch) (groups : List (List Row) × List Row) (row : Row) :
    (pushed b groups row).1.flatten ++ (pushed b groups row).2 =
      groups.1.flatten ++ groups.2 ++ [row] := by
  obtain ⟨full, waiting⟩ := groups
  by_cases cuts : b.Full (waiting ++ [row])
  · rw [pushed_full cuts]
    simp
  · rw [pushed_waits cuts]
    simp

theorem cut_flatten (b : StreamBatch) (rows : List Row) :
    (cut b rows).1.flatten ++ (cut b rows).2 = rows := by
  induction rows using List.reverseRecOn with
  | nil => rfl
  | append_singleton rows row ih =>
    rw [cut_concat, pushed_flatten, ih]

theorem cut_nonempty (b : StreamBatch) (rows : List Row) : [] ∉ (cut b rows).1 := by
  induction rows using List.reverseRecOn with
  | nil => exact List.not_mem_nil
  | append_singleton rows row ih =>
    rw [cut_concat]
    by_cases cuts : b.Full ((cut b rows).2 ++ [row])
    · rw [pushed_full cuts, List.mem_append, List.mem_singleton]
      rintro (earlier | last)
      · exact ih earlier
      · exact List.append_ne_nil_of_right_ne_nil _ (List.cons_ne_nil row []) last.symm
    · rw [pushed_waits cuts]
      exact ih

theorem remainder_flatten (rows : List Row) : (remainder rows).flatten = rows := by
  by_cases none : rows = []
  · rw [remainder, if_pos none, none]
    rfl
  · rw [remainder, if_neg none, List.flatten_singleton]

theorem batches_flatten (b : StreamBatch) (rows : List Row) : (batches b rows).flatten = rows := by
  rw [batches, List.flatten_append, remainder_flatten]
  exact cut_flatten b rows

theorem batches_nonempty {b : StreamBatch} {rows group : List Row} (member : group ∈ batches b rows) :
    group ≠ [] := by
  rintro rfl
  rcases List.mem_append.mp member with full | rest
  · exact cut_nonempty b rows full
  · rw [remainder] at rest
    split at rest
    · cases rest
    · rename_i some
      exact some (List.mem_singleton.mp rest).symm

/-- A batch stays as it was cut, whatever rows come later. -/
theorem cut_keeps (b : StreamBatch) (rows later : List Row) {group : List Row}
    (member : group ∈ (cut b rows).1) : group ∈ (cut b (rows ++ later)).1 := by
  induction later using List.reverseRecOn with
  | nil =>
    rw [List.append_nil]
    exact member
  | append_singleton later row ih =>
    rw [← List.append_assoc, cut_concat]
    by_cases cuts : b.Full ((cut b (rows ++ later)).2 ++ [row])
    · rw [pushed_full cuts]
      exact List.mem_append_left _ ih
    · rw [pushed_waits cuts]
      exact ih

/-! ## Sends -/

theorem sendStreamFrame_ok {frame : List UInt8} {wait : Wait} {len : Nat}
    (sent : sendStreamFrame frame wait = .ok len) :
    len = frame.length ∧ frame.length ≤ maxFramePayload := by
  unfold sendStreamFrame at sent
  split at sent
  · cases sent
  · rename_i fits
    cases wait with
    | ready =>
      cases sent
      exact ⟨rfl, Nat.not_lt.mp fits⟩
    | aborted => cases sent
    | linkLost => cases sent

theorem sendStreamFrame_oversized {frame : List UInt8} {wait : Wait}
    (failed : sendStreamFrame frame wait = .error .oversized) : maxFramePayload < frame.length := by
  unfold sendStreamFrame at failed
  split at failed
  · assumption
  · cases wait <;> cases failed

/-- What `Pump.sends` leaves: the frame went out, or the stream is aborted. -/
theorem sends_cases (p : Pump) (frame : OutFrame) (wait : Wait) (next : Point) :
    (frame.payload.length ≤ maxFramePayload ∧
      p.sends frame wait next =
        { p with
          sentBytes := p.sentBytes + frame.payload.length
          channel := p.channel ++ [frame]
          point := next }) ∨
      ∃ e, sendStreamFrame frame.payload wait = .error e ∧
        p.sends frame wait next = p.aborts true (sendErrToPoolError e) .broken := by
  cases sent : sendStreamFrame frame.payload wait with
  | ok len =>
    obtain ⟨rfl, fits⟩ := sendStreamFrame_ok sent
    refine .inl ⟨fits, ?_⟩
    rw [Pump.sends, sent]
  | error e =>
    refine .inr ⟨e, rfl, ?_⟩
    rw [Pump.sends, sent]

/-! ## The invariant -/

/-- The channel after the head and these batches. -/
def frames (p : Pump) (groups : List (List Row)) : List OutFrame :=
  headFrame p.requestId p.cols :: groups.map (dataFrame p.requestId)

theorem frames_concat (p : Pump) (groups : List (List Row)) (group : List Row) :
    frames p (groups ++ [group]) = frames p groups ++ [dataFrame p.requestId group] := by
  rw [frames, frames, List.map_append]
  rfl

def channelBytes (channel : List OutFrame) : Nat :=
  (channel.map fun frame => frame.payload.length).sum

/-- Which rows have gone out, which are in flight and which wait. -/
def Flow (p : Pump) : Prop :=
  match p.point with
  | .sendingHead => p.channel = [] ∧ p.pulled = [] ∧ p.batchRows = [] ∧ p.batchBytes = 0
  | .pulling =>
    p.channel = frames p (cut p.batch p.pulled).1 ∧ p.batchRows = (cut p.batch p.pulled).2 ∧
      p.batchBytes = batchBytes p.batchRows
  | .sendingData rows false =>
    (∃ full, cut p.batch p.pulled = (full ++ [rows], []) ∧ p.channel = frames p full) ∧
      p.batchRows = [] ∧ p.batchBytes = 0
  | .sendingData rows true =>
    p.channel = frames p (cut p.batch p.pulled).1 ∧ rows = (cut p.batch p.pulled).2 ∧ rows ≠ []
  | .finishing => p.channel = frames p (batches p.batch p.pulled)
  | .done _ (.ok body) _ =>
    p.channel = frames p (batches p.batch p.pulled) ∧
      ∃ fin execUs, body =
        buildStreamTerminalBody fin p.pulled.length execUs (channelBytes p.channel)
  | .done _ (.error _) _ => True

structure Tracked (p : Pump) : Prop where
  rows : p.streamedRows = p.pulled.length
  bytes : p.sentBytes = channelBytes p.channel
  fits : ∀ frame ∈ p.channel, frame.payload.length ≤ maxFramePayload
  flow : Flow p

theorem tracked_start (batch : StreamBatch) (ctx : OpContext) (requestId : Nat)
    (cols : List ColMeta) : Tracked (Pump.start batch ctx requestId cols) :=
  ⟨rfl, rfl, fun _ member => (by cases member), rfl, rfl, rfl, rfl⟩

theorem Tracked.aborts {p : Pump} (tracked : Tracked p) (fired : Bool) (err : PoolError)
    (ended : CopyRequests.StreamEnded) : Tracked (p.aborts fired err ended) :=
  ⟨tracked.rows, tracked.bytes, tracked.fits, trivial⟩

theorem Tracked.sends {p : Pump} (tracked : Tracked p) (frame : OutFrame) (wait : Wait)
    {next : Point} (flow : ∀ sentBytes, Flow { p with
      sentBytes := sentBytes
      channel := p.channel ++ [frame]
      point := next }) : Tracked (p.sends frame wait next) := by
  rcases sends_cases p frame wait next with ⟨fits, same⟩ | ⟨e, -, same⟩
  · rw [same]
    refine ⟨tracked.rows, ?_, ?_, flow _⟩
    · change p.sentBytes + frame.payload.length = channelBytes (p.channel ++ [frame])
      rw [channelBytes, List.map_append, List.sum_append, tracked.bytes]
      rfl
    · intro f member
      rcases List.mem_append.mp member with earlier | last
      · exact tracked.fits f earlier
      · rw [List.mem_singleton] at last
        rw [last]
        exact fits
  · rw [same]
    exact tracked.aborts true _ _

theorem push_cases {p : Pump} (estimate : p.batchBytes = batchBytes p.batchRows) (row : Row) :
    (p.batch.Full (p.batchRows ++ [row]) ∧
      p.push row =
        { p with
          streamedRows := p.streamedRows + 1
          pulled := p.pulled ++ [row]
          batchRows := []
          batchBytes := 0
          point := .sendingData (p.batchRows ++ [row]) false }) ∨
      (¬ p.batch.Full (p.batchRows ++ [row]) ∧
        p.push row =
          { p with
            streamedRows := p.streamedRows + 1
            pulled := p.pulled ++ [row]
            batchRows := p.batchRows ++ [row]
            batchBytes := batchBytes (p.batchRows ++ [row]) }) := by
  have size : p.batchBytes + estimateRowBytes row = batchBytes (p.batchRows ++ [row]) := by
    rw [estimate, batchBytes, batchBytes, List.map_append, List.sum_append]
    rfl
  unfold Pump.push
  dsimp only
  rw [size]
  by_cases cuts : p.batch.Full (p.batchRows ++ [row])
  · exact .inl ⟨cuts, if_pos cuts⟩
  · exact .inr ⟨cuts, if_neg cuts⟩

theorem Tracked.push {p : Pump} (tracked : Tracked p) (point : p.point = .pulling) (row : Row) :
    Tracked (p.push row) := by
  have flow := tracked.flow
  rw [Flow, point] at flow
  obtain ⟨channel, waiting, estimate⟩ := flow
  have groups : cut p.batch (p.pulled ++ [row]) =
      pushed p.batch ((cut p.batch p.pulled).1, p.batchRows) row := by
    rw [cut_concat, waiting]
  have rows : p.streamedRows + 1 = (p.pulled ++ [row]).length := by
    rw [tracked.rows, List.length_append, List.length_singleton]
  rcases push_cases estimate row with ⟨cuts, same⟩ | ⟨waits, same⟩
  · rw [same]
    refine ⟨rows, tracked.bytes, tracked.fits, ⟨(cut p.batch p.pulled).1, ?_, channel⟩, rfl, rfl⟩
    exact groups.trans (pushed_full cuts)
  · rw [same]
    have groups' := groups.trans (pushed_waits waits)
    refine ⟨rows, tracked.bytes, tracked.fits, ?_⟩
    rw [Flow, point]
    dsimp only
    rw [groups']
    exact ⟨channel, rfl, rfl⟩

theorem Tracked.drains {p : Pump} (tracked : Tracked p) (point : p.point = .pulling) :
    Tracked p.drains := by
  have flow := tracked.flow
  rw [Flow, point] at flow
  obtain ⟨channel, waiting, -⟩ := flow
  rw [Pump.drains]
  by_cases empty : p.batchRows = []
  · rw [if_pos empty]
    refine ⟨tracked.rows, tracked.bytes, tracked.fits, ?_⟩
    change p.channel = frames p (batches p.batch p.pulled)
    rw [batches, ← waiting, remainder, if_pos empty, List.append_nil]
    exact channel
  · rw [if_neg empty]
    exact ⟨tracked.rows, tracked.bytes, tracked.fits, channel, waiting, empty⟩

theorem Tracked.sendsData {p : Pump} (tracked : Tracked p) {rows : List Row} {last : Bool}
    (point : p.point = .sendingData rows last) (wait : Wait) :
    Tracked (p.sends (dataFrame p.requestId rows) wait (afterData last)) := by
  have flow := tracked.flow
  rw [Flow, point] at flow
  apply tracked.sends
  intro sentBytes
  cases last with
  | false =>
    obtain ⟨⟨full, groups, channel⟩, none, zero⟩ := flow
    refine ⟨?_, ?_, ?_⟩
    · change p.channel ++ _ = frames p (cut p.batch p.pulled).1
      rw [groups, frames_concat, channel]
    · change p.batchRows = (cut p.batch p.pulled).2
      rw [groups, none]
    · change p.batchBytes = batchBytes p.batchRows
      rw [none, zero]
      rfl
  | true =>
    obtain ⟨channel, waiting, some⟩ := flow
    change p.channel ++ _ = frames p (batches p.batch p.pulled)
    rw [batches, ← waiting, remainder, if_neg some, frames_concat, channel]

theorem Tracked.finishes {p : Pump} (tracked : Tracked p) (point : p.point = .finishing)
    (execUs : Nat) (result : Except PoolError StreamEnd) : Tracked (p.finishes execUs result) := by
  have flow := tracked.flow
  rw [Flow, point] at flow
  cases result with
  | ok fin =>
    refine ⟨tracked.rows, tracked.bytes, tracked.fits, flow, fin, execUs, ?_⟩
    rw [tracked.rows, tracked.bytes]
    rfl
  | error e => exact tracked.aborts false e _

/-! ## Steps -/

/-- What a step can be. -/
inductive Moves (p : Pump) : Label → Pump → Prop where
  | head (wait : Wait) (point : p.point = .sendingHead) :
      Moves p (.sends wait) (p.sends (headFrame p.requestId p.cols) wait .pulling)
  | data (wait : Wait) (rows : List Row) (last : Bool) (point : p.point = .sendingData rows last) :
      Moves p (.sends wait) (p.sends (dataFrame p.requestId rows) wait (afterData last))
  | row (row : Row) (point : p.point = .pulling) : Moves p (.row row) (p.push row)
  | drained (point : p.point = .pulling) : Moves p .drained p.drains
  | fails (err : PoolError) (point : p.point = .pulling) :
      Moves p (.rowFails err) (p.aborts false err (CopyRequests.endedBy (is57014 err)))
  | stops (label : Label) (stop : label = .cancels ∨ label = .expires)
      (point : p.point = .pulling) :
      Moves p label (p.aborts true streamCancelError .broken)
  | finishes (result : Except PoolError StreamEnd) (execUs : Nat) (point : p.point = .finishing) :
      Moves p (.finished result execUs) (p.finishes execUs result)

theorem step_moves {p q : Pump} {label : Label} (taken : step p label = some q) :
    Moves p label q := by
  unfold step at taken
  split at taken
  · next point =>
    split at taken
    · cases taken
      exact .head _ point
    · cases taken
  · next point =>
    unfold pullStep at taken
    split at taken
    · cases taken
      exact .row _ point
    · cases taken
      exact .fails _ point
    · cases taken
      exact .drained point
    · cases taken
      exact .stops _ (.inl rfl) point
    · cases taken
      exact .stops _ (.inr rfl) point
    · cases taken
  · next rows last point =>
    split at taken
    · cases taken
      exact .data _ rows last point
    · cases taken
  · next point =>
    split at taken
    · cases taken
      exact .finishes _ _ point
    · cases taken
  · cases taken

theorem tracked_step {p q : Pump} {label : Label} (tracked : Tracked p)
    (taken : step p label = some q) : Tracked q := by
  cases step_moves taken with
  | head wait point =>
    have flow := tracked.flow
    rw [Flow, point] at flow
    obtain ⟨channel, pulled, rows, bytes⟩ := flow
    apply tracked.sends
    intro sentBytes
    refine ⟨?_, ?_, ?_⟩
    · change p.channel ++ _ = frames p (cut p.batch p.pulled).1
      rw [channel, pulled]
      rfl
    · change p.batchRows = (cut p.batch p.pulled).2
      rw [rows, pulled]
      rfl
    · change p.batchBytes = batchBytes p.batchRows
      rw [rows, bytes]
      rfl
  | data wait rows last point => exact tracked.sendsData point wait
  | row row point => exact tracked.push point row
  | drained point => exact tracked.drains point
  | fails err point => exact tracked.aborts false err _
  | stops label stop point => exact tracked.aborts true _ _
  | finishes result execUs point => exact tracked.finishes point execUs result

theorem tracked_run {batch : StreamBatch} {ctx : OpContext} {requestId : Nat}
    {cols : List ColMeta} {labels : List Label} {p : Pump}
    (reached : run step (Pump.start batch ctx requestId cols) labels = some p) : Tracked p :=
  run_always step tracked_step (tracked_start batch ctx requestId cols) reached

/-! ## Whole runs -/

/-- What a step never touches. -/
structure Kept (batch : StreamBatch) (ctx : OpContext) (requestId : Nat) (cols : List ColMeta)
    (p : Pump) : Prop where
  batch : p.batch = batch
  ctx : p.ctx = ctx
  requestId : p.requestId = requestId
  cols : p.cols = cols

theorem sends_kept (p : Pump) (frame : OutFrame) (wait : Wait) (next : Point) :
    Kept p.batch p.ctx p.requestId p.cols (p.sends frame wait next) ∧
      (p.sends frame wait next).pulled = p.pulled := by
  rcases sends_cases p frame wait next with ⟨-, same⟩ | ⟨e, -, same⟩
  · rw [same]
    exact ⟨⟨rfl, rfl, rfl, rfl⟩, rfl⟩
  · rw [same]
    exact ⟨⟨rfl, rfl, rfl, rfl⟩, rfl⟩

theorem push_kept (p : Pump) (row : Row) :
    Kept p.batch p.ctx p.requestId p.cols (p.push row) ∧
      (p.push row).pulled = p.pulled ++ [row] := by
  unfold Pump.push
  dsimp only
  split
  · exact ⟨⟨rfl, rfl, rfl, rfl⟩, rfl⟩
  · exact ⟨⟨rfl, rfl, rfl, rfl⟩, rfl⟩

theorem drains_kept (p : Pump) :
    Kept p.batch p.ctx p.requestId p.cols p.drains ∧ p.drains.pulled = p.pulled := by
  unfold Pump.drains
  split
  · exact ⟨⟨rfl, rfl, rfl, rfl⟩, rfl⟩
  · exact ⟨⟨rfl, rfl, rfl, rfl⟩, rfl⟩

theorem step_kept {p q : Pump} {label : Label} (taken : step p label = some q) :
    Kept p.batch p.ctx p.requestId p.cols q ∧ q.pulled = p.pulled ++ yielded [label] := by
  have quiet : p.pulled = p.pulled ++ [] := (List.append_nil _).symm
  cases step_moves taken with
  | head wait point =>
    have kept := sends_kept p (headFrame p.requestId p.cols) wait .pulling
    exact ⟨kept.1, kept.2.trans quiet⟩
  | data wait rows last point =>
    have kept := sends_kept p (dataFrame p.requestId rows) wait (afterData last)
    exact ⟨kept.1, kept.2.trans quiet⟩
  | row row point => exact push_kept p row
  | drained point =>
    have kept := drains_kept p
    exact ⟨kept.1, kept.2.trans quiet⟩
  | fails err point => exact ⟨⟨rfl, rfl, rfl, rfl⟩, quiet⟩
  | stops label stop point =>
    rcases stop with rfl | rfl
    · exact ⟨⟨rfl, rfl, rfl, rfl⟩, quiet⟩
    · exact ⟨⟨rfl, rfl, rfl, rfl⟩, quiet⟩
  | finishes result execUs point =>
    cases result with
    | ok fin => exact ⟨⟨rfl, rfl, rfl, rfl⟩, quiet⟩
    | error e => exact ⟨⟨rfl, rfl, rfl, rfl⟩, quiet⟩

theorem run_kept {p q : Pump} {labels : List Label} (reached : run step p labels = some q) :
    Kept p.batch p.ctx p.requestId p.cols q ∧ q.pulled = p.pulled ++ yielded labels := by
  induction labels generalizing p with
  | nil =>
    rw [run_nil, Option.some.injEq] at reached
    rw [← reached]
    exact ⟨⟨rfl, rfl, rfl, rfl⟩, (List.append_nil _).symm⟩
  | cons label labels ih =>
    rw [run_cons, Option.bind_eq_some_iff] at reached
    obtain ⟨r, first, rest⟩ := reached
    obtain ⟨kept, pulled⟩ := step_kept first
    obtain ⟨kept', pulled'⟩ := ih rest
    refine ⟨⟨kept'.batch.trans kept.batch, kept'.ctx.trans kept.ctx,
      kept'.requestId.trans kept.requestId, kept'.cols.trans kept.cols⟩, ?_⟩
    rw [pulled', pulled, List.append_assoc]
    exact congrArg (p.pulled ++ ·) (List.filterMap_append (l := [label])).symm

/-! ## What a client reads back -/

/-- An integer is in the range of its machine type. -/
def MachineValue : Value → Prop
  | .i64 n => -2 ^ 63 ≤ n ∧ n < 2 ^ 63
  | .u64 n => n < 2 ^ 64
  | _ => True

theorem length_le_flatMap_of_pos {α : Type} {f : α → List UInt8} (positive : ∀ a, 0 < (f a).length)
    (l : List α) : l.length ≤ (l.flatMap f).length := by
  induction l with
  | nil => exact Nat.le_refl 0
  | cons a l ih =>
    have first := positive a
    rw [List.flatMap_cons, List.length_append, List.length_cons]
    omega

theorem encodeValue_pos (v : Value) : 0 < v.encode.length := by
  rw [Value.encode, List.append_assoc, List.length_append]
  have head : (MessagePack.writeArrayLen 2).length = 1 := rfl
  omega

theorem writeArrayLen_pos (n : Nat) : 0 < (MessagePack.writeArrayLen n).length := by
  unfold MessagePack.writeArrayLen
  split_ifs
  · exact Nat.zero_lt_succ _
  · exact Nat.zero_lt_succ _
  · exact Nat.zero_lt_succ _

theorem encodeRow_pos (row : Row) : 0 < (encodeRow row).length := by
  have head := writeArrayLen_pos (row.length % 2 ^ 32)
  rw [encodeRow, List.length_append]
  omega

theorem shortText_of_small {s : String} (small : (MessagePack.writeStr s).length < 2 ^ 32) :
    ShortText s := by
  rw [MessagePack.writeStr_length] at small
  unfold MessagePack.strSize at small
  unfold ShortText
  split_ifs at small <;> omega

theorem validValue_of_small {v : Value} (machine : MachineValue v)
    (small : v.encode.length < 2 ^ 32) : ValidValue v := by
  have payload : v.payload.length < 2 ^ 32 := by
    rw [Value.encode, List.length_append] at small
    omega
  cases v with
  | null => trivial
  | bool b => trivial
  | i64 n => exact machine
  | f64 bits => trivial
  | bytes b => exact Nat.lt_of_le_of_lt (MessagePack.le_writeBin_length b) payload
  | u64 n => exact machine
  | text s => exact shortText_of_small payload
  | decimal s => exact shortText_of_small payload
  | date s => exact shortText_of_small payload
  | time s => exact shortText_of_small payload
  | timestamp s => exact shortText_of_small payload
  | timestampTz s => exact shortText_of_small payload
  | uuid s => exact shortText_of_small payload
  | json s => exact shortText_of_small payload

theorem validRow_of_small {row : Row} (machine : ∀ v ∈ row, MachineValue v)
    (small : (encodeRow row).length < 2 ^ 32) : ValidRow row := by
  rw [encodeRow, List.length_append] at small
  refine ⟨?_, ?_⟩
  · have cells := length_le_flatMap_of_pos encodeValue_pos row
    omega
  · intro v member
    have cell := length_le_flatMap Value.encode member
    exact validValue_of_small (machine v member) (by omega)

/-- A frame of the stream is decoded to the rows it was built from. -/
theorem decodeData_of_fits {rows : List Row} (machine : ∀ row ∈ rows, ∀ v ∈ row, MachineValue v)
    (fits : (encodeData rows).length ≤ maxFramePayload) :
    decodeData (encodeData rows) = .ok rows := by
  have size := fits
  unfold maxFramePayload at size
  rw [encodeData, encodeRows, List.length_append, List.length_append] at size
  refine dataSlot.codec.back ⟨?_, ?_⟩
  · have lines := length_le_flatMap_of_pos encodeRow_pos rows
    omega
  · intro row member
    have line := length_le_flatMap encodeRow member
    exact validRow_of_small (machine row member) (by omega)

/-! ## A stream that ends well -/

/-- When a stream ends with `Ok`, its DATA frames carry the rows that the backend yielded, each
frame some of them, and the statistics of the terminal are the totals of what was sent. -/
theorem streamEnd_complete {batch : StreamBatch} {ctx : OpContext} {requestId : Nat}
    {cols : List ColMeta} {labels : List Label} {p : Pump} {fired : Bool} {body : List UInt8}
    {ended : CopyRequests.StreamEnded}
    (reached : run step (Pump.start batch ctx requestId cols) labels = some p)
    (point : p.point = .done fired (.ok body) ended) :
    ∃ (groups : List (List Row)) (fin : StreamEnd) (execUs : Nat),
      p.channel = headFrame requestId cols :: groups.map (dataFrame requestId) ∧
      groups.flatten = yielded labels ∧
      (∀ rows ∈ groups, rows ≠ [] ∧ (encodeData rows).length ≤ maxFramePayload) ∧
      ((∀ row ∈ yielded labels, ∀ v ∈ row, MachineValue v) →
        ∀ rows ∈ groups, decodeData (encodeData rows) = .ok rows) ∧
      body = buildStreamTerminalBody fin (yielded labels).length execUs
        (channelBytes p.channel) := by
  have tracked := tracked_run reached
  obtain ⟨kept, pulled⟩ := run_kept reached
  have rows : p.pulled = yielded labels := pulled
  have flow := tracked.flow
  rw [Flow, point] at flow
  obtain ⟨channel, fin, execUs, same⟩ := flow
  rw [rows] at channel same
  have flat := batches_flatten p.batch (yielded labels)
  have fits : ∀ group ∈ batches p.batch (yielded labels),
      (encodeData group).length ≤ maxFramePayload := by
    intro group member
    apply tracked.fits (dataFrame p.requestId group)
    rw [channel]
    exact List.mem_cons_of_mem _ (List.mem_map_of_mem member)
  refine ⟨batches p.batch (yielded labels), fin, execUs, ?_, flat, ?_, ?_, same⟩
  · rw [channel, frames, kept.requestId, kept.cols]
    rfl
  · intro group member
    exact ⟨batches_nonempty member, fits group member⟩
  · intro machine group member
    refine decodeData_of_fits ?_ (fits group member)
    intro row inGroup
    exact machine row (flat ▸ List.mem_flatten_of_mem member inGroup)

/-- Two rows fill a batch, and a third goes out at the end of the stream. -/
def sampleLabels : List Label :=
  [.sends .ready, .row [.null], .row [.i64 5], .sends .ready, .row [.null], .drained,
    .sends .ready, .finished (.ok ⟨0, none, 4⟩) 9]

def sampleContext : OpContext :=
  { readonly := true, sent := true, inTx := false }

theorem streamEnd_complete_sample :
    ∃ p body, run step (Pump.start ⟨2, 64⟩ sampleContext 7 []) sampleLabels = some p ∧
      p.point = .done false (.ok body) .intact ∧
      ∃ groups : List (List Row),
        p.channel = headFrame 7 [] :: groups.map (dataFrame 7) ∧
          groups.flatten = [[.null], [.i64 5], [.null]] := by
  refine ⟨_, _, rfl, rfl, ?_⟩
  obtain ⟨groups, fin, execUs, channel, flat, -⟩ :=
    @streamEnd_complete ⟨2, 64⟩ sampleContext 7 [] sampleLabels _ _ _ _ rfl rfl
  exact ⟨groups, channel, flat⟩

end FerroEngine.StreamBatching
