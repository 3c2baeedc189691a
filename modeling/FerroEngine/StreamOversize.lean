import FerroEngine.StreamBatching

set_option autoImplicit false

/-! # When a stream is too large

A stream ends with the too-large terminal when a batch does not fit its frame, although each of
its rows may fit a frame of its own.
-/

namespace FerroEngine.StreamOversize

open LabelledRuns FateMapping SqlMessages StreamPump StreamBatching
open AutocommitExec (Label Wait StreamEnd StreamSendError maxFramePayload sendStreamFrame
  sendErrToPoolError streamCancelError estimateRowBytes)
open EndFrames (OutFrame)

/-- The stream was aborted because a frame is oversized. -/
def TooLarge (p : Pump) : Prop :=
  p.point =
    .done true (.error (classifyFate (sendErrToPoolError .oversized) p.ctx)) .broken

/-- The backend yields these rows one after another, and drains only after the last one. -/
def Yields (rows : List Row) (p : Pump) : Label → Prop
  | .row row => p.pulled ++ [row] <+: rows
  | .drained => p.pulled = rows
  | _ => True

/-- The head and every batch of the result fit their frames. -/
def BatchesFit (batch : StreamBatch) (cols : List ColMeta) (rows : List Row) : Prop :=
  (encodeHead cols).length ≤ maxFramePayload ∧
    ∀ group ∈ batches batch rows, (encodeData group).length ≤ maxFramePayload

/-! ## Other endings -/

theorem oversized_payload (ctx : OpContext) :
    (classifyFate (sendErrToPoolError .oversized) ctx).code = unsupportedCode := rfl

theorem cancel_payload (ctx : OpContext) :
    (classifyFate streamCancelError ctx).code ≠ unsupportedCode := by
  obtain ⟨readonly, sent, inTx⟩ := ctx
  cases inTx <;> cases readonly <;> cases sent <;> decide

theorem loss_payload (ctx : OpContext) :
    (classifyFate .connectionLost ctx).code ≠ unsupportedCode := by
  obtain ⟨readonly, sent, inTx⟩ := ctx
  cases inTx <;> cases readonly <;> cases sent <;> decide

theorem sendError_payload {e : StreamSendError} {ctx : OpContext}
    (same : (classifyFate (sendErrToPoolError e) ctx).code = unsupportedCode) : e = .oversized := by
  cases e with
  | aborted => exact absurd same (cancel_payload ctx)
  | oversized => rfl
  | linkLost => exact absurd same (loss_payload ctx)

theorem code_of_tooLarge {p : Pump} {err : PoolError} {fired : Bool}
    {ended : CopyRequests.StreamEnded} (large : TooLarge (p.aborts fired err ended)) :
    fired = true ∧ (classifyFate err p.ctx).code = unsupportedCode := by
  rw [TooLarge, Pump.aborts, Point.done.injEq, AutocommitExec.Terminal.error.injEq] at large
  exact ⟨large.1, (congrArg ErrorPayload.code large.2.1).trans (oversized_payload p.ctx)⟩

/-- A send that ends the stream as too large had too large a frame. -/
theorem sends_tooLarge {p : Pump} {frame : OutFrame} {wait : Wait} {next : Point}
    (live : ∀ fired terminal ended, next ≠ .done fired terminal ended)
    (large : TooLarge (p.sends frame wait next)) : maxFramePayload < frame.payload.length := by
  rcases sends_cases p frame wait next with ⟨-, same⟩ | ⟨e, failed, same⟩
  · rw [same] at large
    exact absurd large (live _ _ _)
  · rw [same] at large
    rw [sendError_payload (code_of_tooLarge large).2] at failed
    exact sendStreamFrame_oversized failed

/-- Too large a frame ends the stream, whatever the waits would have been. -/
theorem sends_oversized {p : Pump} {frame : OutFrame} (wait : Wait) (next : Point)
    (large : maxFramePayload < frame.payload.length) : TooLarge (p.sends frame wait next) := by
  have failed : sendStreamFrame frame.payload wait = .error .oversized := if_pos large
  rw [Pump.sends, failed]
  rfl

/-! ## The batches in flight -/

/-- The rows that were pulled are those of the result, all of them once it has drained, and the
stream is too large only when a frame is. -/
structure Within (batch : StreamBatch) (cols : List ColMeta) (rows : List Row) (p : Pump) :
    Prop where
  tracked : Tracked p
  policy : p.batch = batch
  head : p.cols = cols
  pulled : p.pulled <+: rows
  whole : ∀ group, p.point = .sendingData group true → p.pulled = rows
  large : TooLarge p → ¬ BatchesFit batch cols rows

theorem within_start (batch : StreamBatch) (ctx : OpContext) (requestId : Nat)
    (cols : List ColMeta) (rows : List Row) :
    Within batch cols rows (Pump.start batch ctx requestId cols) :=
  ⟨tracked_start batch ctx requestId cols, rfl, rfl, List.nil_prefix,
    fun _ => Point.noConfusion, Point.noConfusion⟩

theorem Within.inFlight {batch : StreamBatch} {cols : List ColMeta} {rows group : List Row}
    {p : Pump} {last : Bool} (within : Within batch cols rows p)
    (point : p.point = .sendingData group last) : group ∈ batches batch rows := by
  have flow := within.tracked.flow
  rw [StreamBatching.Flow, point, within.policy] at flow
  cases last with
  | false =>
    obtain ⟨⟨full, groups, -⟩, -, -⟩ := flow
    obtain ⟨later, rfl⟩ := within.pulled
    apply List.mem_append_left
    apply cut_keeps
    rw [groups]
    exact List.mem_append_right full List.mem_cons_self
  | true =>
    obtain ⟨-, waiting, some⟩ := flow
    rw [within.whole group point] at waiting
    apply List.mem_append_right
    rw [← waiting, remainder, if_neg some]
    exact List.mem_cons_self

theorem push_point (p : Pump) (row : Row) :
    (p.push row).point = p.point ∨
      (p.push row).point = .sendingData (p.batchRows ++ [row]) false := by
  unfold Pump.push
  dsimp only
  split
  · exact .inr rfl
  · exact .inl rfl

theorem drains_point (p : Pump) :
    p.drains.point = .finishing ∨ p.drains.point = .sendingData p.batchRows true := by
  unfold Pump.drains
  split
  · exact .inl rfl
  · exact .inr rfl

theorem within_step {batch : StreamBatch} {cols : List ColMeta} {rows : List Row} {p q : Pump}
    {label : Label} (within : Within batch cols rows p) (yields : Yields rows p label)
    (taken : step p label = some q) : Within batch cols rows q := by
  have tracked := tracked_step within.tracked taken
  obtain ⟨kept, pulled⟩ := step_kept taken
  -- The label decides what was pulled; the point and the ending remain.
  have rest : yielded [label] = [] → (∀ group, q.point = .sendingData group true → p.pulled = rows) →
      (TooLarge q → ¬ BatchesFit batch cols rows) → Within batch cols rows q := by
    intro quiet whole large
    rw [quiet, List.append_nil] at pulled
    exact ⟨tracked, kept.batch.trans within.policy, kept.cols.trans within.head,
      pulled ▸ within.pulled, pulled ▸ whole, large⟩
  have ended : ∀ {next : Point} {frame : OutFrame} {wait : Wait},
      (∀ fired terminal ended, next ≠ .done fired terminal ended) →
      (∀ group, next ≠ .sendingData group true) → (∀ group,
        (p.sends frame wait next).point = .sendingData group true → p.pulled = rows) := by
    intro next frame wait _ other group same
    rcases sends_cases p frame wait next with ⟨-, sent⟩ | ⟨e, -, sent⟩
    · rw [sent] at same
      exact absurd same (other group)
    · rw [sent] at same
      exact Point.noConfusion same
  cases step_moves taken with
  | head wait point =>
    refine rest rfl (ended (fun _ _ _ => Point.noConfusion) fun _ => Point.noConfusion) ?_
    intro large fit
    have size := sends_tooLarge (fun _ _ _ => Point.noConfusion) large
    have small := fit.1
    rw [← within.head] at small
    exact absurd small (Nat.not_le.mpr size)
  | data wait group last point =>
    have live : ∀ fired terminal ended, afterData last ≠ .done fired terminal ended := by
      intro fired terminal ended
      cases last <;> exact Point.noConfusion
    have other : ∀ group, afterData last ≠ .sendingData group true := by
      intro group
      cases last <;> exact Point.noConfusion
    refine rest rfl (ended live other) ?_
    intro large fit
    have size := sends_tooLarge live large
    exact absurd (fit.2 group (within.inFlight point)) (Nat.not_le.mpr size)
  | row row point =>
    rcases push_point p row with waits | sends
    · rw [point] at waits
      refine ⟨tracked, kept.batch.trans within.policy, kept.cols.trans within.head,
        pulled ▸ yields, ?_, ?_⟩
      · intro group same
        rw [waits] at same
        exact Point.noConfusion same
      · intro large
        rw [TooLarge, waits] at large
        exact Point.noConfusion large
    · refine ⟨tracked, kept.batch.trans within.policy, kept.cols.trans within.head,
        pulled ▸ yields, ?_, ?_⟩
      · intro group same
        rw [sends] at same
        injection same with _ last
        exact absurd last Bool.noConfusion
      · intro large
        rw [TooLarge, sends] at large
        exact Point.noConfusion large
  | drained point =>
    refine rest rfl (fun _ _ => yields) ?_
    intro large
    rcases drains_point p with finishing | sends
    · rw [TooLarge, finishing] at large
      exact Point.noConfusion large
    · rw [TooLarge, sends] at large
      exact Point.noConfusion large
  | fails err point =>
    refine rest rfl (fun _ => Point.noConfusion) ?_
    intro large
    exact absurd (code_of_tooLarge large).1 Bool.noConfusion
  | stops label stop point =>
    have quiet : yielded [label] = [] := by
      rcases stop with rfl | rfl
      · rfl
      · rfl
    refine rest quiet (fun _ => Point.noConfusion) ?_
    intro large
    exact absurd (code_of_tooLarge large).2 (cancel_payload p.ctx)
  | finishes result execUs point =>
    cases result with
    | ok fin =>
      refine rest rfl (fun _ => Point.noConfusion) ?_
      intro large
      injection large with fired
      exact absurd fired Bool.noConfusion
    | error e =>
      refine rest rfl (fun _ => Point.noConfusion) ?_
      intro large
      exact absurd (code_of_tooLarge large).1 Bool.noConfusion

/-! ## Streams that are never too large -/

/-- No run over these rows, from this state on, ends the stream as too large. -/
def Never (rows : List Row) (p : Pump) : Prop :=
  ∀ labels q, Meets step (Yields rows) p labels → run step p labels = some q → ¬ TooLarge q

theorem Never.here {rows : List Row} {p : Pump} (never : Never rows p) : ¬ TooLarge p :=
  never [] p trivial rfl

theorem Never.next {rows : List Row} {p q : Pump} {label : Label} (never : Never rows p)
    (taken : step p label = some q) (yields : Yields rows p label) : Never rows q := by
  intro labels r meets reached
  refine never (label :: labels) r (meets_cons step yields taken meets) ?_
  rw [run_cons, taken]
  exact reached

/-- A frame that must not be oversized fits, and goes out when nothing holds it back. -/
theorem Never.sends {rows : List Row} {p : Pump} {frame : OutFrame} {next : Point}
    (never : Never rows p) (taken : step p (.sends .ready) = some (p.sends frame .ready next)) :
    frame.payload.length ≤ maxFramePayload ∧
      p.sends frame .ready next =
        { p with
          sentBytes := p.sentBytes + frame.payload.length
          channel := p.channel ++ [frame]
          point := next } := by
  have later : Never rows (p.sends frame .ready next) := never.next taken trivial
  have fits : ¬ maxFramePayload < frame.payload.length := by
    intro large
    exact later.here (sends_oversized .ready next large)
  have sent : sendStreamFrame frame.payload .ready = .ok frame.payload.length := if_neg fits
  refine ⟨Nat.not_lt.mp fits, ?_⟩
  rw [Pump.sends, sent]

theorem step_sendsData {p : Pump} {group : List Row} {last : Bool}
    (point : p.point = .sendingData group last) (wait : Wait) :
    step p (.sends wait) = some (p.sends (dataFrame p.requestId group) wait (afterData last)) := by
  rw [step, point]

theorem step_pulling {p : Pump} (point : p.point = .pulling) (label : Label) :
    step p label = pullStep p label := by
  unfold step
  rw [point]

theorem Never.batches {rows rest : List Row} {p : Pump} (tracked : Tracked p)
    (point : p.point = .pulling) (pulled : p.pulled ++ rest = rows) (never : Never rows p) :
    ∀ group ∈ batches p.batch rows, (encodeData group).length ≤ maxFramePayload := by
  induction rest generalizing p with
  | nil =>
    rw [List.append_nil] at pulled
    have flow := tracked.flow
    rw [StreamBatching.Flow, point] at flow
    obtain ⟨channel, waiting, -⟩ := flow
    intro group member
    rcases List.mem_append.mp member with full | last
    · apply tracked.fits (dataFrame p.requestId group)
      rw [channel, pulled]
      exact List.mem_cons_of_mem _ (List.mem_map_of_mem full)
    · rw [← pulled, ← waiting] at last
      by_cases empty : p.batchRows = []
      · rw [remainder, if_pos empty] at last
        cases last
      · rw [remainder, if_neg empty, List.mem_singleton] at last
        have drains : step p .drained = some p.drains := step_pulling point .drained
        rw [Pump.drains, if_neg empty] at drains
        have sends := (never.next drains pulled).sends (step_sendsData rfl .ready)
        rw [last]
        exact sends.1
  | cons row rest ih =>
    have flow := tracked.flow
    rw [StreamBatching.Flow, point] at flow
    have taken : step p (.row row) = some (p.push row) := step_pulling point (.row row)
    have next : p.pulled ++ [row] ++ rest = rows := by
      rw [List.append_assoc]
      exact pulled
    have yields : Yields rows p (.row row) := ⟨rest, next⟩
    have tracked' := tracked_step tracked taken
    have never' := never.next taken yields
    rcases push_cases flow.2.2 row with ⟨-, same⟩ | ⟨-, same⟩
    · have cuts : (p.push row).point = .sendingData (p.batchRows ++ [row]) false := by rw [same]
      have next' : (p.push row).pulled ++ rest = rows := by
        rw [same]
        exact next
      have sent := step_sendsData cuts .ready
      rw [(never'.sends sent).2] at sent
      have later := ih (tracked_step tracked' sent) rfl next' (never'.next sent trivial)
      rw [same] at later
      exact later
    · rw [same] at tracked' never'
      have later := ih tracked' point next never'
      exact later

theorem Never.fits {batch : StreamBatch} {ctx : OpContext} {requestId : Nat}
    {cols : List ColMeta} {rows : List Row}
    (never : Never rows (Pump.start batch ctx requestId cols)) : BatchesFit batch cols rows := by
  have first : step (Pump.start batch ctx requestId cols) (.sends .ready) = some
      ((Pump.start batch ctx requestId cols).sends (headFrame requestId cols) .ready
        .pulling) := rfl
  have head := never.sends first
  refine ⟨head.1, ?_⟩
  rw [head.2] at first
  exact Never.batches (tracked_step (tracked_start batch ctx requestId cols) first) rfl rfl
    (never.next first trivial)

/-- A stream over these rows never ends as too large exactly when its head and each of its batches
fit a frame. -/
theorem neverTooLarge_iff (batch : StreamBatch) (ctx : OpContext) (requestId : Nat)
    (cols : List ColMeta) (rows : List Row) :
    Never rows (Pump.start batch ctx requestId cols) ↔ BatchesFit batch cols rows := by
  constructor
  · intro never
    exact never.fits
  · intro fit labels p meets reached large
    have within := run_invariant step within_step
      (within_start batch ctx requestId cols rows) meets reached
    exact within.large large fit

/-! ## Rows that fit alone -/

/-- A row of one byte string. -/
def wide (n : Nat) : Row :=
  [.bytes (List.replicate n 0)]

theorem estimateRowBytes_wide (n : Nat) : estimateRowBytes (wide n) = n + 7 := by
  simp [wide, estimateRowBytes, AutocommitExec.estimateCellBytes]

theorem encodeRow_wide (n : Nat) :
    n ≤ (encodeRow (wide n)).length ∧ (encodeRow (wide n)).length ≤ n + 8 := by
  have lower := MessagePack.le_writeBin_length (List.replicate n 0)
  have upper := MessagePack.writeBin_length_le (List.replicate n 0)
  have row : (encodeRow (wide n)).length =
      (MessagePack.writeBin (List.replicate n 0)).length + 3 := by
    simp [wide, encodeRow, Value.encode, Value.payload, MessagePack.writeArrayLen_length]
    omega
  rw [List.length_replicate] at lower upper
  omega

theorem encodeData_single (row : Row) :
    (encodeData [row]).length = (encodeRow row).length + 2 := by
  simp [encodeData, encodeRows, MessagePack.writeArrayLen_length]
  omega

/-- A row that waits, and one that fills a frame. -/
def wideRows : List Row :=
  [wide 200000, wide 16777206]

theorem cut_wideRows : cut StreamBatch.production wideRows = ([wideRows], []) := by
  have first : batchBytes [wide 200000] = 200007 := by
    rw [batchBytes, List.map_singleton, List.sum_singleton, estimateRowBytes_wide]
  have second : batchBytes ([wide 200000] ++ [wide 16777206]) = 16977220 := by
    rw [batchBytes, List.map_append, List.sum_append, List.map_singleton, List.map_singleton,
      List.sum_singleton, List.sum_singleton, estimateRowBytes_wide, estimateRowBytes_wide]
  have waits : ¬ StreamBatch.production.Full [wide 200000] := by
    rw [StreamBatch.Full, first]
    decide
  have cuts : StreamBatch.production.Full ([wide 200000] ++ [wide 16777206]) := by
    rw [StreamBatch.Full, second]
    exact .inr (by decide)
  have waited : pushed StreamBatch.production ([], []) (wide 200000) = ([], [wide 200000]) :=
    pushed_waits waits
  rw [cut, wideRows, List.foldl_cons, List.foldl_cons, List.foldl_nil, waited, pushed_full cuts]
  rfl

/-- Both rows fit a frame of their own, and the batch of the two ends the stream as too large. -/
theorem wideRows_tooLarge :
    (∀ row ∈ wideRows, (encodeData [row]).length ≤ maxFramePayload) ∧
      ∃ labels p,
        Meets step (Yields wideRows) (Pump.start StreamBatch.production sampleContext 7 [])
          labels ∧
        run step (Pump.start StreamBatch.production sampleContext 7 []) labels = some p ∧
        TooLarge p := by
  constructor
  · intro row member
    have small : ∃ n ≤ 16777206, row = wide n := by
      rcases List.mem_cons.mp member with rfl | last
      · exact ⟨_, by omega, rfl⟩
      · exact ⟨_, Nat.le_refl _, List.mem_singleton.mp last⟩
    obtain ⟨n, bound, rfl⟩ := small
    have size := (encodeRow_wide n).2
    rw [encodeData_single]
    unfold maxFramePayload
    omega
  · by_contra none
    have never : Never wideRows (Pump.start StreamBatch.production sampleContext 7 []) := by
      intro labels p meets reached large
      exact none ⟨labels, p, meets, reached, large⟩
    have member : wideRows ∈ batches StreamBatch.production wideRows := by
      rw [batches, cut_wideRows]
      exact List.mem_cons_self
    have fits := never.fits.2 wideRows member
    have lower := (encodeRow_wide 200000).1
    have lower' := (encodeRow_wide 16777206).1
    rw [encodeData, encodeRows, wideRows, List.flatMap_cons, List.flatMap_cons] at fits
    simp only [List.length_append] at fits
    unfold maxFramePayload at fits
    omega

end FerroEngine.StreamOversize
