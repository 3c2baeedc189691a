import FerroEngine.CopyOut

set_option autoImplicit false

/-! # The frames of a COPY TO STDOUT

Which bytes reach the client, and whether the terminal agrees with the verdict.
-/

namespace FerroEngine.CopyOutSoundness

open LabelledRuns FateMapping MessagePack PostgresErrors CopyRequests CopyOut
open AutocommitExec (Terminal Wait StreamSendError maxFramePayload sendStreamFrame
  sendErrToPoolError streamCancelError cancelledBeforeDispatch buildStreamTerminalBody)

structure Settled (s : State) (terminal : Terminal) (ended : Option StreamEnded) : Prop where
  verdict : s.req.inTx = true → ∀ v, ended = some v →
    (terminalSaysFinished terminal = true ↔ v = .broken)
  whole : ∀ body, terminal = .ok body →
    s.frames.flatten = s.chunks.flatten ∧
      (∀ frame ∈ s.frames, frame ≠ [] ∧ frame.length ≤ copyOutFrameBytes) ∧
      ∃ affected queueUs execUs, body = buildStreamTerminalBody
        { affected := affected, lastInsertId := none, queueUs := queueUs } affected execUs
        (s.frames.map List.length).sum

def isDone : Point → Bool
  | .done _ _ => true
  | _ => false

structure Tracked (s : State) : Prop where
  flow : isDone s.point = false → s.frames.flatten ++ s.buf = s.chunks.flatten
  sizes : ∀ frame ∈ s.frames, frame ≠ [] ∧ frame.length ≤ copyOutFrameBytes
  bytes : s.sentBytes = (s.frames.map List.length).sum
  sending : ∀ last, s.point = .sending last → s.buf ≠ []
  finishing : s.point = .finishing → s.buf = []
  settled : ∀ terminal ended, s.point = .done terminal ended → Settled s terminal ended

theorem tracked_start (req : CopyRequest) : Tracked (State.start req) :=
  ⟨fun _ => rfl, fun _ member => (by cases member), rfl, fun _ => Point.noConfusion,
    Point.noConfusion, fun _ _ => Point.noConfusion⟩

/-! ## A frame fits -/

theorem writeBin_length_le (bytes : List UInt8) : (writeBin bytes).length ≤ bytes.length + 5 := by
  unfold writeBin writeBinLen
  rw [List.length_append]
  split_ifs
  · rw [List.length_cons, bigEndian_length]
    omega
  · rw [List.length_cons, bigEndian_length]
    omega
  · rw [List.length_cons, bigEndian_length]
    omega

theorem encodeSlice_fits {data : List UInt8} (short : data.length ≤ copyOutFrameBytes) :
    (encodeSlice data).length ≤ maxFramePayload := by
  have body := writeBin_length_le data
  have head : (writeArrayLen 1).length = 1 := rfl
  unfold encodeSlice
  rw [List.length_append, head]
  unfold copyOutFrameBytes at short
  unfold maxFramePayload
  omega

/-- A frame of a COPY is never oversized. -/
theorem sendStreamFrame_fits {data : List UInt8} (short : data.length ≤ copyOutFrameBytes)
    {wait : Wait} {e : StreamSendError}
    (failed : sendStreamFrame (encodeSlice data) wait = .error e) :
    e = .aborted ∨ e = .linkLost := by
  unfold sendStreamFrame at failed
  rw [if_neg (Nat.not_lt.mpr (encodeSlice_fits short))] at failed
  cases wait with
  | ready => cases failed
  | aborted =>
    cases failed
    exact Or.inl rfl
  | linkLost =>
    cases failed
    exact Or.inr rfl

/-! ## Terminals -/

theorem Tracked.ends {s : State} (tracked : Tracked s) {terminal : Terminal}
    {ended : Option StreamEnded} (settled : Settled s terminal ended) :
    Tracked (s.ends terminal ended) := by
  refine ⟨fun live => (by cases live), tracked.sizes, tracked.bytes, fun _ => Point.noConfusion,
    Point.noConfusion, ?_⟩
  intro terminal' ended' point
  cases point
  exact ⟨settled.verdict, settled.whole⟩

theorem settled_error {s : State} {payload : ErrorPayload} {ended : Option StreamEnded}
    (verdict : s.req.inTx = true → ∀ v, ended = some v →
      (saysFinished payload = true ↔ v = .broken)) : Settled s (.error payload) ended :=
  ⟨verdict, fun _ other => (by cases other)⟩

theorem Tracked.failsAs {s : State} (tracked : Tracked s) {err : PoolError}
    (error : CopyError err) : Tracked (s.failsAs err) := by
  apply tracked.ends
  apply settled_error
  intro inTx v same
  cases same
  rw [endedBy_broken, saysFinished_classifyFate error inTx]

theorem Tracked.stops {s : State} (tracked : Tracked s) :
    Tracked (s.fails streamCancelError .broken) := by
  apply tracked.ends
  apply settled_error
  intro inTx v same
  cases same
  rw [saysFinished_cancelled rfl inTx]
  exact ⟨fun _ => rfl, fun _ => rfl⟩

theorem Tracked.loses {s : State} (tracked : Tracked s) :
    Tracked (s.fails .connectionLost .broken) :=
  tracked.failsAs .lost

/-! ## The buffer -/

theorem Tracked.flush {s : State} (tracked : Tracked s)
    (flow : s.frames.flatten ++ s.buf = s.chunks.flatten) (last : Bool) :
    Tracked (s.flush last) := by
  unfold State.flush
  by_cases empty : s.buf = []
  · simp only [if_pos empty]
    cases last with
    | false =>
      exact ⟨fun _ => flow, tracked.sizes, tracked.bytes, fun _ => Point.noConfusion,
        Point.noConfusion, fun _ _ => Point.noConfusion⟩
    | true =>
      exact ⟨fun _ => flow, tracked.sizes, tracked.bytes, fun _ => Point.noConfusion,
        fun _ => empty, fun _ _ => Point.noConfusion⟩
  · simp only [if_neg empty]
    exact ⟨fun _ => flow, tracked.sizes, tracked.bytes, fun _ _ => empty, Point.noConfusion,
      fun _ _ => Point.noConfusion⟩

theorem Tracked.takes {s : State} (tracked : Tracked s) (live : isDone s.point = false)
    (item : Item) : Tracked (s.takes item) := by
  have flow := tracked.flow live
  cases item with
  | chunk bytes =>
    have flow' : s.frames.flatten ++ (s.buf ++ bytes) = (s.chunks ++ [bytes]).flatten := by
      rw [← List.append_assoc, flow, List.flatten_append, List.flatten_singleton]
    have polled : Tracked { s with buf := s.buf ++ bytes, chunks := s.chunks ++ [bytes],
                                   point := .polling } :=
      ⟨fun _ => flow', tracked.sizes, tracked.bytes, fun _ => Point.noConfusion,
        Point.noConfusion, fun _ _ => Point.noConfusion⟩
    unfold State.takes
    simp only
    split_ifs
    · exact polled.flush flow' false
    · exact polled
  | fails e => exact tracked.failsAs (copyError_errorMap e)
  | drained => exact tracked.flush flow true

theorem Tracked.sent {s : State} (tracked : Tracked s) (live : isDone s.point = false)
    (nonempty : s.buf ≠ []) (last : Bool) : Tracked (s.sent.flush last) := by
  have positive : 0 < s.buf.length := List.length_pos_of_ne_nil nonempty
  have taken : (s.buf.take (min s.buf.length copyOutFrameBytes)).length =
      min s.buf.length copyOutFrameBytes := by
    rw [List.length_take]
    omega
  have flow : s.sent.frames.flatten ++ s.sent.buf = s.sent.chunks.flatten := by
    unfold State.sent
    simp only
    rw [List.flatten_append, List.flatten_singleton, List.append_assoc, List.take_append_drop]
    exact tracked.flow live
  have sizes : ∀ frame ∈ s.sent.frames, frame ≠ [] ∧ frame.length ≤ copyOutFrameBytes := by
    intro frame member
    rcases List.mem_append.mp member with earlier | new
    · exact tracked.sizes frame earlier
    · rw [List.mem_singleton] at new
      rw [new]
      refine ⟨?_, ?_⟩
      · apply List.ne_nil_of_length_pos
        rw [taken]
        unfold copyOutFrameBytes
        omega
      · rw [taken]
        omega
  have bytes : s.sent.sentBytes = (s.sent.frames.map List.length).sum := by
    unfold State.sent
    simp only
    rw [List.map_append, List.sum_append, List.map_singleton, List.sum_singleton, taken,
      ← tracked.bytes]
  have pulled : Tracked { s.sent with point := .pulling } :=
    ⟨fun _ => flow, sizes, bytes, fun _ => Point.noConfusion, Point.noConfusion,
      fun _ _ => Point.noConfusion⟩
  exact pulled.flush flow last

/-! ## Steps -/

theorem Tracked.moves {s : State} (tracked : Tracked s) (live : isDone s.point = false)
    (queueUs : Nat) {point : Point} (sending : ∀ last, point ≠ .sending last)
    (finishing : point ≠ .finishing) (ended : isDone point = false) :
    Tracked { s with queueUs := queueUs, point := point } := by
  refine ⟨fun _ => tracked.flow live, tracked.sizes, tracked.bytes,
    fun last same => absurd same (sending last), fun same => absurd same finishing, ?_⟩
  intro terminal verdict same
  rw [show point = .done terminal verdict from same] at ended
  cases ended

theorem Tracked.checkout {s t : State} (tracked : Tracked s) (live : isDone s.point = false)
    {label : Label} (moved : checkoutStep s label = some t) : Tracked t := by
  have ends : ∀ payload, Tracked (s.ends (.error payload) none) := fun payload =>
    tracked.ends (settled_error fun _ _ other => (by cases other))
  unfold checkoutStep at moved
  split at moved
  · cases moved
    exact tracked.moves live _ (fun _ => Point.noConfusion) Point.noConfusion rfl
  · cases moved
    exact ends _
  · cases moved
    exact ends _
  · cases moved
    exact ends _
  · cases moved

theorem Tracked.openStep {s t : State} {stopped : Bool} (tracked : Tracked s)
    (live : isDone s.point = false) {label : Label}
    (moved : openStep s stopped label = some t) : Tracked t := by
  have failing : ∀ stopped {e : PoolError}, CopyError e →
      Tracked (s.fails (if stopped = true then streamCancelError else e)
        (endedBy (stopped || endsTx e))) := by
    intro stopped e error
    cases stopped with
    | false => exact tracked.failsAs error
    | true => exact tracked.stops
  unfold CopyOut.openStep at moved
  split at moved
  · split_ifs at moved
    cases moved
    exact tracked.moves live _ (fun _ => Point.noConfusion) Point.noConfusion rfl
  · split_ifs at moved
    cases moved
    exact tracked.moves live _ (fun _ => Point.noConfusion) Point.noConfusion rfl
  · split at moved
    · cases moved
      exact tracked.moves live _ (fun _ => Point.noConfusion) Point.noConfusion rfl
    · cases moved
      exact tracked.stops
    · next e failed =>
      cases moved
      exact failing _ (openCopy_error failed)
  · cases moved

theorem Tracked.sendStep {s t : State} {last : Bool} (tracked : Tracked s)
    (point : s.point = .sending last) {label : Label}
    (moved : sendStep s last label = some t) : Tracked t := by
  have live : isDone s.point = false := by rw [point]; rfl
  unfold CopyOut.sendStep at moved
  split at moved
  · split at moved
    · cases moved
      exact tracked.sent live (tracked.sending last point) last
    · next e failed =>
      cases moved
      have short : (s.buf.take (min s.buf.length copyOutFrameBytes)).length ≤
          copyOutFrameBytes := by
        rw [List.length_take]
        omega
      rcases sendStreamFrame_fits short failed with same | same
      · rw [same]
        exact tracked.stops
      · rw [same]
        exact tracked.loses
  · cases moved

theorem Tracked.finishStep {s t : State} (tracked : Tracked s) (point : s.point = .finishing)
    {label : Label} (moved : finishStep s label = some t) : Tracked t := by
  have flow := tracked.flow (by rw [point]; rfl)
  rw [tracked.finishing point, List.append_nil] at flow
  unfold CopyOut.finishStep at moved
  split at moved
  · next drain execUs =>
    cases drain with
    | drained affected =>
      cases moved
      apply tracked.ends
      refine ⟨?_, ?_⟩
      · intro _ v same
        cases same
        exact ⟨Bool.noConfusion, StreamEnded.noConfusion⟩
      · intro body same
        cases same
        rw [tracked.bytes]
        exact ⟨flow, tracked.sizes, affected, s.queueUs, execUs, rfl⟩
    | failed e =>
      cases moved
      exact tracked.failsAs (copyError_errorMap e)
    | elapsed =>
      cases moved
      exact tracked.loses
  · cases moved

theorem tracked_step {s t : State} {label : Label} (tracked : Tracked s)
    (moved : step s label = some t) : Tracked t := by
  unfold step at moved
  split at moved
  · next point =>
    have live : isDone s.point = false := by rw [point]; rfl
    split at moved
    · split at moved
      · cases moved
        cases s.req.inTx with
        | false => exact tracked.moves live _ (fun _ => Point.noConfusion) Point.noConfusion rfl
        | true => exact tracked.moves live _ (fun _ => Point.noConfusion) Point.noConfusion rfl
      · cases moved
        exact tracked.ends (settled_error fun _ _ other => (by cases other))
    · cases moved
  · next point => exact tracked.checkout (by rw [point]; rfl) moved
  · next stopped point => exact tracked.openStep (by rw [point]; rfl) moved
  · next point =>
    have live : isDone s.point = false := by rw [point]; rfl
    unfold pullStep at moved
    split at moved
    · cases moved
      exact tracked.takes live _
    · cases moved
      exact tracked.stops
    · cases moved
      exact tracked.stops
    · cases moved
  · next point =>
    have live : isDone s.point = false := by rw [point]; rfl
    unfold pollStep at moved
    split at moved
    · cases moved
      exact tracked.takes live _
    · cases moved
      exact tracked.flush (tracked.flow live) false
    · cases moved
  · next last point => exact tracked.sendStep point moved
  · next point => exact tracked.finishStep point moved
  · cases moved

theorem tracked_run {req : CopyRequest} {labels : List Label} {s : State}
    (reached : run step (State.start req) labels = some s) : Tracked s :=
  run_always step tracked_step (tracked_start req) reached

end FerroEngine.CopyOutSoundness
