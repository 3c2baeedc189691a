import FerroEngine.CopyIn

set_option autoImplicit false

/-! # The fate of a COPY FROM STDIN

Which terminal a COPY gets, what the server can have made of it, and which chunks reached it.
-/

namespace FerroEngine.CopyInSoundness

open LabelledRuns FateMapping PostgresErrors InboundChannel CopyRequests CopyIn
open AutocommitExec (Terminal StreamEnd buildStreamTerminalBody cancelledBeforeDispatch)

/-! ## What a terminal promises -/

structure Settled (s : State) (terminal : Terminal) (ended : Option StreamEnded) : Prop where
  known : ∀ payload, terminal = .error payload → payload.branch ≠ .indeterminate →
    s.endOfData = false ∨ ∃ e, s.reported = some e ∧
      (isSessionFatal e = false ∨ s.req.inTx = true ∧ ended = some .broken)
  verdict : s.req.inTx = true → ∀ v, ended = some v →
    (terminalSaysFinished terminal = true ↔ v = .broken)
  whole : ∀ body, terminal = .ok body →
    (∃ rest, s.received = s.forwarded.map .data ++ .done :: rest) ∧
      ∃ affected queueUs execUs, body = buildStreamTerminalBody
        { affected := affected, lastInsertId := none, queueUs := queueUs } 0 execUs
        (s.forwarded.map List.length).sum

def isDone : Point → Bool
  | .done _ _ => true
  | _ => false

def isFresh : Point → Bool
  | .start | .capacity => true
  | _ => false

def isFinishing : Point → Bool
  | .finishing _ => true
  | _ => false

/-- What has left the channel and has not been forwarded. -/
def pending : Point → List Inbound
  | .sending chunk => [.data chunk]
  | .finishing _ => [.done]
  | _ => []

def queued (s : State) : List Inbound :=
  (s.channel.map Channel.queue).getD []

structure Tracked (s : State) : Prop where
  fresh : isFresh s.point = true → s.channel = none
  flow : isDone s.point = false →
    s.received = s.forwarded.map .data ++ pending s.point ++ queued s
  bytes : s.bytesIn = (s.forwarded.map List.length).sum
  unsent : isDone s.point = false → isFinishing s.point = false → s.endOfData = false
  settled : ∀ terminal ended, s.point = .done terminal ended → Settled s terminal ended

theorem tracked_start (req : CopyRequest) (window : Credit) : Tracked (State.start req window) :=
  ⟨fun _ => rfl, fun _ => rfl, rfl, fun _ _ => rfl, fun _ _ => Point.noConfusion⟩

/-! ## Terminals -/

theorem Tracked.ends {s : State} (tracked : Tracked s) {terminal : Terminal}
    {ended : Option StreamEnded} (settled : Settled s terminal ended) :
    Tracked (s.ends terminal ended) := by
  refine ⟨fun fresh => (by cases fresh), fun live => (by cases live), tracked.bytes,
    fun live => (by cases live), ?_⟩
  intro terminal' ended' point
  cases point
  exact ⟨settled.known, settled.verdict, settled.whole⟩

/-- A terminal before the end-of-data only has to agree with its verdict. -/
theorem settled_unsent {s : State} {payload : ErrorPayload} {ended : Option StreamEnded}
    (unsent : s.endOfData = false)
    (verdict : s.req.inTx = true → ∀ v, ended = some v →
      (saysFinished payload = true ↔ v = .broken)) : Settled s (.error payload) ended :=
  ⟨fun _ _ _ => Or.inl unsent, verdict, fun _ other => (by cases other)⟩

theorem saysFinished_notApplied {s : State} (inTx : s.req.inTx = true) (why : String) :
    saysFinished (s.notApplied why) = true :=
  saysFinished_cancelled (is57014_copyStoppedBeforeDone why) inTx

theorem Tracked.abandons {s : State} (tracked : Tracked s) (unsent : s.endOfData = false)
    (why : String) : Tracked (s.abandons why) := by
  apply tracked.ends
  apply settled_unsent unsent
  intro inTx v same
  cases same
  rw [saysFinished_notApplied inTx]
  exact ⟨fun _ => rfl, fun _ => rfl⟩

/-- An error whose wording agrees with its verdict. -/
theorem verdict_endedBy {payload : ErrorPayload} {broken : Bool}
    (wording : saysFinished payload = broken) (v : StreamEnded) (same : some (endedBy broken) = some v) :
    saysFinished payload = true ↔ v = .broken := by
  cases same
  rw [wording, endedBy_broken]

theorem Tracked.reports {α : Type} {s : State} (tracked : Tracked s)
    (live : isDone s.point = false) (result : Except DriverError α) :
    Tracked (s.reports result) := by
  cases result with
  | ok _ => exact tracked
  | error e =>
    refine ⟨tracked.fresh, tracked.flow, tracked.bytes, tracked.unsent, ?_⟩
    intro terminal ended point
    have ended' : isDone s.point = true := congrArg isDone point
    rw [live] at ended'
    cases ended'

/-! ## Steps -/

/-- A step between live points that leaves the data alone. -/
theorem Tracked.moves {s t : State} (tracked : Tracked s) (live : isDone s.point = false)
    (liveAfter : isDone t.point = false) (early : isFinishing s.point = false)
    (fresh : isFresh t.point = false)
    (same : pending t.point = pending s.point) (received : t.received = s.received)
    (forwarded : t.forwarded = s.forwarded) (queue : queued t = queued s)
    (bytes : t.bytesIn = s.bytesIn) (endOfData : t.endOfData = s.endOfData) : Tracked t := by
  refine ⟨?_, ?_, ?_, ?_, ?_⟩
  · intro fresh'
    rw [fresh] at fresh'
    cases fresh'
  · intro _
    rw [received, forwarded, same, queue]
    exact tracked.flow live
  · rw [bytes, forwarded]
    exact tracked.bytes
  · intro _ _
    rw [endOfData]
    exact tracked.unsent live early
  · intro terminal ended point
    have ended' : isDone t.point = true := congrArg isDone point
    rw [liveAfter] at ended'
    cases ended'

theorem queued_grant (s : State) (frames bytes : Nat) (point : Point) :
    queued (s.grant frames bytes point) = queued s := by
  unfold queued State.grant
  cases s.channel with
  | none => rfl
  | some c => rfl

theorem Tracked.capacity {s t : State} (tracked : Tracked s) (point : s.point = .capacity)
    {label : Label} (moved : capacityStep s label = some t) : Tracked t := by
  have live : isDone s.point = false := by rw [point]; rfl
  have early : isFinishing s.point = false := by rw [point]; rfl
  have unsent := tracked.unsent live early
  unfold capacityStep at moved
  split at moved
  · cases moved
    have empty : queued s = [] := by
      unfold queued
      rw [tracked.fresh (by rw [point]; rfl)]
      rfl
    cases inTx : s.req.inTx with
    | false =>
      refine tracked.moves live rfl early rfl ?_ rfl rfl ?_ rfl rfl
      · rw [point]
        rfl
      · rw [empty]
        rfl
    | true =>
      refine tracked.moves live rfl early rfl ?_ rfl rfl ?_ rfl rfl
      · rw [point]
        rfl
      · rw [empty]
        rfl
  · cases moved
    apply tracked.ends
    apply settled_unsent unsent
    intro inTx v same
    rw [if_pos inTx] at same
    cases same
    rw [saysFinished_notApplied inTx]
    exact ⟨fun _ => rfl, fun _ => rfl⟩
  · cases moved
    apply tracked.ends
    apply settled_unsent unsent
    intro inTx v same
    rw [if_pos inTx] at same
    cases same
    exact ⟨Bool.noConfusion, StreamEnded.noConfusion⟩
  · cases moved

theorem Tracked.checkout {s t : State} (tracked : Tracked s) (point : s.point = .checkout)
    {label : Label} (moved : checkoutStep s label = some t) : Tracked t := by
  have live : isDone s.point = false := by rw [point]; rfl
  have early : isFinishing s.point = false := by rw [point]; rfl
  have ends : ∀ payload, Tracked (s.ends (.error payload) none) := fun payload =>
    tracked.ends (settled_unsent (tracked.unsent live early) fun _ _ other => (by cases other))
  unfold checkoutStep at moved
  split at moved
  · cases moved
    refine tracked.moves live rfl early rfl ?_ rfl rfl rfl rfl rfl
    rw [point]
    rfl
  · cases moved
    exact ends _
  · cases moved
    exact ends _
  · cases moved
    exact ends _
  · cases moved

theorem opened_endOfData (s : State) (result : Except DriverError Unit) :
    (s.opened result).endOfData = s.endOfData ∧ (s.opened result).req = s.req := by
  unfold State.opened State.reports
  split
  · cases result with
    | ok _ => exact ⟨rfl, rfl⟩
    | error _ => exact ⟨rfl, rfl⟩
  · exact ⟨rfl, rfl⟩

theorem Tracked.opened {s : State} (tracked : Tracked s) (live : isDone s.point = false)
    (result : Except DriverError Unit) : Tracked (s.opened result) := by
  unfold State.opened
  split
  · exact tracked.reports live result
  · exact tracked

theorem Tracked.openStep {s t : State} {stopped : Option String} (tracked : Tracked s)
    (point : s.point = .opening stopped) {label : Label}
    (moved : openStep s stopped label = some t) : Tracked t := by
  have live : isDone s.point = false := by rw [point]; rfl
  have early : isFinishing s.point = false := by rw [point]; rfl
  have unsent := tracked.unsent live early
  have still : ∀ why, Tracked { s with point := .opening why } := by
    intro why
    refine tracked.moves live rfl early rfl ?_ rfl rfl rfl rfl rfl
    rw [point]
    rfl
  unfold CopyIn.openStep at moved
  split at moved
  · split_ifs at moved
    cases moved
    exact still _
  · split_ifs at moved
    cases moved
    exact still _
  · next result =>
    split at moved
    · cases moved
      refine tracked.moves live rfl early rfl ?_ rfl rfl (queued_grant s _ _ _) rfl rfl
      rw [point]
      rfl
    · cases moved
      exact tracked.abandons unsent _
    · next e failed =>
      cases moved
      obtain ⟨endOfData, req⟩ := opened_endOfData s result
      apply (tracked.opened live result).ends
      apply settled_unsent (endOfData.trans unsent)
      intro inTx
      rw [req] at inTx
      rw [inTx]
      exact verdict_endedBy (saysFinished_copyInOpenFailed (openCopy_error failed) _)
  · cases moved

theorem Tracked.grantStep {s t : State} (tracked : Tracked s)
    (point : s.point = .granting ∨ s.point = .regranting) {label : Label}
    (moved : grantStep s label = some t) : Tracked t := by
  have live : isDone s.point = false := by
    rcases point with point | point
    · rw [point]; rfl
    · rw [point]; rfl
  have early : isFinishing s.point = false := by
    rcases point with point | point
    · rw [point]; rfl
    · rw [point]; rfl
  unfold CopyIn.grantStep at moved
  split at moved
  · cases moved
    refine tracked.moves live rfl early rfl ?_ rfl rfl rfl rfl rfl
    rcases point with point | point
    · rw [point]; rfl
    · rw [point]; rfl
  · cases moved
    exact tracked.abandons (tracked.unsent live early) _
  · cases moved

theorem Tracked.receiveStep {s t : State} (tracked : Tracked s) (point : s.point = .receiving)
    {label : Label} (moved : receiveStep s label = some t) : Tracked t := by
  have live : isDone s.point = false := by rw [point]; rfl
  have early : isFinishing s.point = false := by rw [point]; rfl
  have unsent := tracked.unsent live early
  have flow := tracked.flow live
  rw [point] at flow
  unfold CopyIn.receiveStep at moved
  split at moved
  · cases moved
    exact tracked.abandons unsent _
  · cases moved
    exact tracked.abandons unsent _
  · split at moved
    · cases moved
      exact tracked.abandons unsent _
    · cases moved
  · split at moved
    · next channel =>
      cases moved
      unfold queued at flow
      rw [channel] at flow
      refine ⟨fun fresh => (by cases fresh), ?_, tracked.bytes, fun _ _ => unsent,
        fun _ _ => Point.noConfusion⟩
      intro _
      rw [flow]
      simp [pending, queued]
    · next channel =>
      cases moved
      unfold queued at flow
      rw [channel] at flow
      refine ⟨fun fresh => (by cases fresh), ?_, tracked.bytes, fun _ late => (by cases late),
        fun _ _ => Point.noConfusion⟩
      intro _
      rw [flow]
      simp [pending, queued]
    · cases moved
  · cases moved

theorem Tracked.accepted {s : State} {chunk : List UInt8} (tracked : Tracked s)
    (point : s.point = .sending chunk) : Tracked (s.accepted chunk) := by
  have live : isDone s.point = false := by rw [point]; rfl
  have unsent := tracked.unsent live (by rw [point]; rfl)
  have flow := tracked.flow live
  rw [point] at flow
  have bytes : s.bytesIn + chunk.length = ((s.forwarded ++ [chunk]).map List.length).sum := by
    rw [tracked.bytes, List.map_append, List.sum_append]
    rfl
  have flow' : s.received = (s.forwarded ++ [chunk]).map .data ++ [] ++ queued s := by
    rw [flow, List.map_append, List.append_nil]
    rfl
  unfold State.accepted
  simp only
  split
  · next frames bytes' _ =>
    refine ⟨fun fresh => (by cases fresh), ?_, bytes, fun _ _ => unsent,
      fun _ _ => Point.noConfusion⟩
    intro _
    rw [queued_grant]
    exact flow'
  · exact ⟨fun fresh => (by cases fresh), fun _ => flow', bytes, fun _ _ => unsent,
      fun _ _ => Point.noConfusion⟩

theorem Tracked.sendStep {s t : State} {chunk : List UInt8} (tracked : Tracked s)
    (point : s.point = .sending chunk) {label : Label}
    (moved : sendStep s chunk label = some t) : Tracked t := by
  have live : isDone s.point = false := by rw [point]; rfl
  have unsent := tracked.unsent live (by rw [point]; rfl)
  unfold CopyIn.sendStep at moved
  split at moved
  · cases moved
    exact tracked.abandons unsent _
  · cases moved
    exact tracked.abandons unsent _
  · cases moved
    exact tracked.accepted point
  · next e =>
    cases moved
    apply (tracked.reports live (.error e : Except DriverError Unit)).ends
    refine settled_unsent (s := s.reports (.error e : Except DriverError Unit)) unsent ?_
    intro inTx
    exact verdict_endedBy (saysFinished_classifyFate (copyError_errorMap e) inTx)
  · cases moved

/-- After the end-of-data only the server's answer or a dead transaction has a known fate. -/
theorem known_of_sent {e : DriverError} {inTx : Bool}
    (known : (classifyFate (errorMap e)
      { readonly := false, sent := true, inTx := inTx }).branch ≠ .indeterminate) :
    isSessionFatal e = false ∨ inTx = true ∧ endsTx (errorMap e) = true := by
  rcases errorMap_cases e with ⟨_, mapped⟩ | ⟨answered, _⟩
  · rw [mapped] at known ⊢
    cases inTx with
    | false => exact absurd rfl known
    | true => exact Or.inr ⟨rfl, rfl⟩
  · exact Or.inl answered

theorem Tracked.finishStep {s t : State} {stopped : Bool} (tracked : Tracked s)
    (point : s.point = .finishing stopped) {label : Label}
    (moved : finishStep s stopped label = some t) : Tracked t := by
  have live : isDone s.point = false := by rw [point]; rfl
  have flow := tracked.flow live
  rw [point] at flow
  have still : Tracked { s with point := .finishing true } :=
    ⟨fun fresh => (by cases fresh), fun _ => flow, tracked.bytes, fun _ late => (by cases late),
      fun _ _ => Point.noConfusion⟩
  unfold CopyIn.finishStep at moved
  split at moved
  · split_ifs at moved
    cases moved
    exact still
  · split_ifs at moved
    cases moved
    exact still
  · next affected execUs =>
    cases moved
    apply tracked.ends
    refine ⟨fun _ other => (by cases other), ?_, ?_⟩
    · intro _ v same
      cases same
      exact ⟨Bool.noConfusion, StreamEnded.noConfusion⟩
    · intro body same
      cases same
      refine ⟨⟨queued s, ?_⟩, affected, s.queueUs, execUs, ?_⟩
      · rw [flow, List.append_assoc]
        rfl
      · rw [tracked.bytes]
  · next e _ =>
    cases moved
    apply (tracked.reports live (.error e : Except DriverError Nat)).ends
    refine ⟨?_, ?_, fun _ other => (by cases other)⟩
    · intro payload same known
      cases same
      right
      refine ⟨e, rfl, ?_⟩
      rcases known_of_sent known with answered | ⟨inTx, dead⟩
      · exact Or.inl answered
      · rw [dead]
        exact Or.inr ⟨inTx, rfl⟩
    · intro inTx
      exact verdict_endedBy (saysFinished_classifyFate (copyError_errorMap e) inTx)
  · cases moved

theorem Tracked.handler {s t : State} (tracked : Tracked s) {label : Label}
    (moved : handlerStep s label = some t) : Tracked t := by
  unfold handlerStep at moved
  split at moved
  · next point =>
    have live : isDone s.point = false := by rw [point]; rfl
    have unsent := tracked.unsent live (by rw [point]; rfl)
    have flow := tracked.flow live
    rw [point] at flow
    split at moved
    · split at moved
      · cases moved
        exact ⟨fun _ => tracked.fresh (by rw [point]; rfl), fun _ => flow, tracked.bytes,
          fun _ _ => unsent, fun _ _ => Point.noConfusion⟩
      · cases moved
        exact tracked.ends (settled_unsent unsent fun _ _ other => (by cases other))
    · cases moved
  · next point => exact tracked.capacity point moved
  · next point => exact tracked.checkout point moved
  · next stopped point => exact tracked.openStep point moved
  · next point => exact tracked.grantStep (Or.inl point) moved
  · next point => exact tracked.grantStep (Or.inr point) moved
  · next point => exact tracked.receiveStep point moved
  · next chunk point => exact tracked.sendStep point moved
  · next stopped point => exact tracked.finishStep point moved
  · cases moved

theorem readerStep_frame (s : State) (item : Inbound) :
    (readerStep s item).point = s.point ∧ (readerStep s item).forwarded = s.forwarded ∧
      (readerStep s item).bytesIn = s.bytesIn ∧ (readerStep s item).endOfData = s.endOfData ∧
      (readerStep s item).reported = s.reported ∧ (readerStep s item).req = s.req := by
  unfold readerStep
  split
  · exact ⟨rfl, rfl, rfl, rfl, rfl, rfl⟩
  · exact ⟨rfl, rfl, rfl, rfl, rfl, rfl⟩
  · exact ⟨rfl, rfl, rfl, rfl, rfl, rfl⟩

/-- What the reader delivers stands at the end of the queue. -/
theorem readerStep_received (s : State) (item : Inbound) :
    ∃ more, (readerStep s item).received = s.received ++ more ∧
      queued (readerStep s item) = queued s ++ more := by
  rcases deliver_cases s.channel item with ⟨c, credit, channel, _, delivered⟩ | ⟨other, queue, _⟩
  · refine ⟨[item], ?_⟩
    unfold readerStep queued
    rw [delivered, channel]
    exact ⟨rfl, rfl⟩
  · refine ⟨[], ?_⟩
    unfold readerStep queued
    rw [← queue, List.append_nil, List.append_nil]
    split
    · next delivered => exact absurd (congrArg Prod.fst delivered) other
    · next discarded => exact ⟨rfl, by rw [discarded]⟩
    · next violated => exact ⟨rfl, by rw [violated]⟩

theorem readerStep_channel {s : State} (empty : s.channel = none) (item : Inbound) :
    (readerStep s item).channel = none := by
  unfold readerStep
  rw [empty]
  rfl

theorem Tracked.reader {s : State} (tracked : Tracked s) (item : Inbound) :
    Tracked (readerStep s item) := by
  obtain ⟨point, forwarded, bytes, endOfData, reported, req⟩ := readerStep_frame s item
  obtain ⟨more, received, queue⟩ := readerStep_received s item
  refine ⟨?_, ?_, ?_, ?_, ?_⟩
  · intro fresh
    rw [point] at fresh
    exact readerStep_channel (tracked.fresh fresh) item
  · intro live
    rw [point] at live ⊢
    rw [received, forwarded, queue, tracked.flow live, List.append_assoc]
  · rw [bytes, forwarded]
    exact tracked.bytes
  · intro live early
    rw [point] at live early
    rw [endOfData]
    exact tracked.unsent live early
  · intro terminal ended done
    rw [point] at done
    have settled := tracked.settled terminal ended done
    refine ⟨?_, ?_, ?_⟩
    · rw [endOfData, reported, req]
      exact settled.known
    · rw [req]
      exact settled.verdict
    · intro body same
      obtain ⟨⟨rest, whole⟩, sent⟩ := settled.whole body same
      rw [received, forwarded]
      refine ⟨⟨rest ++ more, ?_⟩, sent⟩
      rw [whole, List.append_assoc, List.cons_append]

theorem tracked_step {s t : State} {label : Label} (tracked : Tracked s)
    (moved : step s label = some t) : Tracked t := by
  unfold step at moved
  split at moved
  · split_ifs at moved
    cases moved
    exact tracked.reader _
  · exact tracked.handler moved

theorem tracked_run {req : CopyRequest} {window : Credit} {labels : List Label} {s : State}
    (reached : run step (State.start req window) labels = some s) : Tracked s :=
  run_always step tracked_step (tracked_start req window) reached

end FerroEngine.CopyInSoundness
