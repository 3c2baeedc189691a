import FerroEngine.AutocommitExec

set_option autoImplicit false

/-! # The fate of an autocommit write

Which terminal a non-readonly statement gets, and what the backend has made of it.
-/

namespace FerroEngine.AutocommitFate

open LabelledRuns FateMapping SqlMessages AutocommitExec

/-! ## What a terminal promises -/

/-- A terminal with a known fate is that of a statement that was not applied. -/
structure FateSound (s : Exec) : Prop where
  known : ∀ payload, s.point = .done (.error payload) → payload.branch ≠ .indeterminate →
    s.effect = .notApplied
  undecided : ∀ terminal, s.point = .done terminal → s.sent = true → s.effect ≠ .notApplied →
    (∃ body, terminal = .ok body) ∨
      ∃ payload, terminal = .error payload ∧ payload.branch = .indeterminate

theorem fateSound_of_known {s : Exec}
    (known : ∀ payload, s.point = .done (.error payload) → payload.branch ≠ .indeterminate →
      s.effect = .notApplied) : FateSound s := by
  refine ⟨known, ?_⟩
  intro terminal ended _ moved
  cases terminal with
  | ok body => exact Or.inl ⟨body, rfl⟩
  | error payload =>
    refine Or.inr ⟨payload, rfl, ?_⟩
    by_contra settled
    exact moved (known payload ended settled)

/-- After the statement was sent, every error is the server's answer or a lost link, and every
frame fits. -/
def Clean (s : Exec) : Label → Prop
  | .answer (.ok result) queueUs execUs =>
    ∃ body, buildTerminalBody result s.fetch queueUs execUs = .ok body
  | .answer (.error err) _ _ | .openFails err | .rowFails err | .finished (.error err) _ =>
    s.sent = true → isAnswer err = true
  | .sends _ => s.frame.length ≤ maxFramePayload
  | _ => True

/-! ## The invariant -/

def isEarly : Point → Bool
  | .start | .checkout => true
  | _ => false

/-- The statement has been sent once its rows are read. -/
def isLate : Point → Bool
  | .sendingHead _ | .pulling | .sendingData _ _ | .finishing => true
  | _ => false

structure Tracked (s : Exec) : Prop where
  write : s.readonly = false
  unsent : s.sent = false → s.effect = .notApplied
  early : isEarly s.point = true → s.sent = false
  late : isLate s.point = true → s.sent = true
  known : ∀ payload, s.point = .done (.error payload) → payload.branch ≠ .indeterminate →
    s.effect = .notApplied

theorem tracked_start (fetch : Nat) : Tracked (Exec.start false fetch) :=
  ⟨rfl, fun _ => rfl, fun _ => rfl, fun late => (by cases late), fun _ ended => (by cases ended)⟩

/-- The handler moves on, before the statement's end. -/
theorem Tracked.moves {s t : Exec} (tracked : Tracked s) (write : t.readonly = s.readonly)
    (sent : t.sent = s.sent) (effect : t.effect = s.effect)
    (early : isEarly t.point = true → isEarly s.point = true)
    (late : isLate t.point = true → s.sent = true)
    (open' : ∀ payload, t.point ≠ .done (.error payload)) : Tracked t := by
  refine ⟨write.trans tracked.write, ?_, ?_, ?_, ?_⟩
  · intro unsent
    rw [effect]
    exact tracked.unsent (sent ▸ unsent)
  · intro waits
    rw [sent]
    exact tracked.early (early waits)
  · intro reads
    rw [sent]
    exact late reads
  · intro payload ended
    exact absurd ended (open' payload)

theorem Tracked.ends {s : Exec} (tracked : Tracked s) {terminal : Terminal}
    (known : ∀ payload, terminal = .error payload → payload.branch ≠ .indeterminate →
      s.effect = .notApplied) : Tracked (s.ends terminal) := by
  refine ⟨tracked.write, tracked.unsent, fun early => (by cases early), fun late => (by cases late),
    ?_⟩
  intro payload ended
  refine known payload ?_
  cases ended
  rfl

/-- Before the statement is sent every terminal is sound. -/
theorem Tracked.unsentEnds {s : Exec} (tracked : Tracked s) (unsent : s.sent = false)
    (terminal : Terminal) : Tracked (s.ends terminal) :=
  tracked.ends fun _ _ _ => tracked.unsent unsent

/-- An error that the engine raises itself once the statement has been sent. -/
theorem Tracked.sentError {s : Exec} (tracked : Tracked s) {err : PoolError}
    (clean : s.sent = true → isAnswer err = true ∧ isRefusal err = false) :
    Tracked (s.sentError err) := by
  refine tracked.ends ?_
  intro payload same settled
  cases sent : s.sent with
  | false => exact tracked.unsent sent
  | true =>
    obtain ⟨answer, unrefused⟩ := clean sent
    have open' := classifyFate_write answer unrefused
    cases same
    rw [sentContext, tracked.write] at settled
    exact absurd open' settled

/-- An error that the backend reports. -/
theorem Tracked.refusedBy {s t : Exec} (tracked : Tracked s) {err : PoolError}
    (clean : s.sent = true → isAnswer err = true)
    (moved : (s.refusedBy err).map (fun t => t.sentError err) = some t) : Tracked t := by
  unfold Exec.refusedBy at moved
  split_ifs at moved with refusal applied
  · cases moved
  · cases moved
    have settled : Tracked { s with effect := .notApplied } :=
      ⟨tracked.write, fun _ => rfl, tracked.early, tracked.late, fun _ _ _ => rfl⟩
    exact settled.ends fun _ _ _ => rfl
  · cases moved
    exact tracked.sentError fun sent => ⟨clean sent, Bool.not_eq_true _ ▸ refusal⟩

/-! ## Steps -/

theorem Tracked.backend {s t : Exec} (tracked : Tracked s) {label : Label}
    (moved : backendStep s label = some t) : Tracked t := by
  unfold backendStep at moved
  split at moved
  · split at moved
    · next stopped point =>
      split_ifs at moved
      cases moved
      refine ⟨tracked.write, fun unsent => (by cases unsent), ?_, fun _ => rfl, ?_⟩
      · intro early
        rw [point] at early
        cases early
      · intro payload ended
        rw [point] at ended
        cases ended
    · next point =>
      split_ifs at moved
      cases moved
      refine ⟨tracked.write, fun unsent => (by cases unsent), ?_, fun _ => rfl, ?_⟩
      · intro early
        rw [point] at early
        cases early
      · intro payload ended
        rw [point] at ended
        cases ended
    · cases moved
  · split_ifs at moved with unknown
    cases moved
    refine ⟨tracked.write, ?_, tracked.early, tracked.late, ?_⟩
    · intro unsent
      rw [tracked.unsent unsent] at unknown
      cases unknown
    · intro payload ended settled
      rw [tracked.known payload ended settled] at unknown
      cases unknown
  · cases moved

theorem Tracked.acquire {s t : Exec} (tracked : Tracked s) (point : s.point = .checkout)
    {label : Label} (moved : acquireStep s label = some t) : Tracked t := by
  have unsent : s.sent = false := tracked.early (by rw [point]; rfl)
  unfold acquireStep at moved
  split at moved
  · split_ifs at moved
    · cases moved
      exact tracked.moves rfl rfl rfl (fun early => (by cases early)) (fun late => (by cases late))
        fun _ => Point.noConfusion
    · cases moved
      exact tracked.moves rfl rfl rfl (fun early => (by cases early)) (fun late => (by cases late))
        fun _ => Point.noConfusion
    · cases moved
      exact tracked.unsentEnds unsent _
  · cases moved
    exact tracked.unsentEnds unsent _
  · split_ifs at moved
    cases moved
    exact tracked.unsentEnds unsent _
  · split_ifs at moved
    cases moved
    exact tracked.unsentEnds unsent _
  · cases moved

theorem Tracked.query {s t : Exec} (tracked : Tracked s) {label : Label} (clean : Clean s label)
    (moved : queryStep s label = some t) : Tracked t := by
  unfold queryStep at moved
  split at moved
  · cases moved
    exact tracked.moves rfl rfl rfl (fun early => (by cases early)) (fun late => (by cases late))
      fun _ => Point.noConfusion
  · cases moved
    exact tracked.moves rfl rfl rfl (fun early => (by cases early)) (fun late => (by cases late))
      fun _ => Point.noConfusion
  · split_ifs at moved
    cases moved
    obtain ⟨body, fits⟩ := clean
    unfold Exec.declareBufferedOk
    rw [fits]
    exact tracked.ends fun _ other => (by cases other)
  · exact tracked.refusedBy clean moved
  · cases moved

theorem streamCancelError_undecided :
    isAnswer streamCancelError = true ∧ isRefusal streamCancelError = false := by
  decide

theorem Tracked.openStep {s t : Exec} (tracked : Tracked s) {label : Label}
    (clean : Clean s label) (moved : openStep s label = some t) : Tracked t := by
  unfold AutocommitExec.openStep at moved
  split at moved
  · split_ifs at moved with sent
    cases moved
    exact tracked.moves rfl rfl rfl (fun early => (by cases early)) (fun _ => sent)
      fun _ => Point.noConfusion
  · exact tracked.refusedBy clean moved
  · cases moved
    exact tracked.sentError fun _ => streamCancelError_undecided
  · cases moved
    exact tracked.sentError fun _ => streamCancelError_undecided
  · cases moved

theorem Tracked.send {s t : Exec} (tracked : Tracked s) (late : isLate s.point = true)
    {label : Label} (clean : Clean s label) (moved : sendStep s label = some t) : Tracked t := by
  unfold sendStep at moved
  split at moved
  · next wait =>
    have fits : ¬maxFramePayload < s.frame.length := Nat.not_lt.mpr clean
    unfold sendStreamFrame at moved
    rw [if_neg fits] at moved
    cases wait with
    | ready =>
      cases moved
      refine tracked.moves rfl rfl rfl ?_ (fun _ => tracked.late late) ?_
      · intro early
        unfold Exec.afterSend at early
        simp only at early
        split at early
        · cases early
        · cases early
      · intro payload ended
        unfold Exec.afterSend at ended
        simp only at ended
        split at ended
        · cases ended
        · cases ended
    | aborted =>
      cases moved
      exact tracked.sentError fun _ => streamCancelError_undecided
    | linkLost =>
      cases moved
      exact tracked.sentError fun _ => ⟨rfl, rfl⟩
  · cases moved

theorem Tracked.pull {s t : Exec} (tracked : Tracked s) (point : s.point = .pulling)
    {label : Label} (clean : Clean s label) (moved : pullStep s label = some t) : Tracked t := by
  have late : isLate s.point = true := by rw [point]; rfl
  unfold pullStep at moved
  split at moved
  · cases moved
    unfold Exec.pushRow
    simp only
    split_ifs
    · exact tracked.moves rfl rfl rfl (fun early => (by cases early)) (fun _ => tracked.late late)
        fun _ => Point.noConfusion
    · refine tracked.moves rfl rfl rfl id (fun _ => tracked.late late) ?_
      intro payload ended
      exact absurd (point.symm.trans ended) Point.noConfusion
  · exact tracked.refusedBy clean moved
  · split_ifs at moved
    · cases moved
      exact tracked.moves rfl rfl rfl (fun early => (by cases early)) (fun _ => tracked.late late)
        fun _ => Point.noConfusion
    · cases moved
      exact tracked.moves rfl rfl rfl (fun early => (by cases early)) (fun _ => tracked.late late)
        fun _ => Point.noConfusion
  · cases moved
    exact tracked.sentError fun _ => streamCancelError_undecided
  · cases moved
    exact tracked.sentError fun _ => streamCancelError_undecided
  · cases moved

theorem Tracked.finish {s t : Exec} (tracked : Tracked s) {label : Label} (clean : Clean s label)
    (moved : finishStep s label = some t) : Tracked t := by
  unfold finishStep at moved
  split at moved
  · cases moved
    exact tracked.ends fun _ other => (by cases other)
  · exact tracked.refusedBy clean moved
  · cases moved

theorem Tracked.handler {s t : Exec} (tracked : Tracked s) {label : Label} (clean : Clean s label)
    (moved : handlerStep s label = some t) : Tracked t := by
  unfold handlerStep at moved
  split at moved
  · next point =>
    have unsent : s.sent = false := tracked.early (by rw [point]; rfl)
    split at moved
    · split at moved
      · cases moved
        refine tracked.moves rfl rfl rfl ?_ (fun late => (by cases late)) fun _ => Point.noConfusion
        intro _
        rw [point]
        rfl
      · cases moved
        exact tracked.unsentEnds unsent _
    · cases moved
  · next point => exact tracked.acquire point moved
  · exact tracked.query clean moved
  · exact tracked.openStep clean moved
  · next cols point => exact tracked.send (by rw [point]; rfl) clean moved
  · next rows last point => exact tracked.send (by rw [point]; rfl) clean moved
  · next point => exact tracked.pull point clean moved
  · exact tracked.finish clean moved
  · cases moved

theorem tracked_step {s t : Exec} {label : Label} (tracked : Tracked s) (clean : Clean s label)
    (moved : step s label = some t) : Tracked t := by
  unfold step at moved
  split at moved
  · exact tracked.backend moved
  · exact tracked.backend moved
  · exact tracked.handler clean moved

/-- In every run of a write whose steps are clean, every terminal is sound. -/
theorem fateSound_of_clean {fetch : Nat} {labels : List Label} {s : Exec}
    (clean : Meets step Clean (Exec.start false fetch) labels)
    (reached : run step (Exec.start false fetch) labels = some s) : FateSound s :=
  fateSound_of_known (run_invariant step tracked_step (tracked_start fetch) clean reached).known

/-! ## Two runs -/

def admitted : Admission :=
  { malformed := none, poolKnown := true, poolText := "\"default\"", statement := .ok (),
    streams := true }

/-- A streamed write whose second frame waits for credit until its deadline. -/
def stalledStream : List Label :=
  [.admission admitted, .acquired true, .dispatch, .apply, .opened [], .sends .ready,
    .row [.i64 1], .drained, .sends .aborted]

theorem fateSound_of_clean_on_sample :
    ∃ s, run step (Exec.start false fetchStream) stalledStream = some s ∧ s.effect = .applied ∧
      FateSound s := by
  have reached : run step (Exec.start false fetchStream) stalledStream =
      some ((run step (Exec.start false fetchStream) stalledStream).get rfl) := rfl
  have clean : Meets step Clean (Exec.start false fetchStream) stalledStream := by
    refine meets_cons step trivial rfl (meets_cons step trivial rfl (meets_cons step trivial rfl
      (meets_cons step trivial rfl (meets_cons step trivial rfl (meets_cons step ?_ rfl
        (meets_cons step trivial rfl (meets_cons step trivial rfl (meets_cons step ?_ rfl
          trivial))))))))
    · exact Nat.le_of_ble_eq_true rfl
    · exact Nat.le_of_ble_eq_true rfl
  exact ⟨_, reached, rfl, fateSound_of_clean clean reached⟩

theorem fixpointLoop_length {b : List UInt8} {row : List Value} (inRow : .bytes b ∈ row)
    (passes : Nat) (e : ExecOk) (body : List UInt8) (inRows : row ∈ e.rows)
    (long : b.length ≤ body.length) : b.length ≤ (fixpointLoop passes e body).length := by
  induction passes generalizing e body with
  | zero => exact long
  | succ passes ih =>
    unfold fixpointLoop
    split_ifs
    · exact long
    · refine ih _ _ inRows ?_
      have cells := bytes_le_encodeRows inRows inRow
      exact Nat.le_trans cells
        (encodeRows_le_encode { e with stats := { e.stats with bytes := body.length } })

/-- A result with a cell as long as a frame has no buffered terminal. -/
theorem buildTerminalBody_oversized {result : QueryResult} {row : List Value} {b : List UInt8}
    (inRows : row ∈ result.rows) (inRow : .bytes b ∈ row) (long : maxFramePayload ≤ b.length)
    (queueUs execUs : Nat) :
    buildTerminalBody result fetchRows queueUs execUs =
      .error (unsupported ("buffered result exceeds one frame; re-issue with fetch=stream to " ++
        "receive it incrementally over the DATA channel")) := by
  have body := fun e : ExecOk => fun kept : row ∈ e.rows =>
    fixpointLoop_length inRow 8 e e.encode kept
      (Nat.le_trans (bytes_le_encodeRows kept inRow) (encodeRows_le_encode e))
  unfold buildTerminalBody
  simp only
  rw [if_pos]
  have kept := body
    { cols := result.cols, rows := if fetchRows = fetchNone then [] else result.rows,
      affected := result.affected, lastInsertId := lastInsertIdValue result.lastInsertId,
      stats := { queueUs := queueUs, execUs := execUs,
                 rows := (if fetchRows = fetchNone then [] else result.rows).length, bytes := 0 } }
    inRows
  unfold encodeExecOkFixpoint outcomeOkOverhead
  omega

/-- An `INSERT .. RETURNING` that returns one cell. -/
def returning (b : List UInt8) : QueryResult :=
  { cols := [{ name := "body", tag := 7 }], rows := [[.bytes b]], affected := 1,
    lastInsertId := none }

def appliedInsert (b : List UInt8) : List Label :=
  [.admission admitted, .acquired true, .dispatch, .apply, .answer (.ok (returning b)) 0 0]

theorem appliedInsert_reaches (b : List UInt8) :
    ∃ s : Exec, s.effect = .applied ∧ s.fetch = fetchRows ∧
      run step (Exec.start false fetchRows) (appliedInsert b) =
        some (s.declareBufferedOk (returning b) 0 0) :=
  ⟨{ Exec.start false fetchRows with point := .query false, sent := true, effect := .applied },
    rfl, rfl, rfl⟩

theorem appliedInsert_denied {b : List UInt8} (long : maxFramePayload ≤ b.length) :
    ∃ s payload, run step (Exec.start false fetchRows) (appliedInsert b) = some s ∧
      s.point = .done (.error payload) ∧ payload.branch = .nonRetryable ∧ s.effect = .applied := by
  obtain ⟨s, applied, fetch, reached⟩ := appliedInsert_reaches b
  have oversized : buildTerminalBody (returning b) fetchRows 0 0 = .error _ :=
    buildTerminalBody_oversized (List.mem_singleton.mpr rfl) (List.mem_singleton.mpr rfl) long 0 0
  unfold Exec.declareBufferedOk at reached
  rw [fetch, oversized] at reached
  exact ⟨_, _, reached, rfl, rfl, applied⟩

/-- An applied write whose result does not fit one frame is reported as `Unsupported`. -/
theorem oversized_result_denies_applied_write :
    ∃ s, run step (Exec.start false fetchRows)
        (appliedInsert (List.replicate maxFramePayload 0)) = some s ∧ ¬FateSound s := by
  obtain ⟨s, payload, reached, ended, branch, applied⟩ :=
    appliedInsert_denied (Nat.le_of_eq (List.length_replicate (a := (0 : UInt8))).symm)
  refine ⟨s, reached, ?_⟩
  intro sound
  have settled := sound.known payload ended (by rw [branch]; exact Branch.noConfusion)
  rw [applied] at settled
  cases settled

end FerroEngine.AutocommitFate
