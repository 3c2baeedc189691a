import FerroEngine.QueueDelivery
import FerroEngine.QueueReplies
import FerroEngine.SqlMessages

set_option autoImplicit false

/-! # Replies to a RESERVE and the frame

The rows of the reserve statement as `decode_reserve` takes them, and the replies that a direct
reservation and the waker make of them.
-/

namespace FerroEngine.QueueReserveFrames

open SourceText QueueTable QueueReplies EndFrames
open QueueWaker QueueWaker.Waker QueueWakerSlots QueueDelivery
open SqlMessages (Value)
open AutocommitExec (maxFramePayload)

/-! ## Rows -/

def int : Value → Option Int
  | .i64 n => some n
  | _ => none

def decodeRow : List Value → Option Reserved
  | [id, attempts, createdAt, .text queue, .text payload, deadline] => do
    let a ← int attempts
    let c ← int createdAt
    let id ← int id
    let deadline ← int deadline
    if (-2 ^ 15 ≤ a ∧ a < 2 ^ 15) ∧ fitsInteger c ∧ 1 ≤ a then
      return { id := id
               token := Token.fromPg c a
               attempts := a
               queue := queue.toList
               payload := payload.toList
               createdAt := c
               leaseDeadline := deadline }
    else none
  | _ => none

/-- `pgq::decode_reserve`. -/
def decodeReserve (rows : List (List Value)) (limit : Nat) : Option (List Reserved) :=
  if limit < rows.length then none
  else do
    let out ← rows.mapM decodeRow
    let sorted := out.insertionSort fun a b => a.id ≤ b.id
    if (sorted.map (·.id)).Nodup then some sorted else none

/-- What the statement's `WHERE` and the column types say of a row that it returns. -/
structure Returned (queue : Text) (maxPayload : Nat) (row : List Value) : Prop where
  cells : ∃ id attempts createdAt payload deadline,
    row = [.i64 id, .i64 attempts, .i64 createdAt, .text (String.ofList queue),
      .text (String.ofList payload), .i64 deadline] ∧ isBigint id ∧ byteLen payload ≤ maxPayload

theorem decodeRow_admitted {queue : Text} {maxPayload : Nat} {row : List Value} {job : Reserved}
    (returned : Returned queue maxPayload row) (decoded : decodeRow row = some job) :
    Admitted queue maxPayload job ∧ isBigint job.id := by
  obtain ⟨id, attempts, createdAt, payload, deadline, rfl, range, small⟩ := returned
  simp only [decodeRow, int, Option.bind_eq_bind, Option.bind_some] at decoded
  split at decoded
  · rename_i checks
    cases decoded
    refine ⟨⟨String.toList_ofList, ?_, ?_⟩, range⟩
    · dsimp only
      rw [String.toList_ofList]
      exact small
    · have attemptsMax : attemptsCeiling = 32767 := rfl
      dsimp only
      omega
  · cases decoded

theorem mem_mapM {rows : List (List Value)} {out : List Reserved}
    (decoded : rows.mapM decodeRow = some out) :
    out.length = rows.length ∧ ∀ job ∈ out, ∃ row ∈ rows, decodeRow row = some job := by
  induction rows generalizing out with
  | nil =>
    cases decoded
    exact ⟨rfl, nofun⟩
  | cons row rows ih =>
    rw [List.mapM_cons] at decoded
    obtain ⟨first, taken, later⟩ := Option.bind_eq_some_iff.mp decoded
    obtain ⟨rest, more, same⟩ := Option.bind_eq_some_iff.mp later
    cases same
    obtain ⟨length, members⟩ := ih more
    refine ⟨by rw [List.length_cons, List.length_cons, length], ?_⟩
    intro job member
    obtain rfl | member := List.mem_cons.mp member
    · exact ⟨row, List.mem_cons_self, taken⟩
    · obtain ⟨other, among, source⟩ := members job member
      exact ⟨other, List.mem_cons_of_mem row among, source⟩

/-- What a list of jobs must be for a reply. -/
def InShare (maxPayload : Nat) (jobs : List Reserved) : Prop :=
  ∀ job ∈ jobs, (encodeReservedJob job).length ≤ maxPayload + sqlReservePerJob

theorem decodeReserve_inShare {queue : Text} {maxPayload limit : Nat} {rows : List (List Value)}
    {jobs : List Reserved} (named : queueName queue = true)
    (returned : ∀ row ∈ rows, Returned queue maxPayload row)
    (decoded : decodeReserve rows limit = some jobs) :
    jobs.length ≤ limit ∧ InShare maxPayload jobs := by
  unfold decodeReserve at decoded
  split at decoded
  · cases decoded
  · rename_i few
    obtain ⟨out, mapped, sorted⟩ := Option.bind_eq_some_iff.mp decoded
    obtain ⟨length, members⟩ := mem_mapM mapped
    dsimp only at sorted
    split at sorted
    · cases sorted
      refine ⟨by rw [List.length_insertionSort, length]; omega, ?_⟩
      intro job member
      obtain ⟨row, among, source⟩ := members job ((List.mem_insertionSort _).mp member)
      obtain ⟨admitted, range⟩ := decodeRow_admitted (returned row among) source
      exact encodeReservedJob_length_le named admitted range
    · cases sorted

/-! ## A direct reservation -/

/-- The loop over the queues of a request: the first that reserves anything answers alone. -/
def reserveQueues (limit : Nat) : List (List (List Value)) → Option (List Reserved)
  | [] => some []
  | rows :: later => do
    let jobs ← decodeReserve rows limit
    if jobs ≠ [] then return jobs else reserveQueues limit later

/-- The answers of the statements, each for its queue. -/
def Answers (maxPayload : Nat) (queues : List Text) (answers : List (List (List Value))) : Prop :=
  List.Forall₂ (fun queue rows => ∀ row ∈ rows, Returned queue maxPayload row) queues answers

theorem reserveQueues_inShare {queues : List Text} {maxPayload limit : Nat}
    {answers : List (List (List Value))} {jobs : List Reserved}
    (named : ∀ queue ∈ queues, queueName queue = true)
    (returned : Answers maxPayload queues answers)
    (decoded : reserveQueues limit answers = some jobs) :
    jobs.length ≤ limit ∧ InShare maxPayload jobs := by
  induction returned with
  | nil =>
    cases decoded
    exact ⟨Nat.zero_le limit, nofun⟩
  | cons rows later ih =>
    rw [reserveQueues] at decoded
    obtain ⟨first, taken, next⟩ := Option.bind_eq_some_iff.mp decoded
    split at next
    · cases next
      exact decodeReserve_inShare (named _ List.mem_cons_self) rows taken
    · exact ih (fun queue member => named queue (List.mem_cons_of_mem _ member)) next

theorem ok_fits {jobs : List Reserved} {maxPayload maxJobs : Nat}
    (configured : maxPayload ≤ maxPayloadBytesLimit)
    (clamped : jobs.length ≤ reserveLimit maxJobs maxPayload) (inShare : InShare maxPayload jobs)
    (stats : QueueStats) :
    (Outcome.ok (encodeReserve jobs stats)).encode.length ≤ maxFramePayload := by
  rw [encode_ok_length]
  exact encodeReserve_fits configured clamped inShare stats

/-! ## The capacity of a sweep -/

/-- `WAKER_SWEEP_BUDGET_BYTES`. -/
def wakerSweepBudgetBytes : Nat :=
  4 * maxFramePayload

def sweepCap (maxPayloadBytes : Nat) : Nat :=
  let perJob := maxPayloadBytes + sqlReservePerJob
  let fit := min (wakerSweepBudgetBytes / perJob) 65535
  max fit (reserveLimit 65535 maxPayloadBytes)

theorem reserveLimit_le (maxJobs maxPayload : Nat) :
    reserveLimit maxJobs maxPayload ≤ reserveLimit 65535 maxPayload := by
  unfold reserveLimit
  dsimp only
  omega

theorem sweepCap_range (maxPayload : Nat) :
    reserveLimit 65535 maxPayload ≤ sweepCap maxPayload ∧ sweepCap maxPayload ≤ 65535 := by
  have top : reserveLimit 65535 maxPayload ≤ 65535 := by
    unfold reserveLimit
    dsimp only
    omega
  unfold sweepCap
  dsimp only
  omega

theorem one_le_reserveLimit (maxPayload : Nat) : 1 ≤ reserveLimit 65535 maxPayload := by
  unfold reserveLimit
  dsimp only
  omega

section Sweeps

variable {Job Err : Type} {cap : Nat} {st st' : Waker Job Err}

/-- The summed clamps of a batch. -/
def demand (waiter : Nat → Waiter) (batch : List Nat) : Nat :=
  (batch.map fun id => (waiter id).clamp).sum

/-- A batch is some waiters whose clamps fit the capacity, and the statement's limit is their sum. -/
structure Covers (cap : Nat) (waiter : Nat → Waiter) (sweep : Sweep) : Prop where
  some_ : sweep.batch ≠ []
  limit : sweep.k = demand waiter sweep.batch
  fits : sweep.k ≤ cap

theorem collect_demand (registered : Nat → Bool) (queue : Queue) (now : Nat)
    {waiter : Nat → Waiter} (clamps : ∀ id, (waiter id).clamp ≤ cap) (fifo : List Nat) :
    ∀ (h : Hall Job Err) (batch : List Nat) (k : Nat) (owed : Bool),
      h.waiter = waiter → k = demand waiter batch → k ≤ cap →
      (collect cap registered queue now fifo h batch k owed).2.2.1 =
          demand waiter (collect cap registered queue now fifo h batch k owed).2.1 ∧
        (collect cap registered queue now fifo h batch k owed).2.2.1 ≤ cap := by
  induction fifo with
  | nil => exact fun h batch k owed same sum small => ⟨sum, small⟩
  | cons id rest ih =>
    intro h batch k owed same sum small
    have locked : h.lock.waiter = waiter :=
      (moves_waiter (moves_lock h : Moves 0 h [] h.lock)).trans same
    unfold collect
    dsimp only
    split_ifs with known eligible full
    · exact ⟨sum, small⟩
    · rw [locked] at full ⊢
      have room : k + (waiter id).clamp ≤ cap := by
        by_cases none : batch = []
        · have zero : k = 0 := by
            rw [sum, none]
            rfl
          have own := clamps id
          omega
        · exact Nat.not_lt.mp fun more => full ⟨none, more⟩
      have more : k + (waiter id).clamp = demand waiter (batch ++ [id]) := by
        unfold demand at sum ⊢
        rw [List.map_append, List.sum_append, ← sum]
        rfl
      exact ih _ _ _ _ locked more room
    · exact ih _ _ _ _ locked sum small
    · exact ih _ _ _ _ same sum small

/-- What a part of the waker does to the queues and the sweeps: it makes no queue, and every sweep
that it starts is of a queue and within the capacity. -/
structure Steady (cap : Nat) (st st' : Waker Job Err) : Prop where
  waiter : st'.hall.waiter = st.hall.waiter
  completed : st'.completed = st.completed
  queues : ∀ q, st'.queues q ≠ none → st.queues q ≠ none
  sweeps : ∀ sweep ∈ st'.sweeps, sweep ∈ st.sweeps ∨
    st.queues sweep.queue ≠ none ∧ Covers cap st.hall.waiter sweep

theorem Steady.refl (st : Waker Job Err) : Steady cap st st :=
  ⟨rfl, rfl, fun _ known => known, fun _ among => .inl among⟩

theorem Steady.trans {st'' : Waker Job Err} (first : Steady cap st st')
    (second : Steady cap st' st'') : Steady cap st st'' where
  waiter := second.waiter.trans first.waiter
  completed := second.completed.trans first.completed
  queues q known := first.queues q (second.queues q known)
  sweeps sweep among := by
    obtain old | ⟨known, covers⟩ := second.sweeps sweep among
    · exact first.sweeps sweep old
    · rw [first.waiter] at covers
      exact .inr ⟨first.queues _ known, covers⟩

theorem steady_foldl {α : Type} {f : Waker Job Err → α → Waker Job Err}
    {Good : (Nat → Waiter) → Prop}
    (turn : ∀ st a, Good st.hall.waiter → Steady cap st (f st a)) (items : List α)
    (st : Waker Job Err) (good : Good st.hall.waiter) : Steady cap st (items.foldl f st) := by
  induction items generalizing st with
  | nil => exact Steady.refl st
  | cons a items ih =>
    have first := turn st a good
    refine first.trans (ih _ ?_)
    rw [first.waiter]
    exact good

theorem steady_setHall {h : Hall Job Err} (same : h.waiter = st.hall.waiter) :
    Steady cap st (st.setHall h) :=
  ⟨same, rfl, fun _ known => known, fun _ among => .inl among⟩

theorem steady_setQueue {queue : Queue} {qs : QueueState} (known : st.queues queue ≠ none) :
    Steady cap st (st.setQueue queue qs) := by
  refine ⟨rfl, rfl, ?_, fun _ among => .inl among⟩
  intro q found
  by_cases here : q = queue
  · rw [here]
    exact known
  · have same : (st.setQueue queue qs).queues q = st.queues q := Function.update_of_ne here _ _
    rw [same] at found
    exact found

/-- The clamps of the waiters fit a capacity of 16 bits. -/
def Roomy (cap : Nat) (waiter : Nat → Waiter) : Prop :=
  cap ≤ 65535 ∧ ∀ id, (waiter id).clamp ≤ cap

theorem steady_startSweep (queue : Queue) (trigger : Trigger) (roomy : Roomy cap st.hall.waiter) :
    Steady cap st (st.startSweep cap queue trigger) := by
  unfold startSweep
  by_cases ready : st.bound = true
  · rw [if_pos ready]
    cases known : st.queues queue with
    | none => exact Steady.refl st
    | some qs =>
      have waiters := moves_waiter (moves_collect qs.fifo st.hall [] 0 false :
        Moves 0 st.hall [] (collect cap st.registered queue st.hall.now qs.fifo st.hall [] 0 false).1)
      have demanded := collect_demand st.registered queue st.hall.now roomy.2 qs.fifo st.hall [] 0
        false rfl rfl (Nat.zero_le cap)
      dsimp only
      generalize collect cap st.registered queue st.hall.now qs.fifo st.hall [] 0 false =
        collected at waiters demanded ⊢
      obtain ⟨h, batch, k, owed⟩ := collected
      dsimp only at waiters demanded ⊢
      have exists_ : (st.setHall h).queues queue ≠ none := by
        change st.queues queue ≠ none
        rw [known]
        exact nofun
      by_cases nobody : batch = []
      · rw [if_pos nobody]
        exact (steady_setHall waiters).trans (steady_setQueue exists_)
      · rw [if_neg nobody]
        have marked : Steady cap st ((st.setHall h).setQueue queue
            { qs with
              pending := none
              inFlight := true }) :=
          (steady_setHall waiters).trans (steady_setQueue exists_)
        refine ⟨marked.waiter, rfl, marked.queues, ?_⟩
        intro sweep among
        obtain old | new := List.mem_append.mp among
        · exact .inl old
        · rw [List.mem_singleton.mp new]
          have small := roomy.1
          have limit : min k 65535 = k := by omega
          refine .inr ⟨exists_, nobody, ?_, ?_⟩
          · exact limit.trans demanded.1
          · exact limit.le.trans demanded.2
  · rw [if_neg ready]
    exact Steady.refl st

theorem steady_triggerLocked (queue : Queue) (trigger : Trigger)
    (roomy : Roomy cap st.hall.waiter) : Steady cap st (st.triggerLocked cap queue trigger) := by
  unfold triggerLocked
  cases known : st.queues queue with
  | none => exact Steady.refl st
  | some qs =>
    dsimp only
    split
    · exact steady_setQueue (by rw [known]; exact nofun)
    · exact steady_startSweep queue trigger roomy

theorem steady_runDeferred (queue : Queue) (roomy : Roomy cap st.hall.waiter) :
    Steady cap st (st.runDeferred cap queue) := by
  unfold runDeferred
  split
  · rename_i fifo t known
    have cleared : Steady cap st
        (st.setQueue queue { fifo := fifo, inFlight := false, pending := none }) :=
      steady_setQueue (by rw [known]; exact nofun)
    exact cleared.trans (steady_startSweep queue t roomy)
  · exact Steady.refl st

theorem steady_forget (queue : Queue) :
    Steady cap st { st with queues := Function.update st.queues queue none } := by
  refine ⟨rfl, rfl, ?_, fun _ among => .inl among⟩
  intro q found
  by_cases here : q = queue
  · dsimp only at found
    rw [here, Function.update_self] at found
    exact absurd rfl found
  · dsimp only at found
    rw [Function.update_of_ne here] at found
    exact found

theorem steady_followUp (queue : Queue) (nextArrivals freed : List Queue)
    (roomy : Roomy cap st.hall.waiter) :
    Steady cap st (st.followUp cap queue nextArrivals freed) := by
  unfold followUp
  extract_lets first second third
  have one : Steady cap st first := by
    unfold first
    split
    · rename_i fifo inFlight t known
      have cleared : Steady cap st
          (st.setQueue queue { fifo := fifo, inFlight := inFlight, pending := none }) :=
        steady_setQueue (by rw [known]; exact nofun)
      exact cleared.trans (steady_startSweep queue t roomy)
    · exact Steady.refl st
  have roomyOne : Roomy cap first.hall.waiter := one.waiter ▸ roomy
  have two : Steady cap first second :=
    steady_foldl (fun st q room => steady_triggerLocked q .arrival room) nextArrivals first roomyOne
  have roomyTwo : Roomy cap second.hall.waiter := two.waiter ▸ roomyOne
  have three : Steady cap second third :=
    steady_foldl (fun st q room => steady_runDeferred q room) (sortDedup freed) second roomyTwo
  refine (one.trans two).trans (three.trans ?_)
  split
  · exact steady_forget queue
  · exact Steady.refl third

theorem steady_pollOne (now : Nat) (r : Waker Job Err × List Queue) (queue : Queue) :
    Steady cap r.1 (pollOne now r queue).1 := by
  unfold pollOne
  split
  · rename_i fifo pending known
    exact steady_setHall (moves_waiter (moves_anyEligible fifo r.1.hall : Moves 0 _ [] _))
  · exact Steady.refl r.1

theorem steady_pollAll (now : Nat) (order : List Queue) (roomy : Roomy cap st.hall.waiter) :
    Steady cap st (st.pollAll cap now order) := by
  have walk : ∀ r : Waker Job Err × List Queue,
      Steady cap r.1 (order.foldl (pollOne now) r).1 := by
    induction order with
    | nil => exact fun r => Steady.refl r.1
    | cons queue order ih => exact fun r => (steady_pollOne now r queue).trans (ih _)
  unfold pollAll
  have walked := walk (st, [])
  generalize order.foldl (pollOne now) (st, []) = r at walked ⊢
  refine walked.trans (steady_foldl (fun st q room => steady_startSweep q .interval room) r.2 r.1 ?_)
  rw [walked.waiter]
  exact roomy

theorem steady_land (queue : Queue) (pending : Option Trigger → Option Trigger) :
    Steady cap st (st.land queue pending) := by
  unfold land
  cases known : st.queues queue with
  | none => exact Steady.refl st
  | some qs => exact steady_setQueue (by rw [known]; exact nofun)

theorem steady_unreserve (jobs : List Job) (cause : UnreserveCause) :
    Steady cap st (st.unreserve jobs cause) := by
  unfold Waker.unreserve
  split
  · exact Steady.refl st
  · exact ⟨rfl, rfl, fun _ known => known, fun _ among => .inl among⟩

/-- A completed sweep, up to the note of its completion. -/
theorem steady_complete {sweep : Sweep} (settled : Settled st) (running : sweep ∈ st.sweeps)
    (read : Nat) (outcome : SweepOutcome Job Err) (roomy : Roomy cap st.hall.waiter) :
    ∃ mid c, Steady cap st mid ∧ c.outcome = outcome ∧
      st.complete cap sweep read outcome = { mid with completed := mid.completed ++ [c] } := by
  have batch := settled.orderly.batch sweep running
  have fifo := settled.orderly.fifo sweep.queue
  have off : Steady cap st { st with sweeps := st.sweeps.filter (· ≠ sweep) } :=
    ⟨rfl, rfl, fun _ known => known, fun _ among => .inl (List.mem_of_mem_filter among)⟩
  unfold complete
  cases outcome with
  | answered jobs =>
    dsimp only
    have handed := serves_handOut { st with sweeps := st.sweeps.filter (· ≠ sweep) } sweep jobs
      read settled.orderly.clamps batch fifo
    generalize handOut { st with sweeps := st.sweeps.filter (· ≠ sweep) } sweep jobs read = r
      at handed ⊢
    have served := off.trans (steady_setHall (moves_waiter handed.1))
    have landed := served.trans (steady_land sweep.queue fun pending =>
      if decide (sweep.k ≤ jobs.length) then pending <|> some .refill else pending)
    have followed := landed.trans
      (steady_followUp sweep.queue r.nextArrivals r.freed (landed.waiter ▸ roomy))
    exact ⟨_, _, followed.trans (steady_unreserve r.jobs _), rfl, rfl⟩
  | failed reserved error =>
    dsimp only
    have moved := moves_dismiss { st with sweeps := st.sweeps.filter (· ≠ sweep) } sweep error
      batch fifo
    have served := off.trans (steady_setHall (moves_waiter moved))
    have landed := served.trans (steady_land sweep.queue fun _ => none)
    have followed := landed.trans
      (steady_followUp sweep.queue [] [] (landed.waiter ▸ roomy))
    exact ⟨_, _, followed, rfl, rfl⟩

theorem steady_deregister (id : Nat) : Steady cap st (st.deregister id) := by
  refine ⟨rfl, rfl, ?_, fun _ among => .inl among⟩
  intro q found none
  apply found
  unfold deregister
  dsimp only
  rw [none]
  rfl

theorem steady_answer (id : Nat) (live : Bool) (outcome : WaitOutcome Job Err) :
    Steady cap st (st.answer id live outcome) := by
  unfold answer
  split
  · split
    · exact ⟨rfl, rfl, fun _ known => known, fun _ among => .inl among⟩
    · exact (steady_unreserve _ .teardown).trans
        ⟨rfl, rfl, fun _ known => known, fun _ among => .inl among⟩
  all_goals exact Steady.refl st

end Sweeps

/-! ## Runs -/

section Runs

variable {Err : Type} {maxPayload : Nat} {st st' : Waker Reserved Err}

/-- A waiter is registered with a checked request's queues and clamp, and a sweep's statement
answers with rows of its queue. -/
def Reserving (maxPayload : Nat) : Event Reserved Err → Prop
  | .register queues clamp _ _ =>
    (∀ q ∈ queues, queueName q = true) ∧ ∃ maxJobs, clamp = reserveLimit maxJobs maxPayload
  | .complete sweep _ (.answered jobs) =>
    ∃ rows, (∀ row ∈ rows, Returned sweep.queue maxPayload row) ∧
      decodeReserve rows sweep.k = some jobs
  | _ => True

/-- What holds of the waiters, the queues, the sweeps and the jobs of a store's waker. -/
structure Capped (maxPayload : Nat) (st : Waker Reserved Err) : Prop where
  clamps : ∀ id, (st.hall.waiter id).clamp ≤ reserveLimit 65535 maxPayload
  named : ∀ q, st.queues q ≠ none → queueName q = true
  sweeps : ∀ sweep ∈ st.sweeps, queueName sweep.queue = true ∧
    Covers (sweepCap maxPayload) st.hall.waiter sweep
  completed : ∀ c ∈ st.completed, ∀ jobs, c.outcome = .answered jobs → InShare maxPayload jobs

theorem Capped.roomy (capped : Capped maxPayload st) :
    Roomy (sweepCap maxPayload) st.hall.waiter := by
  obtain ⟨low, high⟩ := sweepCap_range maxPayload
  exact ⟨high, fun id => (capped.clamps id).trans low⟩

theorem Capped.steady (capped : Capped maxPayload st)
    (steady : Steady (sweepCap maxPayload) st st') : Capped maxPayload st' where
  clamps id := by
    rw [steady.waiter]
    exact capped.clamps id
  named q known := capped.named q (steady.queues q known)
  sweeps sweep among := by
    rw [steady.waiter]
    obtain old | ⟨known, covers⟩ := steady.sweeps sweep among
    · exact capped.sweeps sweep old
    · exact ⟨capped.named _ known, covers⟩
  completed c among := by
    rw [steady.completed] at among
    exact capped.completed c among

theorem demand_update {waiter : Nat → Waiter} {batch : List Nat} {next : Nat} (w : Waiter)
    (low : ∀ id ∈ batch, Issued next id) :
    demand (Function.update waiter next w) batch = demand waiter batch := by
  unfold demand
  congr 1
  apply List.map_congr_left
  intro id among
  rw [Function.update_of_ne (Nat.ne_of_lt (low id among).2)]

theorem Capped.entering {queues : List Queue} {clamp waitEnd hardEnd : Nat}
    (capped : Capped maxPayload st) (orderly : Orderly st)
    (named : ∀ q ∈ queues, queueName q = true)
    (small : clamp ≤ reserveLimit 65535 maxPayload) :
    Capped maxPayload (QueueDelivery.entering st queues.eraseDups clamp waitEnd hardEnd) where
  clamps id := by
    have one := one_le_reserveLimit maxPayload
    change (Function.update st.hall.waiter st.nextId _ id).clamp ≤ _
    by_cases new : id = st.nextId
    · rw [new, Function.update_self]
      exact max_le small one
    · rw [Function.update_of_ne new]
      exact capped.clamps id
  named q known := by
    by_cases new : q ∈ queues.eraseDups
    · exact named q (List.mem_eraseDups.mp new)
    · apply capped.named q
      intro none
      apply known
      unfold QueueDelivery.entering
      dsimp only
      rw [if_neg new, none]
  sweeps sweep among := by
    obtain ⟨name, some_, limit, fits⟩ := capped.sweeps sweep among
    refine ⟨name, some_, ?_, fits⟩
    change _ = demand (Function.update st.hall.waiter st.nextId _) sweep.batch
    rw [demand_update _ (orderly.batch sweep among)]
    exact limit
  completed := capped.completed

theorem Capped.register {queues : List Queue} {clamp waitEnd hardEnd : Nat}
    (capped : Capped maxPayload st) (orderly : Orderly st)
    (named : ∀ q ∈ queues, queueName q = true)
    (small : clamp ≤ reserveLimit 65535 maxPayload) :
    Capped maxPayload (st.register (sweepCap maxPayload) queues clamp waitEnd hardEnd) := by
  have entered : Capped maxPayload (QueueDelivery.entering st queues.eraseDups clamp waitEnd hardEnd) :=
    capped.entering orderly named small
  unfold Waker.register
  dsimp only
  cases known : queues.eraseDups with
  | nil =>
    rw [known] at entered
    exact entered
  | cons first rest =>
    rw [known] at entered
    exact entered.steady (steady_triggerLocked first .arrival entered.roomy)

theorem Capped.complete {sweep : Sweep} {read : Nat} {outcome : SweepOutcome Reserved Err}
    (capped : Capped maxPayload st) (settled : Settled st) (running : sweep ∈ st.sweeps)
    (reserving : Reserving maxPayload (.complete sweep read outcome)) :
    Capped maxPayload (st.complete (sweepCap maxPayload) sweep read outcome) := by
  obtain ⟨mid, c, steady, same, shape⟩ :=
    steady_complete settled running read outcome capped.roomy
  have kept := capped.steady steady
  rw [shape]
  refine ⟨kept.clamps, kept.named, kept.sweeps, ?_⟩
  intro d among jobs answered
  obtain old | new := List.mem_append.mp among
  · exact kept.completed d old jobs answered
  · rw [List.mem_singleton.mp new, same] at answered
    rw [answered] at reserving
    obtain ⟨rows, returned, decoded⟩ := reserving
    exact (decodeReserve_inShare (capped.sweeps sweep running).1 returned decoded).2

theorem Capped.step {before after : Waker Reserved Err}
    {label : List (List Nudge) × Event Reserved Err} (capped : Capped maxPayload before)
    (settled : Settled before) (reserving : Reserving maxPayload label.2)
    (taken : step (sweepCap maxPayload) before label = some after) : Capped maxPayload after := by
  obtain ⟨bursts, event⟩ := label
  have ready : Settled (before.setHall { before.hall with bursts := bursts }) :=
    settled.quiet (quiet_setHall fun N => .bursts bursts .stay)
  have start : Capped maxPayload (before.setHall { before.hall with bursts := bursts }) :=
    capped.steady (steady_setHall rfl)
  have roomy := start.roomy
  unfold Waker.step at taken
  dsimp only at taken reserving
  generalize before.setHall { before.hall with bursts := bursts } = st at ready start roomy taken
  cases event with
  | bind =>
    cases taken
    exact start.steady ⟨rfl, rfl, fun _ known => known, fun _ among => .inl among⟩
  | register queues clamp waitEnd hardEnd =>
    dsimp only at taken
    split_ifs at taken
    cases taken
    obtain ⟨named, maxJobs, rfl⟩ := reserving
    exact start.register ready.orderly named (reserveLimit_le maxJobs maxPayload)
  | hint queue =>
    cases taken
    exact start.steady (steady_triggerLocked queue .hint roomy)
  | poll read order =>
    dsimp only at taken
    split_ifs at taken
    cases taken
    exact start.steady (steady_pollAll read order roomy)
  | complete sweep read outcome =>
    dsimp only at taken
    split_ifs at taken with allowed
    cases taken
    exact start.complete ready allowed.2 reserving
  | nudge nudge =>
    cases taken
    exact start.steady (steady_setHall (moves_waiter (.nudge nudge .stay : Moves 0 st.hall [] _)))
  | deregister id =>
    dsimp only at taken
    cases place : st.hall.handler id with
    | returned outcome =>
      rw [place] at taken
      cases taken
      exact start.steady ((steady_deregister id).trans (steady_setHall rfl))
    | waiting | leaving | gone =>
      rw [place] at taken
      cases taken
  | handOff id live =>
    dsimp only at taken
    cases place : st.hall.handler id with
    | leaving outcome =>
      rw [place] at taken
      cases taken
      have done : Capped maxPayload (st.setHall
          { st.hall with handler := Function.update st.hall.handler id .gone }) :=
        start.steady (steady_setHall rfl)
      exact done.steady (steady_answer id live outcome)
    | waiting | returned | gone =>
      rw [place] at taken
      cases taken

theorem capped_init : Capped maxPayload (init : Waker Reserved Err) where
  clamps _ := one_le_reserveLimit maxPayload
  named _ known := absurd rfl known
  sweeps _ among := by cases among
  completed _ among := by cases among

theorem capped_run {labels : List (List (List Nudge) × Event Reserved Err)}
    (reserving : ∀ label ∈ labels, Reserving maxPayload label.2)
    (reached : run (sweepCap maxPayload) init labels = some st) : Capped maxPayload st := by
  have both : Settled st ∧ Capped maxPayload st := by
    refine @LabelledRuns.run_invariant _ _ (step (sweepCap maxPayload))
      (fun _ label => Reserving maxPayload label.2)
      (fun st => Settled st ∧ Capped maxPayload st) ?_ _ _ _ ⟨settled_init, capped_init⟩ ?_ reached
    · intro s t a holds condition taken
      exact ⟨holds.1.step taken, holds.2.step holds.1 condition taken⟩
    · exact LabelledRuns.meets_of_forall _ (fun a among _ => reserving a among) _
  exact both.2

/-- Every offer of jobs makes a reply that fits. -/
theorem gift_fits (configured : maxPayload ≤ maxPayloadBytesLimit) (settled : Settled st)
    (capped : Capped maxPayload st) {id : Nat} {mine : List Reserved}
    (given : (id, mine) ∈ gifts st) (stats : QueueStats) :
    (Outcome.ok (encodeReserve mine stats)).encode.length ≤ maxFramePayload := by
  obtain ⟨c, among, offered⟩ := List.mem_flatMap.mp given
  have accounted := settled.ledger c among
  have size := (accounted.offers id mine offered).2.2
  refine ok_fits configured (size.trans (capped.clamps id)) ?_ stats
  cases outcome : c.outcome with
  | answered jobs =>
    intro job member
    apply capped.completed c among jobs outcome
    rw [accounted.partition jobs outcome]
    exact List.mem_append_left _ (List.mem_flatMap.mpr ⟨(id, mine), offered, member⟩)
  | failed reserved error =>
    rw [(accounted.failed reserved error outcome).1] at offered
    cases offered

/-- The replies to a RESERVE fit their frames and a sweep serves its first waiter whole. -/
structure RepliesFit (maxPayload : Nat) (Err : Type) : Prop where
  direct : ∀ maxJobs queues answers jobs stats, (∀ queue ∈ queues, queueName queue = true) →
    Answers maxPayload queues answers →
    reserveQueues (reserveLimit maxJobs maxPayload) answers = some jobs →
    (Outcome.ok (encodeReserve jobs stats)).encode.length ≤ maxFramePayload
  /-- In every run of the waker: an offer of a sweep's jobs, to its batch or to others. -/
  offered : ∀ labels (st : Waker Reserved Err),
    (∀ label ∈ labels, Reserving maxPayload label.2) →
    run (sweepCap maxPayload) init labels = some st →
    ∀ id mine stats, (id, mine) ∈ gifts st ∨ (id, mine) ∈ st.delivered →
      (Outcome.ok (encodeReserve mine stats)).encode.length ≤ maxFramePayload
  first : ∀ labels (st : Waker Reserved Err),
    (∀ label ∈ labels, Reserving maxPayload label.2) →
    run (sweepCap maxPayload) init labels = some st →
    ∀ sweep ∈ st.sweeps, ∃ id rest, sweep.batch = id :: rest ∧
      (st.hall.waiter id).clamp ≤ sweep.k ∧ sweep.k ≤ sweepCap maxPayload

theorem reserveReplies_fit (Err : Type) (maxPayload : Nat)
    (configured : maxPayload ≤ maxPayloadBytesLimit) : RepliesFit maxPayload Err where
  direct maxJobs queues answers jobs stats named returned decoded := by
    obtain ⟨size, inShare⟩ := reserveQueues_inShare named returned decoded
    exact ok_fits configured size inShare stats
  offered labels st reserving reached id mine stats given := by
    have settled := settled_run reached
    have capped := capped_run reserving reached
    obtain gift | delivered := given
    · exact gift_fits configured settled capped gift stats
    · have places := (settled.sound id).places
      unfold passed at places
      rw [entries_append] at places
      have entry : mine ∈ entries (gifts st) id := by
        rw [places]
        exact List.mem_append_right _ (List.mem_append_left _ (mem_entries.mpr delivered))
      exact gift_fits configured settled capped (mem_entries.mp entry) stats
  first labels st reserving reached sweep among := by
    obtain ⟨-, some_, limit, fits⟩ := (capped_run reserving reached).sweeps sweep among
    cases batch : sweep.batch with
    | nil => exact absurd batch some_
    | cons id rest =>
      refine ⟨id, rest, rfl, ?_, fits⟩
      rw [limit, batch, demand, List.map_cons, List.sum_cons]
      omega

end Runs

/-- A row of the queue `work` and its job. -/
def sampleRow : List Value :=
  [.i64 7, .i64 1, .i64 100, .text (String.ofList work), .text (String.ofList ['1']), .i64 200]

def sampleJob : Reserved :=
  { id := 7
    token := Token.fromPg 100 1
    attempts := 1
    queue := work
    payload := ['1']
    createdAt := 100
    leaseDeadline := 200 }

/-- A waiter of two jobs is offered the one that its sweep reserved. -/
def sampleSweep : List (List (List Nudge) × Event Reserved Unit) :=
  [([], .bind),
    ([], .register [work] (reserveLimit 2 4194304) 100 110),
    ([], .complete { number := 0, queue := work, batch := [1], k := 2 } 0 (.answered [sampleJob]))]

theorem reserveReplies_fit_sample :
    ∃ st : Waker Reserved Unit, run (sweepCap 4194304) init sampleSweep = some st ∧
      gifts st = [(1, [sampleJob])] ∧
      ∀ stats, (Outcome.ok (encodeReserve [sampleJob] stats)).encode.length ≤ maxFramePayload := by
  have reached : run (sweepCap 4194304) init sampleSweep =
      some ((run (sweepCap 4194304) init sampleSweep).get rfl) := rfl
  have given : gifts ((run (sweepCap 4194304) init sampleSweep).get rfl) = [(1, [sampleJob])] := rfl
  have fit := reserveReplies_fit Unit 4194304 (by decide)
  refine ⟨_, reached, given, fun stats => fit.offered sampleSweep _ ?_ reached 1 _ stats
    (.inl (by rw [given]; exact List.mem_cons_self))⟩
  intro label among
  simp only [sampleSweep, List.mem_cons, List.not_mem_nil, or_false] at among
  obtain rfl | rfl | rfl := among
  · trivial
  · refine ⟨?_, 2, rfl⟩
    intro q member
    rw [List.mem_singleton.mp member]
    decide
  · refine ⟨[sampleRow], ?_, rfl⟩
    intro row member
    rw [List.mem_singleton.mp member]
    exact ⟨7, 1, 100, ['1'], 200, rfl, by unfold isBigint; omega, by decide⟩

end FerroEngine.QueueReserveFrames
