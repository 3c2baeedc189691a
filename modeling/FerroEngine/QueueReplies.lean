import FerroEngine.EndFrames
import FerroEngine.QueueTable

set_option autoImplicit false

/-! # Replies of the queue service

The success bodies of `messages/queue.rs`, and the clamp of `checks.rs` that keeps the reply to a
RESERVE inside one frame.
-/

namespace FerroEngine.QueueReplies

open MessagePack SourceText QueueTable EndFrames
open AutocommitExec (maxFramePayload)

/-! ## The clamp -/

def queueNameMaxChars : Nat := 255

/-- `checks::queue_name`. -/
def queueName (name : Text) : Bool :=
  decide (1 ≤ name.length) && decide (name.length ≤ queueNameMaxChars) && !name.contains '\x00'

def jobIdMaxEncodedLen : Nat := 20

def tokenEncodedLen : Nat := 8

def sqlReserveFixed : Nat :=
  let outcome := 2
  let response := 1 + 5
  let stats := 1 + 9 + 9
  outcome + response + stats

def sqlReservePerJob : Nat :=
  let job := 1
  let jobId := 2 + jobIdMaxEncodedLen
  let token := 2 + tokenEncodedLen
  let attempts := 5
  let queue := 3 + queueNameMaxChars * 4
  let payloadHeader := 5
  let times := 9 + 9
  job + jobId + token + attempts + queue + payloadHeader + times

def sqlReserveEnvelope : Nat :=
  sqlReserveFixed + sqlReservePerJob

def maxPayloadBytesLimit : Nat :=
  maxFramePayload - sqlReserveEnvelope

/-- The quotient is cast to 16 bits, saturating. -/
def reserveLimit (maxJobs maxPayloadBytes : Nat) : Nat :=
  let room := maxFramePayload - sqlReserveFixed
  let fit := room / (maxPayloadBytes + sqlReservePerJob)
  min maxJobs (max (min fit 65535) 1)

/-- As many jobs as the clamp admits fit beside the fixed part. -/
theorem reserveLimit_mul_le {maxPayloadBytes : Nat} (maxJobs : Nat)
    (configured : maxPayloadBytes ≤ maxPayloadBytesLimit) :
    reserveLimit maxJobs maxPayloadBytes * (maxPayloadBytes + sqlReservePerJob) + sqlReserveFixed ≤
      maxFramePayload := by
  have fixed : sqlReserveFixed ≤ maxFramePayload := by decide
  have one : maxPayloadBytes + sqlReservePerJob ≤ maxFramePayload - sqlReserveFixed := by
    have envelope : sqlReserveEnvelope ≤ maxFramePayload := by decide
    rw [maxPayloadBytesLimit] at configured
    rw [sqlReserveEnvelope] at configured envelope
    omega
  have positive : 0 < maxPayloadBytes + sqlReservePerJob :=
    Nat.lt_of_lt_of_le (by decide) (Nat.le_add_left sqlReservePerJob maxPayloadBytes)
  have limit : reserveLimit maxJobs maxPayloadBytes ≤
      (maxFramePayload - sqlReserveFixed) / (maxPayloadBytes + sqlReservePerJob) := by
    have atLeast : 1 ≤ (maxFramePayload - sqlReserveFixed) /
        (maxPayloadBytes + sqlReservePerJob) := (Nat.one_le_div_iff positive).mpr one
    dsimp only [reserveLimit]
    omega
  have product := Nat.mul_le_of_le_div _ _ _ limit
  omega

/-! ## Bodies -/

structure QueueStats where
  queueUs : Nat
  execUs : Nat
  deriving DecidableEq, Repr

def QueueStats.encode (s : QueueStats) : List UInt8 :=
  writeArrayLen 2 ++ writeUint s.queueUs ++ writeUint s.execUs

def encodeJobId (id : JobId) : List UInt8 :=
  (toString id).toUTF8.toList

def encodeToken (token : Token) : List UInt8 :=
  token.encode.map UInt8.ofBitVec

def encodeReservedJob (j : Reserved) : List UInt8 :=
  writeArrayLen 7 ++ writeBin (encodeJobId j.id) ++ writeBin (encodeToken j.token) ++
    writeUint j.attempts.toNat ++ writeStr (String.ofList j.queue) ++
    writeStr (String.ofList j.payload) ++ writeSint j.createdAt ++ writeSint j.leaseDeadline

def encodeReserve (jobs : List Reserved) (stats : QueueStats) : List UInt8 :=
  writeArrayLen 2 ++ writeArrayLen (jobs.length % 2 ^ 32) ++ jobs.flatMap encodeReservedJob ++
    stats.encode

/-- The range of a `bigint` column. -/
def isBigint (n : Int) : Prop :=
  -2 ^ 63 ≤ n ∧ n < 2 ^ 63

theorem stats_length_le (stats : QueueStats) : stats.encode.length ≤ 19 := by
  have queue := writeUint_length_le stats.queueUs
  have exec := writeUint_length_le stats.execUs
  rw [QueueStats.encode, List.length_append, List.length_append, writeArrayLen_length (by omega)]
  omega

theorem isDigit_utf8Size {c : Char} (digit : c.isDigit = true) : c.utf8Size = 1 := by
  rw [Char.utf8Size_eq_one_iff]
  have range : 48 ≤ c.val ∧ c.val ≤ 57 := by simpa [Char.isDigit] using digit
  exact UInt32.le_trans range.2 (by decide)

theorem byteLen_toDigits (n : Nat) :
    byteLen (Nat.toDigits 10 n) = (Nat.toDigits 10 n).length := by
  have sizes : (Nat.toDigits 10 n).map Char.utf8Size =
      (Nat.toDigits 10 n).map fun _ => 1 :=
    List.map_congr_left fun c member =>
      isDigit_utf8Size (Nat.isDigit_of_mem_toDigits (by omega) (by omega) member)
  rw [byteLen, sizes, List.map_const', List.sum_replicate_nat, Nat.mul_one]

theorem repr_utf8ByteSize_le {n k : Nat} (positive : 0 < k) (small : n < 10 ^ k) :
    n.repr.utf8ByteSize ≤ k := by
  have digits := (Nat.length_toDigits_le_iff (by omega : 1 < 10) positive).mpr small
  rw [Nat.repr_eq_ofList_toDigits, utf8ByteSize_ofList, byteLen_toDigits]
  exact digits

theorem encodeJobId_length_le {id : JobId} (range : isBigint id) :
    (encodeJobId id).length ≤ jobIdMaxEncodedLen := by
  rw [encodeJobId, toUTF8_length, jobIdMaxEncodedLen]
  rw [isBigint] at range
  cases id with
  | ofNat n =>
    have small : (n : Int) < 2 ^ 63 := range.2
    exact repr_utf8ByteSize_le (by omega) (by omega)
  | negSucc n =>
    rw [Int.negSucc_eq] at range
    have digits : (n + 1).repr.utf8ByteSize ≤ 19 := repr_utf8ByteSize_le (by omega) (by omega)
    have sign : "-".utf8ByteSize = 1 := by decide
    have text : toString (Int.negSucc n) = "-" ++ (n + 1).repr := rfl
    rw [text, String.utf8ByteSize_append, sign]
    omega

theorem encodeToken_length (token : Token) : (encodeToken token).length = tokenEncodedLen := by
  rw [encodeToken, List.length_map, Token.encode, List.length_map, List.length_range]
  rfl

/-! ## Reserved jobs -/

theorem mem_lockRows {now : Int} {rows : Table} {queue : Text} {lease maxPayload limit : Nat}
    {locked : List JobId} {row : Row}
    (member : row ∈ lockRows now rows queue lease maxPayload limit locked) :
    reservable now queue lease maxPayload row = true := by
  have sorted := List.mem_of_mem_take member
  rw [List.mem_insertionSort, List.mem_filter, Bool.and_eq_true] at sorted
  exact sorted.2.1

/-- A statement takes jobs of its queue, with payloads that the store admits. -/
structure Admitted (queue : Text) (maxPayload : Nat) (job : Reserved) : Prop where
  queue : job.queue = queue
  payload : byteLen job.payload ≤ maxPayload
  attempts : job.attempts ≤ attemptsCeiling

theorem admitted_of_reserve {now : Int} {rows after : Table} {queue : Text}
    {lease maxPayload limit : Nat} {locked : List JobId} {jobs : List Reserved} {job : Reserved}
    (ran : reserve now rows queue lease maxPayload limit locked = some (after, jobs))
    (member : job ∈ jobs) : Admitted queue maxPayload job := by
  dsimp only [reserve] at ran
  split at ran
  · cases ran
  · cases ran
    obtain ⟨row, inChosen, rfl⟩ := List.mem_map.mp member
    have admits := mem_lockRows inChosen
    simp only [reservable, Bool.and_eq_true, beq_iff_eq, decide_eq_true_eq] at admits
    obtain ⟨⟨⟨sameQueue, attempts⟩, payload⟩, -⟩ := admits
    exact ⟨sameQueue, payload, attempts⟩

theorem encodeReservedJob_length_le {queue : Text} {maxPayload : Nat} {job : Reserved}
    (named : queueName queue = true) (admitted : Admitted queue maxPayload job)
    (range : isBigint job.id) :
    (encodeReservedJob job).length ≤ maxPayload + sqlReservePerJob := by
  have id := encodeJobId_length_le range
  have token := encodeToken_length job.token
  have name : byteLen job.queue ≤ 1020 := by
    rw [admitted.queue]
    rw [queueName, Bool.and_eq_true, Bool.and_eq_true] at named
    have short : queue.length ≤ 255 := of_decide_eq_true named.1.2
    have wide := byteLen_le_four_mul queue
    omega
  have attempts : uintSize job.attempts.toNat ≤ 5 := by
    have ceiling := admitted.attempts
    rw [attemptsCeiling] at ceiling
    unfold uintSize
    grind
  have queueText : (writeStr (String.ofList job.queue)).length ≤ 1023 := by
    rw [writeStr_length, utf8ByteSize_ofList]
    unfold strSize
    grind
  have payloadText : (writeStr (String.ofList job.payload)).length ≤ maxPayload + 5 := by
    rw [writeStr_length, utf8ByteSize_ofList]
    exact Nat.le_trans (strSize_le _) (Nat.add_le_add_right admitted.payload 5)
  have created := writeSint_length_le job.createdAt
  have deadline := writeSint_length_le job.leaseDeadline
  rw [jobIdMaxEncodedLen] at id
  rw [tokenEncodedLen] at token
  have perJob : sqlReservePerJob = 1 + 22 + 10 + 5 + 1023 + 5 + 18 := by decide
  rw [encodeReservedJob, perJob]
  simp only [List.length_append]
  rw [writeArrayLen_length (by omega), writeBin_length_of_short (by omega),
    writeBin_length_of_short (by omega), writeUint_length]
  omega

theorem flatMap_length_le {α : Type} (f : α → List UInt8) {bound : Nat} {l : List α}
    (each : ∀ a ∈ l, (f a).length ≤ bound) : (l.flatMap f).length ≤ l.length * bound := by
  induction l with
  | nil => exact Nat.zero_le _
  | cons a l ih =>
    have head := each a List.mem_cons_self
    have rest := ih fun b member => each b (List.mem_cons_of_mem a member)
    rw [List.flatMap_cons, List.length_append, List.length_cons, Nat.succ_mul]
    omega

/-! ## Replies -/

/-- The jobs of one reply: at most the clamp, each of them taken by a RESERVE statement on a queue
that the request names. A waiter's jobs come from a statement for several waiters. -/
structure Batch where
  maxPayload : Nat
  configured : maxPayload ≤ maxPayloadBytesLimit
  maxJobs : Nat
  queues : List Text
  named : ∀ queue ∈ queues, queueName queue = true
  jobs : List Reserved
  clamped : jobs.length ≤ reserveLimit maxJobs maxPayload
  taken : ∀ job ∈ jobs, ∃ now rows queue lease limit locked after all,
    queue ∈ queues ∧
      reserve now rows queue lease maxPayload limit locked = some (after, all) ∧ job ∈ all
  ids : ∀ job ∈ jobs, isBigint job.id

/-- An id of the table, as an ENQUEUE or a RELEASE returns it. -/
structure NewId where
  id : JobId
  range : isBigint id

/-- `VerbOk`; the queue of a release is not sent. -/
inductive Reply where
  | enqueue (jobId : Option NewId) (inserted : Nat)
  | reserve (batch : Batch)
  | ack (gone : Bool)
  | release (newJobId : Option NewId)
  | extend (leaseDeadline : Int)
  | size (pending delayed reserved : Nat) (oldestPendingAt : Option Int)
  | clear (deleted : Nat)

def encodeNewId (new : NewId) : List UInt8 :=
  writeBin (encodeJobId new.id)

def Reply.encode (stats : QueueStats) : Reply → List UInt8
  | .enqueue jobId inserted =>
    writeArrayLen 4 ++ writeOption encodeNewId jobId ++ writeUint inserted ++ writeBool false ++
      stats.encode
  | .reserve batch => encodeReserve batch.jobs stats
  | .ack gone => writeArrayLen 2 ++ writeUint (if gone then 2 else 1) ++ stats.encode
  | .release newJobId => writeArrayLen 2 ++ writeOption encodeNewId newJobId ++ stats.encode
  | .extend leaseDeadline => writeArrayLen 2 ++ writeSint leaseDeadline ++ stats.encode
  | .size pending delayed reserved oldestPendingAt =>
    writeArrayLen 5 ++ writeUint pending ++ writeUint delayed ++ writeUint reserved ++
      writeOption writeSint oldestPendingAt ++ stats.encode
  | .clear deleted => writeArrayLen 2 ++ writeUint deleted ++ stats.encode

/-- As many jobs as the clamp admits, each within its share of the frame. -/
theorem encodeReserve_fits {jobs : List Reserved} {maxPayload maxJobs : Nat}
    (configured : maxPayload ≤ maxPayloadBytesLimit)
    (clamped : jobs.length ≤ reserveLimit maxJobs maxPayload)
    (each : ∀ job ∈ jobs, (encodeReservedJob job).length ≤ maxPayload + sqlReservePerJob)
    (stats : QueueStats) : (encodeReserve jobs stats).length + 2 ≤ maxFramePayload := by
  have total := flatMap_length_le encodeReservedJob each
  have clamp := Nat.mul_le_mul_right (maxPayload + sqlReservePerJob) clamped
  have room := reserveLimit_mul_le maxJobs configured
  have fixed : sqlReserveFixed = 27 := by decide
  have header := writeArrayLen_length_le (jobs.length % 2 ^ 32)
  have times := stats_length_le stats
  rw [encodeReserve]
  simp only [List.length_append]
  rw [writeArrayLen_length (by omega)]
  omega

theorem encodeReserve_length_le (batch : Batch) (stats : QueueStats) :
    (encodeReserve batch.jobs stats).length + 2 ≤ maxFramePayload := by
  apply encodeReserve_fits batch.configured batch.clamped
  intro job member
  obtain ⟨now, rows, queue, lease, limit, locked, after, all, inQueues, ran, inAll⟩ :=
    batch.taken job member
  exact encodeReservedJob_length_le (batch.named queue inQueues) (admitted_of_reserve ran inAll)
    (batch.ids job member)

theorem encodeNewId_length_le (o : Option NewId) : (writeOption encodeNewId o).length ≤ 22 := by
  cases o with
  | none => decide
  | some new =>
    have id := encodeJobId_length_le new.range
    rw [jobIdMaxEncodedLen] at id
    rw [writeOption, encodeNewId, writeBin_length_of_short (by omega)]
    omega

/-- Every success of the queue service fits its frame. -/
theorem reply_length_le (reply : Reply) (stats : QueueStats) :
    (reply.encode stats).length + 2 ≤ maxFramePayload := by
  have times := stats_length_le stats
  have frame : 100 ≤ maxFramePayload := by decide
  cases reply with
  | reserve batch => exact encodeReserve_length_le batch stats
  | enqueue jobId inserted =>
    have id := encodeNewId_length_le jobId
    have count := writeUint_length_le inserted
    simp only [Reply.encode, List.length_append, writeBool_length]
    rw [writeArrayLen_length (by omega)]
    omega
  | ack gone =>
    have outcome := writeUint_length_le (if gone then 2 else 1)
    simp only [Reply.encode, List.length_append]
    rw [writeArrayLen_length (by omega)]
    omega
  | release newJobId =>
    have id := encodeNewId_length_le newJobId
    simp only [Reply.encode, List.length_append]
    rw [writeArrayLen_length (by omega)]
    omega
  | extend leaseDeadline =>
    have deadline := writeSint_length_le leaseDeadline
    simp only [Reply.encode, List.length_append]
    rw [writeArrayLen_length (by omega)]
    omega
  | size pending delayed reserved oldestPendingAt =>
    have first := writeUint_length_le pending
    have second := writeUint_length_le delayed
    have third := writeUint_length_le reserved
    have oldest : (writeOption writeSint oldestPendingAt).length ≤ 9 := by
      cases oldestPendingAt with
      | none => decide
      | some n => exact writeSint_length_le n
    simp only [Reply.encode, List.length_append]
    rw [writeArrayLen_length (by omega)]
    omega
  | clear deleted =>
    have count := writeUint_length_le deleted
    simp only [Reply.encode, List.length_append]
    rw [writeArrayLen_length (by omega)]
    omega

end FerroEngine.QueueReplies
