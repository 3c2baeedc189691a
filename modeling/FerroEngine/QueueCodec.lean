import FerroEngine.CodecLaws
import FerroEngine.QueueReplies

set_option autoImplicit false

/-! # The codec of the queue service

The messages of `messages/queue.rs` with their encoders and decoders. A handle, a list of jobs, a
list of queues and a count have bounds that the decoders enforce.
-/

namespace FerroEngine.QueueCodec

open MessagePack MessagePackReader CodecReaders CodecLaws
open QueueReplies (QueueStats)

def handleMaxBytes : Nat := 1024

def enqueueMaxJobs : Nat := 1000

def reserveMaxQueues : Nat := 16

/-! ## Field rules -/

def countOk (max n : Nat) : Bool :=
  decide (1 ≤ n) && decide (n ≤ max)

def handleLenOk : Nat → Bool := countOk handleMaxBytes

def ackOutcomeOk (v : Nat) : Bool :=
  v == 1 || v == 2

/-- The length is read ahead of the body. -/
def readHandle : Reader Bytes := fun rd => do
  let (len, _) ← ofOption (readBinLen rd)
  if handleLenOk len then readBin rd else .error .malformed

def readU32 : Reader Nat := readUnsigned (2 ^ 32)

def readI64 : Reader Int := readInt (-2 ^ 63) (2 ^ 63)

def IsHandle (h : Bytes) (t : Tree) : Prop :=
  handleLenOk h.length = true ∧ IsBin h t

def ValidHandle (h : Bytes) : Prop :=
  handleLenOk h.length = true

theorem length_of_bin {b rest mid bytes : Bytes} {len : Nat}
    (length : readBinLen b = some (len, mid)) (reads : readBin b = .ok (bytes, rest)) :
    bytes.length = len := by
  rw [readBin, length] at reads
  obtain ⟨⟨_, left⟩, first, reads⟩ := bind_ok.mp reads
  cases first
  obtain ⟨_, -, taken⟩ := bind_ok.mp reads
  rw [ofOption_ok, takeBytes] at taken
  split at taken
  · rename_i enough
    cases taken
    rw [List.length_take, Nat.min_eq_left enough]
  · cases taken

theorem handleSlot : Slot writeBin readHandle ValidHandle IsHandle where
  back := by
    intro h valid rest
    have short : h.length < 2 ^ 32 := by
      rw [ValidHandle, handleLenOk, countOk, handleMaxBytes, Bool.and_eq_true, decide_eq_true_eq,
        decide_eq_true_eq] at valid
      omega
    have length : readBinLen (writeBin h ++ rest) = some (h.length, h ++ rest) := by
      rw [writeBin, List.append_assoc, readBinLen_writeBinLen short]
    rw [readHandle, length]
    simp only [ofOption, bind, Except.bind]
    have inside : handleLenOk h.length = true := valid
    rw [if_pos inside]
    exact binSlot.back short rest
  shaped := by
    intro b rest h reads
    rw [readHandle, bind_ok] at reads
    obtain ⟨⟨len, mid⟩, length, reads⟩ := reads
    rw [ofOption_ok] at length
    dsimp only at reads
    split at reads
    · rename_i inside
      obtain ⟨t, shape, item⟩ := binSlot.shaped reads
      rw [← length_of_bin length reads] at inside
      exact ⟨t, ⟨inside, shape⟩, item⟩
    · cases reads
  lead := binSlot.lead

/-! ## Shared parts -/

structure QueueCommon where
  txId : Option Nat
  timeoutMs : Option Nat
  traceparent : Option String
  deriving DecidableEq, Repr

def QueueCommon.write (c : QueueCommon) : Bytes :=
  writeArrayLen 3 ++ writeOption writeUint c.txId ++ writeOption writeUint c.timeoutMs ++
    writeOption writeStr c.traceparent

def readCommon : Reader QueueCommon := do
  expectArity 3
  let txId ← readOption (readUnsigned (2 ^ 64))
  let timeoutMs ← readOption readU32
  let traceparent ← readOption readStrLossy
  pure { txId, timeoutMs, traceparent }

structure ValidCommon (c : QueueCommon) : Prop where
  txId : ValidOption (· < 2 ^ 64) c.txId
  timeoutMs : ValidOption (· < 2 ^ 32) c.timeoutMs
  traceparent : ValidOption ShortText c.traceparent

def IsCommon (c : QueueCommon) : Tree → Prop :=
  IsRecord [IsOption IsNat c.txId, IsOption IsNat c.timeoutMs, IsOption IsLossyText c.traceparent]

theorem commonSlot : Slot QueueCommon.write readCommon ValidCommon IsCommon := by
  have fields : Positions (fun _ => True) _ _ _ _ :=
    .field QueueCommon.txId (optionField u64Slot) fun txId =>
    .field QueueCommon.timeoutMs (optionField u32Slot) fun timeoutMs =>
    .field QueueCommon.traceparent (optionField lossySlot) fun traceparent =>
    .done ⟨txId, timeoutMs, traceparent⟩ (by
      rintro ⟨_, _, _⟩
      simp [and_assoc])
  refine (fields.record (by decide) fun _ => rfl).congr ?_ fun c valid =>
    ⟨valid.txId, valid.timeoutMs, valid.traceparent, trivial⟩
  intro c
  simp only [QueueCommon.write, List.append_assoc, List.append_nil]

def readStats : Reader QueueStats := do
  expectArity 2
  let queueUs ← readCount
  let execUs ← readCount
  pure { queueUs, execUs }

structure ValidStats (s : QueueStats) : Prop where
  queueUs : s.queueUs < u64WireBound
  execUs : s.execUs < u64WireBound

def IsStats (s : QueueStats) : Tree → Prop :=
  IsRecord [IsCount s.queueUs, IsCount s.execUs]

theorem statsSlot : Slot QueueStats.encode readStats ValidStats IsStats := by
  have fields : Positions (fun _ => True) _ _ _ _ :=
    .field QueueStats.queueUs countSlot.toField fun queueUs =>
    .field QueueStats.execUs countSlot.toField fun execUs =>
    .done ⟨queueUs, execUs⟩ (by
      rintro ⟨_, _⟩
      simp)
  refine (fields.record (by decide) fun _ => rfl).congr ?_ fun s valid =>
    ⟨valid.queueUs, valid.execUs, trivial⟩
  intro s
  simp only [QueueStats.encode, List.append_assoc, List.append_nil]

/-! ## Requests -/

structure EnqueueJob where
  queue : String
  payload : String
  delayS : Nat
  deriving DecidableEq, Repr

def EnqueueJob.encode (m : EnqueueJob) : Bytes :=
  writeArrayLen 3 ++ writeStr m.queue ++ writeStr m.payload ++ writeUint m.delayS

def readEnqueueJob : Reader EnqueueJob := do
  expectArity 3
  let queue ← readStr
  let payload ← readStr
  let delayS ← readU32
  pure { queue, payload, delayS }

structure ValidEnqueueJob (m : EnqueueJob) : Prop where
  queue : ShortText m.queue
  payload : ShortText m.payload
  delayS : m.delayS < 2 ^ 32

def IsEnqueueJob (m : EnqueueJob) : Tree → Prop :=
  IsRecord [IsText m.queue, IsText m.payload, IsNat m.delayS]

theorem enqueueJobSlot : Slot EnqueueJob.encode readEnqueueJob ValidEnqueueJob IsEnqueueJob := by
  have fields : Positions (fun _ => True) _ _ _ _ :=
    .field EnqueueJob.queue strSlot.toField fun queue =>
    .field EnqueueJob.payload strSlot.toField fun payload =>
    .field EnqueueJob.delayS u32Slot.toField fun delayS =>
    .done ⟨queue, payload, delayS⟩ (by
      rintro ⟨_, _, _⟩
      simp [and_assoc])
  refine (fields.record (by decide) fun _ => rfl).congr ?_ fun m valid =>
    ⟨valid.queue, valid.payload, valid.delayS, trivial⟩
  intro m
  simp only [EnqueueJob.encode, List.append_assoc, List.append_nil]

structure EnqueueRequest where
  store : String
  jobs : List EnqueueJob
  dedupKey : Option String
  common : QueueCommon
  deriving DecidableEq, Repr

def EnqueueRequest.encode (m : EnqueueRequest) : Bytes :=
  writeArrayLen 4 ++ writeStr m.store ++ writeArray EnqueueJob.encode m.jobs ++
    writeOption writeStr m.dedupKey ++ QueueCommon.write m.common

def readEnqueueRequest : Reader EnqueueRequest := do
  expectArity 4
  let store ← readStr
  let jobs ← readBoundedArray (countOk enqueueMaxJobs) readEnqueueJob
  let dedupKey ← readOption readStr
  let common ← readCommon
  pure { store, jobs, dedupKey, common }

def decodeEnqueueRequest : Bytes → Except CodecError EnqueueRequest :=
  whole readEnqueueRequest

structure ValidEnqueueRequest (m : EnqueueRequest) : Prop where
  store : ShortText m.store
  jobs : ValidBounded (countOk enqueueMaxJobs) ValidEnqueueJob m.jobs
  dedupKey : ValidOption ShortText m.dedupKey
  common : ValidCommon m.common

def IsEnqueueRequest (m : EnqueueRequest) : Tree → Prop :=
  IsRecord [IsText m.store, IsBounded (countOk enqueueMaxJobs) IsEnqueueJob m.jobs,
    IsOption IsText m.dedupKey, IsCommon m.common]

theorem enqueueRequestSlot :
    Slot EnqueueRequest.encode readEnqueueRequest ValidEnqueueRequest IsEnqueueRequest := by
  have fields : Positions (fun _ => True) _ _ _ _ :=
    .field EnqueueRequest.store strSlot.toField fun store =>
    .field EnqueueRequest.jobs
      (boundedArraySlot (countOk enqueueMaxJobs) enqueueJobSlot).toField fun jobs =>
    .field EnqueueRequest.dedupKey (optionField strSlot) fun dedupKey =>
    .field EnqueueRequest.common commonSlot.toField fun common =>
    .done ⟨store, jobs, dedupKey, common⟩ (by
      rintro ⟨_, _, _, _⟩
      simp [and_assoc])
  refine (fields.record (by decide) fun _ => rfl).congr ?_ fun m valid =>
    ⟨valid.store, valid.jobs, valid.dedupKey, valid.common, trivial⟩
  intro m
  simp only [EnqueueRequest.encode, List.append_assoc, List.append_nil]

structure ReserveRequest where
  store : String
  queues : List String
  maxJobs : Nat
  waitMs : Nat
  liveness : Bool
  common : QueueCommon
  deriving DecidableEq, Repr

def ReserveRequest.encode (m : ReserveRequest) : Bytes :=
  writeArrayLen 6 ++ writeStr m.store ++ writeArray writeStr m.queues ++ writeUint m.maxJobs ++
    writeUint m.waitMs ++ writeBool m.liveness ++ QueueCommon.write m.common

def readReserveRequest : Reader ReserveRequest := do
  expectArity 6
  let store ← readStr
  let queues ← readBoundedArray (countOk reserveMaxQueues) readStr
  let maxJobs ← readUnsigned (2 ^ 16)
  let waitMs ← readU32
  let liveness ← readBool
  let common ← readCommon
  pure { store, queues, maxJobs, waitMs, liveness, common }

def decodeReserveRequest : Bytes → Except CodecError ReserveRequest :=
  whole readReserveRequest

structure ValidReserveRequest (m : ReserveRequest) : Prop where
  store : ShortText m.store
  queues : ValidBounded (countOk reserveMaxQueues) ShortText m.queues
  maxJobs : m.maxJobs < 2 ^ 16
  waitMs : m.waitMs < 2 ^ 32
  common : ValidCommon m.common

def IsReserveRequest (m : ReserveRequest) : Tree → Prop :=
  IsRecord [IsText m.store, IsBounded (countOk reserveMaxQueues) IsText m.queues, IsNat m.maxJobs,
    IsNat m.waitMs, IsBool m.liveness, IsCommon m.common]

theorem reserveRequestSlot :
    Slot ReserveRequest.encode readReserveRequest ValidReserveRequest IsReserveRequest := by
  have fields : Positions (fun _ => True) _ _ _ _ :=
    .field ReserveRequest.store strSlot.toField fun store =>
    .field ReserveRequest.queues
      (boundedArraySlot (countOk reserveMaxQueues) strSlot).toField fun queues =>
    .field ReserveRequest.maxJobs u16Slot.toField fun maxJobs =>
    .field ReserveRequest.waitMs u32Slot.toField fun waitMs =>
    .field ReserveRequest.liveness boolSlot.toField fun liveness =>
    .field ReserveRequest.common commonSlot.toField fun common =>
    .done ⟨store, queues, maxJobs, waitMs, liveness, common⟩ (by
      rintro ⟨_, _, _, _, _, _⟩
      simp [and_assoc])
  refine (fields.record (by decide) fun _ => rfl).congr ?_ fun m valid =>
    ⟨valid.store, valid.queues, valid.maxJobs, valid.waitMs, trivial, valid.common, trivial⟩
  intro m
  simp only [ReserveRequest.encode, List.append_assoc, List.append_nil]

/-- The request of ACK and of EXTEND. -/
structure FencedRequest where
  store : String
  jobId : Bytes
  token : Bytes
  common : QueueCommon
  deriving DecidableEq, Repr

def FencedRequest.encode (m : FencedRequest) : Bytes :=
  writeArrayLen 4 ++ writeStr m.store ++ writeBin m.jobId ++ writeBin m.token ++
    QueueCommon.write m.common

def readFencedRequest : Reader FencedRequest := do
  expectArity 4
  let store ← readStr
  let jobId ← readHandle
  let token ← readHandle
  let common ← readCommon
  pure { store, jobId, token, common }

def decodeFencedRequest : Bytes → Except CodecError FencedRequest :=
  whole readFencedRequest

structure ValidFencedRequest (m : FencedRequest) : Prop where
  store : ShortText m.store
  jobId : ValidHandle m.jobId
  token : ValidHandle m.token
  common : ValidCommon m.common

def IsFencedRequest (m : FencedRequest) : Tree → Prop :=
  IsRecord [IsText m.store, IsHandle m.jobId, IsHandle m.token, IsCommon m.common]

theorem fencedRequestSlot :
    Slot FencedRequest.encode readFencedRequest ValidFencedRequest IsFencedRequest := by
  have fields : Positions (fun _ => True) _ _ _ _ :=
    .field FencedRequest.store strSlot.toField fun store =>
    .field FencedRequest.jobId handleSlot.toField fun jobId =>
    .field FencedRequest.token handleSlot.toField fun token =>
    .field FencedRequest.common commonSlot.toField fun common =>
    .done ⟨store, jobId, token, common⟩ (by
      rintro ⟨_, _, _, _⟩
      simp [and_assoc])
  refine (fields.record (by decide) fun _ => rfl).congr ?_ fun m valid =>
    ⟨valid.store, valid.jobId, valid.token, valid.common, trivial⟩
  intro m
  simp only [FencedRequest.encode, List.append_assoc, List.append_nil]

structure ReleaseRequest where
  store : String
  jobId : Bytes
  token : Bytes
  delayS : Nat
  common : QueueCommon
  deriving DecidableEq, Repr

def ReleaseRequest.encode (m : ReleaseRequest) : Bytes :=
  writeArrayLen 5 ++ writeStr m.store ++ writeBin m.jobId ++ writeBin m.token ++
    writeUint m.delayS ++ QueueCommon.write m.common

def readReleaseRequest : Reader ReleaseRequest := do
  expectArity 5
  let store ← readStr
  let jobId ← readHandle
  let token ← readHandle
  let delayS ← readU32
  let common ← readCommon
  pure { store, jobId, token, delayS, common }

def decodeReleaseRequest : Bytes → Except CodecError ReleaseRequest :=
  whole readReleaseRequest

structure ValidReleaseRequest (m : ReleaseRequest) : Prop where
  store : ShortText m.store
  jobId : ValidHandle m.jobId
  token : ValidHandle m.token
  delayS : m.delayS < 2 ^ 32
  common : ValidCommon m.common

def IsReleaseRequest (m : ReleaseRequest) : Tree → Prop :=
  IsRecord [IsText m.store, IsHandle m.jobId, IsHandle m.token, IsNat m.delayS, IsCommon m.common]

theorem releaseRequestSlot :
    Slot ReleaseRequest.encode readReleaseRequest ValidReleaseRequest IsReleaseRequest := by
  have fields : Positions (fun _ => True) _ _ _ _ :=
    .field ReleaseRequest.store strSlot.toField fun store =>
    .field ReleaseRequest.jobId handleSlot.toField fun jobId =>
    .field ReleaseRequest.token handleSlot.toField fun token =>
    .field ReleaseRequest.delayS u32Slot.toField fun delayS =>
    .field ReleaseRequest.common commonSlot.toField fun common =>
    .done ⟨store, jobId, token, delayS, common⟩ (by
      rintro ⟨_, _, _, _, _⟩
      simp [and_assoc])
  refine (fields.record (by decide) fun _ => rfl).congr ?_ fun m valid =>
    ⟨valid.store, valid.jobId, valid.token, valid.delayS, valid.common, trivial⟩
  intro m
  simp only [ReleaseRequest.encode, List.append_assoc, List.append_nil]

/-- The request of SIZE and of CLEAR. -/
structure QueueScopeRequest where
  store : String
  queue : String
  common : QueueCommon
  deriving DecidableEq, Repr

def QueueScopeRequest.encode (m : QueueScopeRequest) : Bytes :=
  writeArrayLen 3 ++ writeStr m.store ++ writeStr m.queue ++ QueueCommon.write m.common

def readQueueScopeRequest : Reader QueueScopeRequest := do
  expectArity 3
  let store ← readStr
  let queue ← readStr
  let common ← readCommon
  pure { store, queue, common }

def decodeQueueScopeRequest : Bytes → Except CodecError QueueScopeRequest :=
  whole readQueueScopeRequest

structure ValidQueueScopeRequest (m : QueueScopeRequest) : Prop where
  store : ShortText m.store
  queue : ShortText m.queue
  common : ValidCommon m.common

def IsQueueScopeRequest (m : QueueScopeRequest) : Tree → Prop :=
  IsRecord [IsText m.store, IsText m.queue, IsCommon m.common]

theorem queueScopeRequestSlot :
    Slot QueueScopeRequest.encode readQueueScopeRequest ValidQueueScopeRequest
      IsQueueScopeRequest := by
  have fields : Positions (fun _ => True) _ _ _ _ :=
    .field QueueScopeRequest.store strSlot.toField fun store =>
    .field QueueScopeRequest.queue strSlot.toField fun queue =>
    .field QueueScopeRequest.common commonSlot.toField fun common =>
    .done ⟨store, queue, common⟩ (by
      rintro ⟨_, _, _⟩
      simp [and_assoc])
  refine (fields.record (by decide) fun _ => rfl).congr ?_ fun m valid =>
    ⟨valid.store, valid.queue, valid.common, trivial⟩
  intro m
  simp only [QueueScopeRequest.encode, List.append_assoc, List.append_nil]

/-! ## Responses -/

structure EnqueueResponse where
  jobId : Option Bytes
  inserted : Nat
  deduplicated : Bool
  stats : QueueStats
  deriving DecidableEq, Repr

def EnqueueResponse.encode (m : EnqueueResponse) : Bytes :=
  writeArrayLen 4 ++ writeOption writeBin m.jobId ++ writeUint m.inserted ++
    writeBool m.deduplicated ++ QueueStats.encode m.stats

def readEnqueueResponse : Reader EnqueueResponse := do
  expectArity 4
  let jobId ← readOption readHandle
  let inserted ← readU32
  let deduplicated ← readBool
  let stats ← readStats
  pure { jobId, inserted, deduplicated, stats }

def decodeEnqueueResponse : Bytes → Except CodecError EnqueueResponse :=
  whole readEnqueueResponse

structure ValidEnqueueResponse (m : EnqueueResponse) : Prop where
  jobId : ValidOption ValidHandle m.jobId
  inserted : m.inserted < 2 ^ 32
  stats : ValidStats m.stats

def IsEnqueueResponse (m : EnqueueResponse) : Tree → Prop :=
  IsRecord [IsOption IsHandle m.jobId, IsNat m.inserted, IsBool m.deduplicated, IsStats m.stats]

theorem enqueueResponseSlot :
    Slot EnqueueResponse.encode readEnqueueResponse ValidEnqueueResponse IsEnqueueResponse := by
  have fields : Positions (fun _ => True) _ _ _ _ :=
    .field EnqueueResponse.jobId (optionField handleSlot) fun jobId =>
    .field EnqueueResponse.inserted u32Slot.toField fun inserted =>
    .field EnqueueResponse.deduplicated boolSlot.toField fun deduplicated =>
    .field EnqueueResponse.stats statsSlot.toField fun stats =>
    .done ⟨jobId, inserted, deduplicated, stats⟩ (by
      rintro ⟨_, _, _, _⟩
      simp [and_assoc])
  refine (fields.record (by decide) fun _ => rfl).congr ?_ fun m valid =>
    ⟨valid.jobId, valid.inserted, trivial, valid.stats, trivial⟩
  intro m
  simp only [EnqueueResponse.encode, List.append_assoc, List.append_nil]

structure ReservedJob where
  jobId : Bytes
  token : Bytes
  attempts : Nat
  queue : String
  payload : String
  createdAt : Int
  leaseDeadline : Int
  deriving DecidableEq, Repr

def ReservedJob.encode (m : ReservedJob) : Bytes :=
  writeArrayLen 7 ++ writeBin m.jobId ++ writeBin m.token ++ writeUint m.attempts ++
    writeStr m.queue ++ writeStr m.payload ++ writeSint m.createdAt ++ writeSint m.leaseDeadline

def readReservedJob : Reader ReservedJob := do
  expectArity 7
  let jobId ← readHandle
  let token ← readHandle
  let attempts ← readU32
  let queue ← readStr
  let payload ← readStr
  let createdAt ← readI64
  let leaseDeadline ← readI64
  pure { jobId, token, attempts, queue, payload, createdAt, leaseDeadline }

structure ValidReservedJob (m : ReservedJob) : Prop where
  jobId : ValidHandle m.jobId
  token : ValidHandle m.token
  attempts : m.attempts < 2 ^ 32
  queue : ShortText m.queue
  payload : ShortText m.payload
  createdAt : -2 ^ 63 ≤ m.createdAt ∧ m.createdAt < 2 ^ 63
  leaseDeadline : -2 ^ 63 ≤ m.leaseDeadline ∧ m.leaseDeadline < 2 ^ 63

def IsReservedJob (m : ReservedJob) : Tree → Prop :=
  IsRecord [IsHandle m.jobId, IsHandle m.token, IsNat m.attempts, IsText m.queue, IsText m.payload,
    IsInt m.createdAt, IsInt m.leaseDeadline]

theorem reservedJobSlot :
    Slot ReservedJob.encode readReservedJob ValidReservedJob IsReservedJob := by
  have fields : Positions (fun _ => True) _ _ _ _ :=
    .field ReservedJob.jobId handleSlot.toField fun jobId =>
    .field ReservedJob.token handleSlot.toField fun token =>
    .field ReservedJob.attempts u32Slot.toField fun attempts =>
    .field ReservedJob.queue strSlot.toField fun queue =>
    .field ReservedJob.payload strSlot.toField fun payload =>
    .field ReservedJob.createdAt intSlot.toField fun createdAt =>
    .field ReservedJob.leaseDeadline intSlot.toField fun leaseDeadline =>
    .done ⟨jobId, token, attempts, queue, payload, createdAt, leaseDeadline⟩ (by
      rintro ⟨_, _, _, _, _, _, _⟩
      simp [and_assoc])
  refine (fields.record (by decide) fun _ => rfl).congr ?_ fun m valid =>
    ⟨valid.jobId, valid.token, valid.attempts, valid.queue, valid.payload, valid.createdAt,
      valid.leaseDeadline, trivial⟩
  intro m
  simp only [ReservedJob.encode, List.append_assoc, List.append_nil]

structure SizeResponse where
  pending : Nat
  delayed : Nat
  reserved : Nat
  oldestPendingAt : Option Int
  stats : QueueStats
  deriving DecidableEq, Repr

def SizeResponse.encode (m : SizeResponse) : Bytes :=
  writeArrayLen 5 ++ writeUint m.pending ++ writeUint m.delayed ++ writeUint m.reserved ++
    writeOption writeSint m.oldestPendingAt ++ QueueStats.encode m.stats

def readSizeResponse : Reader SizeResponse := do
  expectArity 5
  let pending ← readCount
  let delayed ← readCount
  let reserved ← readCount
  let oldestPendingAt ← readOption readI64
  let stats ← readStats
  pure { pending, delayed, reserved, oldestPendingAt, stats }

def decodeSizeResponse : Bytes → Except CodecError SizeResponse :=
  whole readSizeResponse

structure ValidSizeResponse (m : SizeResponse) : Prop where
  pending : m.pending < u64WireBound
  delayed : m.delayed < u64WireBound
  reserved : m.reserved < u64WireBound
  oldestPendingAt : ValidOption (fun n => -2 ^ 63 ≤ n ∧ n < 2 ^ 63) m.oldestPendingAt
  stats : ValidStats m.stats

def IsSizeResponse (m : SizeResponse) : Tree → Prop :=
  IsRecord [IsCount m.pending, IsCount m.delayed, IsCount m.reserved,
    IsOption IsInt m.oldestPendingAt, IsStats m.stats]

theorem sizeResponseSlot :
    Slot SizeResponse.encode readSizeResponse ValidSizeResponse IsSizeResponse := by
  have fields : Positions (fun _ => True) _ _ _ _ :=
    .field SizeResponse.pending countSlot.toField fun pending =>
    .field SizeResponse.delayed countSlot.toField fun delayed =>
    .field SizeResponse.reserved countSlot.toField fun reserved =>
    .field SizeResponse.oldestPendingAt (optionField intSlot) fun oldestPendingAt =>
    .field SizeResponse.stats statsSlot.toField fun stats =>
    .done ⟨pending, delayed, reserved, oldestPendingAt, stats⟩ (by
      rintro ⟨_, _, _, _, _⟩
      simp [and_assoc])
  refine (fields.record (by decide) fun _ => rfl).congr ?_ fun m valid =>
    ⟨valid.pending, valid.delayed, valid.reserved, valid.oldestPendingAt, valid.stats, trivial⟩
  intro m
  simp only [SizeResponse.encode, List.append_assoc, List.append_nil]

/-- The other responses carry one value before the statistics. -/
structure Reported (α : Type) where
  value : α
  stats : QueueStats
  deriving DecidableEq, Repr

section

variable {α : Type}

def encodeReported (write : α → Bytes) (m : Reported α) : Bytes :=
  writeArrayLen 2 ++ write m.value ++ m.stats.encode

def readReported (read : Reader α) : Reader (Reported α) := do
  expectArity 2
  let value ← read
  let stats ← readStats
  pure { value, stats }

structure ValidReported (Valid : α → Prop) (m : Reported α) : Prop where
  value : Valid m.value
  stats : ValidStats m.stats

def IsReported (Shape : α → Tree → Prop) (m : Reported α) : Tree → Prop :=
  IsRecord [Shape m.value, IsStats m.stats]

theorem reportedSlot {write : α → Bytes} {read : Reader α} {Valid : α → Prop}
    {Shape : α → Tree → Prop} (first : Field write read Valid Shape) :
    Slot (encodeReported write) (readReported read) (ValidReported Valid) (IsReported Shape) := by
  have fields : Positions (fun _ => True) _ _ _ _ :=
    .field Reported.value first fun value =>
    .field Reported.stats statsSlot.toField fun stats =>
    .done ⟨value, stats⟩ (by
      rintro ⟨_, _⟩
      simp)
  refine (fields.record (by decide) fun _ => rfl).congr ?_ fun m valid =>
    ⟨valid.value, valid.stats, trivial⟩
  intro m
  simp only [encodeReported, List.append_assoc, List.append_nil]

end

/-- The list may be empty, and has no bound of its own. -/
abbrev ReserveResponse := Reported (List ReservedJob)

def ReserveResponse.encode : ReserveResponse → Bytes :=
  encodeReported (writeArray ReservedJob.encode)

def decodeReserveResponse : Bytes → Except CodecError ReserveResponse :=
  whole (readReported (readArray readReservedJob))

abbrev AckResponse := Reported Nat

def AckResponse.encode : AckResponse → Bytes :=
  encodeReported writeUint

def readOutcome : Reader Nat :=
  readChecked (readUnsigned (2 ^ 8)) ackOutcomeOk

def decodeAckResponse : Bytes → Except CodecError AckResponse :=
  whole (readReported readOutcome)

abbrev ReleaseResponse := Reported (Option Bytes)

def ReleaseResponse.encode : ReleaseResponse → Bytes :=
  encodeReported (writeOption writeBin)

def decodeReleaseResponse : Bytes → Except CodecError ReleaseResponse :=
  whole (readReported (readOption readHandle))

abbrev ExtendResponse := Reported Int

def ExtendResponse.encode : ExtendResponse → Bytes :=
  encodeReported writeSint

def decodeExtendResponse : Bytes → Except CodecError ExtendResponse :=
  whole (readReported readI64)

abbrev ClearResponse := Reported Nat

def ClearResponse.encode : ClearResponse → Bytes :=
  encodeReported writeUint

def decodeClearResponse : Bytes → Except CodecError ClearResponse :=
  whole (readReported readCount)

def IsOutcome (v : Nat) (t : Tree) : Prop :=
  ackOutcomeOk v = true ∧ IsNat v t

theorem outcomeSlot : Slot writeUint readOutcome (fun v => ackOutcomeOk v = true) IsOutcome := by
  refine (checkedSlot _ u8Slot).congr (fun _ => rfl) ?_
  intro v known
  have small : v = 1 ∨ v = 2 := by simpa [ackOutcomeOk] using known
  exact ⟨known, by omega⟩

/-- The wire form of a job that the store handed out. -/
def wireJob (j : QueueTable.Reserved) : ReservedJob :=
  ⟨QueueReplies.encodeJobId j.id, QueueReplies.encodeToken j.token, j.attempts.toNat,
    String.ofList j.queue, String.ofList j.payload, j.createdAt, j.leaseDeadline⟩

theorem encodeReserve_eq (jobs : List QueueTable.Reserved) (stats : QueueStats) :
    QueueReplies.encodeReserve jobs stats = ReserveResponse.encode ⟨jobs.map wireJob, stats⟩ := by
  have bodies : (jobs.map wireJob).flatMap ReservedJob.encode =
      jobs.flatMap QueueReplies.encodeReservedJob := by
    rw [List.flatMap_map]
    rfl
  simp only [QueueReplies.encodeReserve, ReserveResponse.encode, encodeReported, writeArray,
    List.length_map, bodies, List.append_assoc]

/-- Every message of the service whose counts are inside the bounds is read back, and a decoder
accepts nothing outside them, nothing with another arity and nothing with a trailing byte. -/
theorem queueCodec_faithful :
    Codec EnqueueRequest.encode decodeEnqueueRequest ValidEnqueueRequest IsEnqueueRequest ∧
    Codec ReserveRequest.encode decodeReserveRequest ValidReserveRequest IsReserveRequest ∧
    Codec FencedRequest.encode decodeFencedRequest ValidFencedRequest IsFencedRequest ∧
    Codec ReleaseRequest.encode decodeReleaseRequest ValidReleaseRequest IsReleaseRequest ∧
    Codec QueueScopeRequest.encode decodeQueueScopeRequest ValidQueueScopeRequest
      IsQueueScopeRequest ∧
    Codec EnqueueResponse.encode decodeEnqueueResponse ValidEnqueueResponse IsEnqueueResponse ∧
    Codec ReserveResponse.encode decodeReserveResponse
      (ValidReported (ValidList ValidReservedJob)) (IsReported (IsList IsReservedJob)) ∧
    Codec AckResponse.encode decodeAckResponse
      (ValidReported fun v => ackOutcomeOk v = true) (IsReported IsOutcome) ∧
    Codec ReleaseResponse.encode decodeReleaseResponse
      (ValidReported (ValidOption ValidHandle)) (IsReported (IsOption IsHandle)) ∧
    Codec ExtendResponse.encode decodeExtendResponse
      (ValidReported fun n => -2 ^ 63 ≤ n ∧ n < 2 ^ 63) (IsReported IsInt) ∧
    Codec SizeResponse.encode decodeSizeResponse ValidSizeResponse IsSizeResponse ∧
    Codec ClearResponse.encode decodeClearResponse
      (ValidReported fun n => n < u64WireBound) (IsReported IsCount) :=
  ⟨enqueueRequestSlot.codec, reserveRequestSlot.codec, fencedRequestSlot.codec,
    releaseRequestSlot.codec, queueScopeRequestSlot.codec, enqueueResponseSlot.codec,
    (reportedSlot (arraySlot reservedJobSlot).toField).codec,
    (reportedSlot outcomeSlot.toField).codec, (reportedSlot (optionField handleSlot)).codec,
    (reportedSlot intSlot.toField).codec, sizeResponseSlot.codec,
    (reportedSlot countSlot.toField).codec⟩

end FerroEngine.QueueCodec
