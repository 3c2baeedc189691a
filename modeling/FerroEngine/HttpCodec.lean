import FerroEngine.CodecLaws
import FerroEngine.EndFrameSizes

set_option autoImplicit false

/-! # The codec of the HTTP service

The messages of `messages/http.rs` with their encoders and decoders. A length of 2^63 or more is
written as absent.
-/

namespace FerroEngine.HttpCodec

open MessagePack MessagePackReader CodecReaders CodecLaws
open EndFrameSizes (HeaderField HttpStats writeHeaders)

/-! ## Headers -/

def readHeader : Reader HeaderField := do
  expectArity 2
  let name ← readStr
  let value ← readBin
  pure { name, value }

def readHeaders : Reader (List HeaderField) := readArray readHeader

structure ValidHeader (h : HeaderField) : Prop where
  name : ShortText h.name
  value : ShortBytes h.value

def IsHeader (h : HeaderField) : Tree → Prop :=
  IsRecord [IsText h.name, IsBin h.value]

theorem headerSlot : Slot HeaderField.encode readHeader ValidHeader IsHeader := by
  have fields : Positions (fun _ => True) _ _ _ _ :=
    .field HeaderField.name strSlot.toField fun name =>
    .field HeaderField.value binSlot.toField fun value =>
    .done ⟨name, value⟩ (by
      rintro ⟨_, _⟩
      simp)
  refine (fields.record (by decide) fun _ => rfl).congr ?_ fun h valid =>
    ⟨valid.name, valid.value, trivial⟩
  intro h
  simp only [HeaderField.encode, List.append_assoc, List.append_nil]

theorem headersSlot : Slot writeHeaders readHeaders (ValidList ValidHeader) (IsList IsHeader) :=
  arraySlot headerSlot

/-! ## Requests -/

structure HttpRequest where
  upstream : String
  method : String
  target : String
  origin : Option String
  headers : List HeaderField
  body : Option Bytes
  timeoutMs : Option Nat
  connectTimeoutMs : Option Nat
  readTimeoutMs : Option Nat
  idempotent : Option Bool
  decode : Bool
  route : Option String
  traceparent : Option String
  deriving DecidableEq

def HttpRequest.encode (m : HttpRequest) : Bytes :=
  writeArrayLen 13 ++ writeStr m.upstream ++ writeStr m.method ++ writeStr m.target ++
    writeOption writeStr m.origin ++ writeHeaders m.headers ++ writeOption writeBin m.body ++
    writeOption writeUint m.timeoutMs ++ writeOption writeUint m.connectTimeoutMs ++
    writeOption writeUint m.readTimeoutMs ++ writeOption writeBool m.idempotent ++
    writeBool m.decode ++ writeOption writeStr m.route ++ writeOption writeStr m.traceparent

def readHttpRequest : Reader HttpRequest := do
  expectArity 13
  let upstream ← readStr
  let method ← readStr
  let target ← readStr
  let origin ← readOption readStr
  let headers ← readHeaders
  let body ← readOption readBin
  let timeoutMs ← readOption (readUnsigned (2 ^ 32))
  let connectTimeoutMs ← readOption (readUnsigned (2 ^ 32))
  let readTimeoutMs ← readOption (readUnsigned (2 ^ 32))
  let idempotent ← readOption readBool
  let decode ← readBool
  let route ← readOption readStr
  let traceparent ← readOption readStrLossy
  pure
    { upstream, method, target, origin, headers, body, timeoutMs, connectTimeoutMs,
      readTimeoutMs, idempotent, decode, route, traceparent }

def decodeHttpRequest : Bytes → Except CodecError HttpRequest :=
  whole readHttpRequest

structure ValidHttpRequest (m : HttpRequest) : Prop where
  upstream : ShortText m.upstream
  method : ShortText m.method
  target : ShortText m.target
  origin : ValidOption ShortText m.origin
  headers : ValidList ValidHeader m.headers
  body : ValidOption ShortBytes m.body
  timeoutMs : ValidOption (· < 2 ^ 32) m.timeoutMs
  connectTimeoutMs : ValidOption (· < 2 ^ 32) m.connectTimeoutMs
  readTimeoutMs : ValidOption (· < 2 ^ 32) m.readTimeoutMs
  idempotent : ValidOption (fun _ => True) m.idempotent
  route : ValidOption ShortText m.route
  traceparent : ValidOption ShortText m.traceparent

def IsHttpRequest (m : HttpRequest) : Tree → Prop :=
  IsRecord [IsText m.upstream, IsText m.method, IsText m.target, IsOption IsText m.origin,
    IsList IsHeader m.headers, IsOption IsBin m.body, IsOption IsNat m.timeoutMs,
    IsOption IsNat m.connectTimeoutMs, IsOption IsNat m.readTimeoutMs, IsOption IsBool m.idempotent,
    IsBool m.decode, IsOption IsText m.route, IsOption IsLossyText m.traceparent]

theorem httpRequestSlot :
    Slot HttpRequest.encode readHttpRequest ValidHttpRequest IsHttpRequest := by
  have fields : Positions (fun _ => True) _ _ _ _ :=
    .field HttpRequest.upstream strSlot.toField fun upstream =>
    .field HttpRequest.method strSlot.toField fun method =>
    .field HttpRequest.target strSlot.toField fun target =>
    .field HttpRequest.origin (optionField strSlot) fun origin =>
    .field HttpRequest.headers headersSlot.toField fun headers =>
    .field HttpRequest.body (optionField binSlot) fun body =>
    .field HttpRequest.timeoutMs (optionField u32Slot) fun timeoutMs =>
    .field HttpRequest.connectTimeoutMs (optionField u32Slot) fun connectTimeoutMs =>
    .field HttpRequest.readTimeoutMs (optionField u32Slot) fun readTimeoutMs =>
    .field HttpRequest.idempotent (optionField boolSlot) fun idempotent =>
    .field HttpRequest.decode boolSlot.toField fun decode =>
    .field HttpRequest.route (optionField strSlot) fun route =>
    .field HttpRequest.traceparent (optionField lossySlot) fun traceparent =>
    .done ⟨upstream, method, target, origin, headers, body, timeoutMs, connectTimeoutMs,
      readTimeoutMs, idempotent, decode, route, traceparent⟩ (by
      rintro ⟨_, _, _, _, _, _, _, _, _, _, _, _, _⟩
      simp [and_assoc])
  refine (fields.record (by decide) fun _ => rfl).congr ?_ fun m valid =>
    ⟨valid.upstream, valid.method, valid.target, valid.origin, valid.headers, valid.body,
      valid.timeoutMs, valid.connectTimeoutMs, valid.readTimeoutMs, valid.idempotent, trivial,
      valid.route, valid.traceparent, trivial⟩
  intro m
  simp only [HttpRequest.encode, List.append_assoc, List.append_nil]

/-! ## Heads -/

/-- A length that a client could not hold is written as absent. -/
def carriedLength (n : Option Nat) : Option Nat :=
  n.filter fun n => decide (n < u64WireBound)

def writeLength (n : Option Nat) : Bytes :=
  writeOption writeUint (carriedLength n)

def ValidLength (n : Option Nat) : Prop :=
  ValidOption (· < u64WireBound) n

theorem carriedLength_eq {n : Option Nat} (valid : ValidLength n) : carriedLength n = n := by
  cases n with
  | none => rfl
  | some n =>
    have small : n < u64WireBound := valid
    have kept : decide (n < u64WireBound) = true := decide_eq_true small
    rw [carriedLength, Option.filter_some, if_pos kept]

theorem carriedLength_valid (n : Option Nat) : ValidLength (carriedLength n) := by
  cases n with
  | none => exact trivial
  | some n =>
    rw [carriedLength, Option.filter_some]
    split
    · rename_i small
      have below : n < u64WireBound := of_decide_eq_true small
      exact below
    · exact trivial

theorem lengthField :
    Field writeLength (readOption readCount) ValidLength (IsOption IsCount) where
  back := by
    intro n valid rest
    rw [writeLength, carriedLength_eq valid]
    exact (optionField countSlot).back valid rest
  shaped := (optionField countSlot).shaped

structure HttpDecoded where
  contentEncoding : String
  contentLength : Option Nat
  deriving DecidableEq, Repr

def HttpDecoded.encode (m : HttpDecoded) : Bytes :=
  writeArrayLen 2 ++ writeStr m.contentEncoding ++ writeLength m.contentLength

def readHttpDecoded : Reader HttpDecoded := do
  expectArity 2
  let contentEncoding ← readStr
  let contentLength ← readOption readCount
  pure { contentEncoding, contentLength }

structure ValidHttpDecoded (m : HttpDecoded) : Prop where
  contentEncoding : ShortText m.contentEncoding
  contentLength : ValidLength m.contentLength

def IsHttpDecoded (m : HttpDecoded) : Tree → Prop :=
  IsRecord [IsText m.contentEncoding, IsOption IsCount m.contentLength]

theorem httpDecodedSlot :
    Slot HttpDecoded.encode readHttpDecoded ValidHttpDecoded IsHttpDecoded := by
  have fields : Positions (fun _ => True) _ _ _ _ :=
    .field HttpDecoded.contentEncoding strSlot.toField fun contentEncoding =>
    .field HttpDecoded.contentLength lengthField fun contentLength =>
    .done ⟨contentEncoding, contentLength⟩ (by
      rintro ⟨_, _⟩
      simp)
  refine (fields.record (by decide) fun _ => rfl).congr ?_ fun m valid =>
    ⟨valid.contentEncoding, valid.contentLength, trivial⟩
  intro m
  simp only [HttpDecoded.encode, List.append_assoc, List.append_nil]

structure HttpHead where
  status : Nat
  version : Nat
  reason : Option Bytes
  headers : List HeaderField
  decoded : Option HttpDecoded
  idempotent : Bool
  deriving DecidableEq

def HttpHead.encode (m : HttpHead) : Bytes :=
  writeArrayLen 6 ++ writeUint m.status ++ writeUint m.version ++ writeOption writeBin m.reason ++
    writeHeaders m.headers ++ writeOption HttpDecoded.encode m.decoded ++ writeBool m.idempotent

def readHttpHead : Reader HttpHead := do
  expectArity 6
  let status ← readUnsigned (2 ^ 16)
  let version ← readUnsigned (2 ^ 8)
  let reason ← readOption readBin
  let headers ← readHeaders
  let decoded ← readOption readHttpDecoded
  let idempotent ← readBool
  pure { status, version, reason, headers, decoded, idempotent }

def decodeHttpHead : Bytes → Except CodecError HttpHead :=
  whole readHttpHead

structure ValidHttpHead (m : HttpHead) : Prop where
  status : m.status < 2 ^ 16
  version : m.version < 2 ^ 8
  reason : ValidOption ShortBytes m.reason
  headers : ValidList ValidHeader m.headers
  decoded : ValidOption ValidHttpDecoded m.decoded

def IsHttpHead (m : HttpHead) : Tree → Prop :=
  IsRecord [IsNat m.status, IsNat m.version, IsOption IsBin m.reason, IsList IsHeader m.headers,
    IsOption IsHttpDecoded m.decoded, IsBool m.idempotent]

theorem httpHeadSlot : Slot HttpHead.encode readHttpHead ValidHttpHead IsHttpHead := by
  have fields : Positions (fun _ => True) _ _ _ _ :=
    .field HttpHead.status u16Slot.toField fun status =>
    .field HttpHead.version u8Slot.toField fun version =>
    .field HttpHead.reason (optionField binSlot) fun reason =>
    .field HttpHead.headers headersSlot.toField fun headers =>
    .field HttpHead.decoded (optionField httpDecodedSlot) fun decoded =>
    .field HttpHead.idempotent boolSlot.toField fun idempotent =>
    .done ⟨status, version, reason, headers, decoded, idempotent⟩ (by
      rintro ⟨_, _, _, _, _, _⟩
      simp [and_assoc])
  refine (fields.record (by decide) fun _ => rfl).congr ?_ fun m valid =>
    ⟨valid.status, valid.version, valid.reason, valid.headers, valid.decoded, trivial, trivial⟩
  intro m
  simp only [HttpHead.encode, List.append_assoc, List.append_nil]

/-- What of a head travels. -/
def HttpHead.carried (m : HttpHead) : HttpHead :=
  { m with decoded := m.decoded.map fun d =>
    { d with contentLength := carriedLength d.contentLength } }

theorem httpHead_encode_carried (m : HttpHead) : m.carried.encode = m.encode := by
  have twice : ∀ n, carriedLength (carriedLength n) = carriedLength n :=
    fun n => carriedLength_eq (carriedLength_valid n)
  obtain ⟨status, version, reason, headers, decoded, idempotent⟩ := m
  cases decoded with
  | none => rfl
  | some d =>
    simp only [HttpHead.encode, HttpHead.carried, Option.map_some, writeOption,
      HttpDecoded.encode, writeLength, twice]

/-! ## Bodies and endings -/

/-- A body is its chunk. -/
def encodeHttpBody (chunk : Bytes) : Bytes :=
  writeArrayLen 1 ++ writeBin chunk

def readHttpBody : Reader Bytes := do
  expectArity 1
  readBin

def decodeHttpBody : Bytes → Except CodecError Bytes :=
  whole readHttpBody

def IsHttpBody (chunk : Bytes) : Tree → Prop :=
  IsRecord [IsBin chunk]

theorem httpBodySlot : Slot encodeHttpBody readHttpBody ShortBytes IsHttpBody :=
  (Positions.single binSlot.toField).record (by decide) fun _ => rfl

def readStats : Reader HttpStats := do
  expectArity 8
  let queueUs ← readUnsigned (2 ^ 64)
  let connectUs ← readUnsigned (2 ^ 64)
  let tlsUs ← readUnsigned (2 ^ 64)
  let ttfbUs ← readUnsigned (2 ^ 64)
  let totalUs ← readUnsigned (2 ^ 64)
  let bytesSent ← readUnsigned (2 ^ 64)
  let bytesReceived ← readUnsigned (2 ^ 64)
  let reused ← readBool
  pure { queueUs, connectUs, tlsUs, ttfbUs, totalUs, bytesSent, bytesReceived, reused }

structure ValidStats (s : HttpStats) : Prop where
  queueUs : s.queueUs < 2 ^ 64
  connectUs : s.connectUs < 2 ^ 64
  tlsUs : s.tlsUs < 2 ^ 64
  ttfbUs : s.ttfbUs < 2 ^ 64
  totalUs : s.totalUs < 2 ^ 64
  bytesSent : s.bytesSent < 2 ^ 64
  bytesReceived : s.bytesReceived < 2 ^ 64

def IsStats (s : HttpStats) : Tree → Prop :=
  IsRecord [IsNat s.queueUs, IsNat s.connectUs, IsNat s.tlsUs, IsNat s.ttfbUs, IsNat s.totalUs,
    IsNat s.bytesSent, IsNat s.bytesReceived, IsBool s.reused]

theorem statsSlot : Slot HttpStats.encode readStats ValidStats IsStats := by
  have fields : Positions (fun _ => True) _ _ _ _ :=
    .field HttpStats.queueUs u64Slot.toField fun queueUs =>
    .field HttpStats.connectUs u64Slot.toField fun connectUs =>
    .field HttpStats.tlsUs u64Slot.toField fun tlsUs =>
    .field HttpStats.ttfbUs u64Slot.toField fun ttfbUs =>
    .field HttpStats.totalUs u64Slot.toField fun totalUs =>
    .field HttpStats.bytesSent u64Slot.toField fun bytesSent =>
    .field HttpStats.bytesReceived u64Slot.toField fun bytesReceived =>
    .field HttpStats.reused boolSlot.toField fun reused =>
    .done ⟨queueUs, connectUs, tlsUs, ttfbUs, totalUs, bytesSent, bytesReceived, reused⟩ (by
      rintro ⟨_, _, _, _, _, _, _, _⟩
      simp [and_assoc])
  refine (fields.record (by decide) fun _ => rfl).congr ?_ fun s valid =>
    ⟨valid.queueUs, valid.connectUs, valid.tlsUs, valid.ttfbUs, valid.totalUs, valid.bytesSent,
      valid.bytesReceived, trivial, trivial⟩
  intro s
  simp only [HttpStats.encode, List.append_assoc, List.append_nil]

structure HttpDone where
  trailers : List HeaderField
  stats : HttpStats
  deriving DecidableEq

def HttpDone.encode (m : HttpDone) : Bytes :=
  writeArrayLen 2 ++ writeHeaders m.trailers ++ HttpStats.encode m.stats

def readHttpDone : Reader HttpDone := do
  expectArity 2
  let trailers ← readHeaders
  let stats ← readStats
  pure { trailers, stats }

def decodeHttpDone : Bytes → Except CodecError HttpDone :=
  whole readHttpDone

structure ValidHttpDone (m : HttpDone) : Prop where
  trailers : ValidList ValidHeader m.trailers
  stats : ValidStats m.stats

def IsHttpDone (m : HttpDone) : Tree → Prop :=
  IsRecord [IsList IsHeader m.trailers, IsStats m.stats]

theorem httpDoneSlot : Slot HttpDone.encode readHttpDone ValidHttpDone IsHttpDone := by
  have fields : Positions (fun _ => True) _ _ _ _ :=
    .field HttpDone.trailers headersSlot.toField fun trailers =>
    .field HttpDone.stats statsSlot.toField fun stats =>
    .done ⟨trailers, stats⟩ (by
      rintro ⟨_, _⟩
      simp)
  refine (fields.record (by decide) fun _ => rfl).congr ?_ fun m valid =>
    ⟨valid.trailers, valid.stats, trivial⟩
  intro m
  simp only [HttpDone.encode, List.append_assoc, List.append_nil]

/-- Every message of the service is read back, a length of 2^63 or more as absent, and a decoder
accepts no trailing byte and no other arity. -/
theorem httpCodec_faithful :
    Codec HttpRequest.encode decodeHttpRequest ValidHttpRequest IsHttpRequest ∧
    Codec HttpHead.encode decodeHttpHead ValidHttpHead IsHttpHead ∧
    (∀ m : HttpHead, ValidHttpHead m.carried →
      decodeHttpHead m.encode = .ok m.carried ∧
      ∀ extra : Bytes, extra ≠ [] →
        decodeHttpHead (m.encode ++ extra) = .error (.trailingBytes extra.length)) ∧
    Codec encodeHttpBody decodeHttpBody ShortBytes IsHttpBody ∧
    Codec HttpDone.encode decodeHttpDone ValidHttpDone IsHttpDone := by
  have heads : Codec HttpHead.encode decodeHttpHead ValidHttpHead IsHttpHead := httpHeadSlot.codec
  refine ⟨httpRequestSlot.codec, heads, ?_, httpBodySlot.codec, httpDoneSlot.codec⟩
  intro m valid
  rw [← httpHead_encode_carried m]
  constructor
  · exact heads.back valid
  · intro extra more
    exact heads.appended valid more

end FerroEngine.HttpCodec
