import FerroEngine.QueueReplies

set_option autoImplicit false

/-! # Which terminals fit a frame

Every END frame that the services declare, by where its text comes from, and the exact bound on
the text that the client or the server supplies.
-/

namespace FerroEngine.EndFrameSizes

open MessagePack SourceText FateMapping EndFrames QueueReplies
open AutocommitExec (maxFramePayload QueryResult StreamEnd buildTerminalBody
  buildStreamTerminalBody)

/-! ## Debug texts -/

/-- The Unicode tables behind `{:?}`. -/
structure CharTables where
  graphemeExtended : Char → Bool
  printable : Char → Bool

def escapeUnicode (c : Char) : Text :=
  ['\\', 'u', '\x7b'] ++ Nat.toDigits 16 c.toNat ++ ['\x7d']

/-- `char::escape_debug_ext` as `Debug` for strings calls it: a single quote stays. -/
def escapeDebug (tables : CharTables) (c : Char) : Text :=
  if c = '\x00' then ['\\', '0']
  else if c = '\t' then ['\\', 't']
  else if c = '\r' then ['\\', 'r']
  else if c = '\n' then ['\\', 'n']
  else if c = '\\' then ['\\', '\\']
  else if c = '"' then ['\\', '"']
  else if tables.graphemeExtended c then escapeUnicode c
  else if tables.printable c then [c]
  else escapeUnicode c

def debugText (tables : CharTables) (s : String) : String :=
  String.ofList ('"' :: s.toList.flatMap (escapeDebug tables) ++ ['"'])

/-! ## Errors that quote -/

/-- A request as the refusal of its payload names it. -/
inductive RequestKind where
  | exec
  | begin
  | txControl
  | savepoint
  | copy
  | backup
  | http
  | queue
  deriving DecidableEq, Repr

def RequestKind.text : RequestKind → String
  | .exec => "ExecRequest"
  | .begin => "BeginRequest"
  | .txControl => "TxControl"
  | .savepoint => "SavepointRequest"
  | .copy => "CopyRequest"
  | .backup => "BACKUP request"
  | .http => "HttpRequest"
  | .queue => "QUEUE request"

/-- The reason is the decoder's own text. -/
def malformed (kind : RequestKind) (reason : String) : FateMapping.ErrorPayload :=
  protocol ("malformed " ++ kind.text ++ ": " ++ reason)

def unknownPool (tables : CharTables) (pool : String) : FateMapping.ErrorPayload :=
  unsupported ("unknown pool " ++ debugText tables pool)

/-- The version gate and the shape check quote the server. -/
def storeRefused (store refusal : String) : FateMapping.ErrorPayload :=
  unsupported ("queue store " ++ store ++ ": " ++ refusal)

/-- `str::replace`: the matches do not overlap. -/
def replaceLoop (pattern replacement : Text) : Nat → Text → Text
  | _, [] => []
  | skip + 1, _ :: rest => replaceLoop pattern replacement skip rest
  | 0, c :: rest =>
    if pattern.isPrefixOf (c :: rest) then
      replacement ++ replaceLoop pattern replacement (pattern.length - 1) rest
    else c :: replaceLoop pattern replacement 0 rest

def allowedDirectory : String := "<allowed directory>"

/-- `redact_root` on a text. -/
def redact (root message : String) : String :=
  if root.toList = [] then message
  else String.ofList (replaceLoop root.toList allowedDirectory.toList 0 message.toList)

def redactRoot (root : String) (p : FateMapping.ErrorPayload) : FateMapping.ErrorPayload :=
  { p with message := redact root p.message }

/-! ## The terminals -/

/-- The engine's own words: a fixed text with numbers, names that were checked, and names of its
configuration, each of which is one environment variable. -/
structure Sentence where
  text : String
  bounded : text.utf8ByteSize ≤ 1048576

/-- One line of a header block. -/
structure HeaderField where
  name : String
  value : List UInt8
  deriving DecidableEq

structure HttpStats where
  queueUs : Nat
  connectUs : Nat
  tlsUs : Nat
  ttfbUs : Nat
  totalUs : Nat
  bytesSent : Nat
  bytesReceived : Nat
  reused : Bool
  deriving DecidableEq, Repr

def HeaderField.encode (h : HeaderField) : List UInt8 :=
  writeArrayLen 2 ++ writeStr h.name ++ writeBin h.value

def writeHeaders (headers : List HeaderField) : List UInt8 :=
  writeArrayLen (headers.length % 2 ^ 32) ++ headers.flatMap HeaderField.encode

def HttpStats.encode (s : HttpStats) : List UInt8 :=
  writeArrayLen 8 ++ writeUint s.queueUs ++ writeUint s.connectUs ++ writeUint s.tlsUs ++
    writeUint s.ttfbUs ++ writeUint s.totalUs ++ writeUint s.bytesSent ++
    writeUint s.bytesReceived ++ writeBool s.reused

/-- What a handler can declare. -/
inductive Declared where
  | cancelled
  /-- A refusal in the engine's own words, also for a handler that declares nothing. -/
  | refused (code : Nat) (branch : Branch) (why : Sentence) (detail : Option Sentence)
  | malformed (kind : RequestKind) (reason : String)
  | unknownPool (pool : String)
  | failed (err : PoolError) (ctx : OpContext)
  | backupFailed (err : PoolError) (ctx : OpContext) (root : String)
  | storeRefused (store refusal : String)
  | httpFailed (situation : HttpFate.Situation) (idempotent : Bool)
  /-- A policy refusal with the validator's sentence. -/
  | httpRefused (cause : HttpFate.PolicyCause) (why : Sentence)
  /-- A failure that a TLS alert explains. -/
  | certificateRefused (situation : HttpFate.Situation) (idempotent : Bool) (alert : Sentence)
  | exchanged (trailers : List HeaderField) (stats : HttpStats)
  | rows (result : QueryResult) (fetch queueUs execUs : Nat)
  | streamed (fin : StreamEnd) (streamedRows execUs streamBytes : Nat)
  | begun (txId : Nat)
  | acknowledged
  | backedUp (bytes queueUs execUs : Nat)
  | queueAnswered (reply : Reply) (stats : QueueStats)

def lift (p : FateMapping.ErrorPayload) : HttpFate.ErrorPayload :=
  { code := p.code
    branch := p.branch
    sqlstate := p.sqlstate
    errno := p.errno
    message := p.message
    detail := none
    retryAfterMs := none }

def fateOutcome (say : String → String) : HttpFate.Fate → Outcome
  | .cancelled => .cancelled
  | .error p => .error { p with message := say p.message }

def certificatePrefix (alert message : String) : String :=
  "the upstream refused the TLS client certificate after the handshake (alert " ++ alert ++
    ", SPEC D23): " ++ message

def Declared.outcome (tables : CharTables) : Declared → Outcome
  | .cancelled => .cancelled
  | .refused code branch why detail =>
    .error
      { code := code
        branch := branch
        sqlstate := none
        errno := none
        message := why.text
        detail := detail.map Sentence.text
        retryAfterMs := none }
  | .malformed kind reason => .error (lift (EndFrameSizes.malformed kind reason))
  | .unknownPool pool => .error (lift (EndFrameSizes.unknownPool tables pool))
  | .failed err ctx => .error (lift (classifyFate err ctx))
  | .backupFailed err ctx root => .error (lift (redactRoot root (classifyFate err ctx)))
  | .storeRefused store refusal => .error (lift (EndFrameSizes.storeRefused store refusal))
  | .httpFailed situation idempotent => fateOutcome id (HttpFate.classify situation idempotent)
  | .httpRefused cause why =>
    fateOutcome (fun _ => why.text) (HttpFate.classify (.beforeDispatch (.policy cause)) false)
  | .certificateRefused situation idempotent alert =>
    fateOutcome (certificatePrefix alert.text) (HttpFate.classify situation idempotent)
  | .exchanged trailers stats => .ok (writeArrayLen 2 ++ writeHeaders trailers ++ stats.encode)
  | .rows result fetch queueUs execUs =>
    match buildTerminalBody result fetch queueUs execUs with
    | .ok body => .ok body
    | .error p => .error (lift p)
  | .streamed fin streamedRows execUs streamBytes =>
    .ok (buildStreamTerminalBody fin streamedRows execUs streamBytes)
  | .begun txId => .ok (writeArrayLen 1 ++ writeUint txId)
  | .acknowledged => .ok []
  | .backedUp bytes queueUs execUs =>
    .ok (writeArrayLen 3 ++ writeUint bytes ++ writeUint queueUs ++ writeUint execUs)
  | .queueAnswered reply stats => .ok (reply.encode stats)

/-! ## The bound -/

/-- The longest message of an error that has no other text. -/
def roomForText : Nat := 16777200

/-- A pool's error is short: it was a cancel, or the server's texts leave room for one another. -/
def Brief (shown : String → String) (err : PoolError) : Prop :=
  is57014 err = true ∨
    match err with
    | .sql code _ sqlstate errno message =>
      uintSize code + optionSize textSize sqlstate + optionSize intSize errno +
        textSize (shown message) + 6 ≤ maxFramePayload
    | .unsupported message | .backend message => (shown message).utf8ByteSize ≤ roomForText
    | _ => True

/-- The text that the terminal quotes is short; a terminal that quotes nothing always is. -/
def Declared.Short (tables : CharTables) : Declared → Prop
  | .malformed kind reason =>
    kind.text.utf8ByteSize + reason.utf8ByteSize + 12 ≤ roomForText
  | .unknownPool pool => (debugText tables pool).utf8ByteSize + 13 ≤ roomForText
  | .failed err _ => Brief id err
  | .backupFailed err _ root => Brief (redact root) err
  | .storeRefused store refusal =>
    store.utf8ByteSize + refusal.utf8ByteSize + 14 ≤ roomForText
  | .exchanged trailers stats =>
    (writeHeaders trailers).length + stats.encode.length + 3 ≤ maxFramePayload
  | _ => True

/-! ## Texts -/

theorem textSize_le (s : String) : textSize s ≤ s.utf8ByteSize + 5 :=
  strSize_le _

/-- An error whose only text is its message. -/
theorem lift_payload_sendable (code : Nat) (wide : uintSize code = 3) (branch : Branch)
    (message : String) :
    Sendable (.error (lift (payload code branch message))) ↔
      message.utf8ByteSize ≤ roomForText := by
  rw [sendable_iff, encode_error_length]
  simp only [errorSize, lift, payload, optionSize, wide, textSize]
  unfold maxFramePayload roomForText strSize
  grind

theorem utf8ByteSize_malformed (kind : RequestKind) (reason : String) :
    ("malformed " ++ kind.text ++ ": " ++ reason).utf8ByteSize =
      kind.text.utf8ByteSize + reason.utf8ByteSize + 12 := by
  have lead : "malformed ".utf8ByteSize = 10 := by decide
  have colon : ": ".utf8ByteSize = 2 := by decide
  simp only [String.utf8ByteSize_append, lead, colon]
  omega

theorem utf8ByteSize_unknownPool (text : String) :
    ("unknown pool " ++ text).utf8ByteSize = text.utf8ByteSize + 13 := by
  have lead : "unknown pool ".utf8ByteSize = 13 := by decide
  rw [String.utf8ByteSize_append, lead]
  omega

theorem utf8ByteSize_storeRefused (store refusal : String) :
    ("queue store " ++ store ++ ": " ++ refusal).utf8ByteSize =
      store.utf8ByteSize + refusal.utf8ByteSize + 14 := by
  have lead : "queue store ".utf8ByteSize = 12 := by decide
  have colon : ": ".utf8ByteSize = 2 := by decide
  simp only [String.utf8ByteSize_append, lead, colon]
  omega

theorem byteLen_replaceLoop_le (pattern replacement : Text) (skip : Nat) (text : Text)
    (short : byteLen replacement ≤ 19) :
    byteLen (replaceLoop pattern replacement skip text) ≤ 19 * byteLen text := by
  induction text generalizing skip with
  | nil =>
    rw [replaceLoop]
    exact Nat.zero_le _
  | cons c text ih =>
    have size := Char.utf8Size_pos c
    rw [byteLen_cons]
    cases skip with
    | succ skip =>
      have rest := ih skip
      rw [replaceLoop]
      omega
    | zero =>
      rw [replaceLoop]
      split
      · have rest := ih (pattern.length - 1)
        rw [byteLen_append]
        omega
      · have rest := ih 0
        rw [byteLen_cons]
        omega

theorem utf8ByteSize_redact_le (root message : String) :
    (redact root message).utf8ByteSize ≤ 19 * message.utf8ByteSize := by
  rw [redact]
  split
  · omega
  · have replaced := byteLen_replaceLoop_le root.toList allowedDirectory.toList 0 message.toList
      (by decide)
    have size : message.utf8ByteSize = byteLen message.toList := by
      rw [← utf8ByteSize_ofList, String.ofList_toList]
    rw [utf8ByteSize_ofList, size]
    exact replaced

/-! ## Failures of the pool -/

/-- The texts of the failures of HTTP, those first that have a name. -/
def httpTexts : List String :=
  [HttpFate.notSent, HttpFate.unsent, HttpFate.linkLostIdem, HttpFate.linkLostWrite,
    HttpFate.timeoutWrite, HttpFate.bodyIdem, HttpFate.bodyWrite, HttpFate.drainUnsent,
    HttpFate.drainIdem, HttpFate.drainWrite, HttpFate.drainBody,
    "the upstream could not be reached; nothing was sent (retryable — the engine never re-sends)",
    "the upstream's TLS identity or parameters were refused; nothing was sent",
    "refused by the engine's access policy before sending",
    "the request's deadline elapsed before it was " ++
      "sent (retryable — the engine never re-sends)",
    "the request's deadline elapsed after dispatch, " ++
      "before any byte was sent (retryable — the engine never re-sends)",
    "the request timed out before a response head (declared idempotent)",
    "the response body could not be decoded",
    "the response exceeded the upstream's MAX_RESPONSE_BYTES",
    "the response body was idle longer than the read timeout",
    "the request timed out while the response was delivered"]

/-- Every text that the engine words itself is short. -/
theorem texts_brief :
    (∀ readonly sent inTx : Bool,
      (cancelPayload ⟨readonly, sent, inTx⟩).message.utf8ByteSize ≤ 512 ∧
        (lossPayload ⟨readonly, sent, inTx⟩).message.utf8ByteSize ≤ 512) ∧
      ∀ text ∈ httpTexts, text.utf8ByteSize ≤ 512 := by
  decide +kernel

theorem cancelPayload_words (ctx : OpContext) :
    (cancelPayload ctx).sqlstate = none ∧ (cancelPayload ctx).errno = none ∧
      (cancelPayload ctx).message.utf8ByteSize ≤ 512 := by
  have brief := (texts_brief.1 ctx.readonly ctx.sent ctx.inTx).1
  obtain ⟨readonly, sent, inTx⟩ := ctx
  cases readonly <;> cases sent <;> cases inTx <;> exact ⟨rfl, rfl, brief⟩

theorem lossPayload_words (ctx : OpContext) :
    (lossPayload ctx).sqlstate = none ∧ (lossPayload ctx).errno = none ∧
      (lossPayload ctx).message.utf8ByteSize ≤ 512 := by
  have brief := (texts_brief.1 ctx.readonly ctx.sent ctx.inTx).2
  obtain ⟨readonly, sent, inTx⟩ := ctx
  cases readonly <;> cases sent <;> cases inTx <;> exact ⟨rfl, rfl, brief⟩

/-- An error with short texts, none of them the server's. -/
theorem words_sendable {p : HttpFate.ErrorPayload} (sqlstate : p.sqlstate = none)
    (errno : p.errno = none) (message : p.message.utf8ByteSize ≤ 2097152)
    (detail : optionSize textSize p.detail ≤ 2097152) : Sendable (.error p) := by
  have code := uintSize_le p.code
  have text := textSize_le p.message
  have retry : optionSize uintSize p.retryAfterMs ≤ 9 := by
    cases p.retryAfterMs with
    | none => decide
    | some ms => exact uintSize_le ms
  rw [sendable_iff, encode_error_length, errorSize, sqlstate, errno]
  simp only [optionSize] at *
  unfold maxFramePayload
  omega

theorem ownWords_sendable {shown : String → String}
    (expands : ∀ message, (shown message).utf8ByteSize ≤ 19 * message.utf8ByteSize)
    {p : FateMapping.ErrorPayload} (sqlstate : p.sqlstate = none) (errno : p.errno = none)
    (brief : p.message.utf8ByteSize ≤ 512) :
    Sendable (.error (lift { p with message := shown p.message })) := by
  have shows := expands p.message
  apply words_sendable sqlstate errno
  · exact Nat.le_trans shows (by omega)
  · exact Nat.le_of_ble_eq_true rfl

theorem failed_sendable (shown : String → String)
    (expands : ∀ message, (shown message).utf8ByteSize ≤ 19 * message.utf8ByteSize)
    (err : PoolError) (ctx : OpContext) :
    Sendable (.error (lift
      { classifyFate err ctx with message := shown (classifyFate err ctx).message })) ↔
      Brief shown err := by
  by_cases cancel : is57014 err = true
  · have same : classifyFate err ctx = cancelPayload ctx := by
      unfold classifyFate
      rw [if_pos cancel]
    rw [same]
    have words := cancelPayload_words ctx
    exact iff_of_true (ownWords_sendable expands words.1 words.2.1 words.2.2) (Or.inl cancel)
  · unfold classifyFate Brief
    rw [if_neg cancel, or_iff_right cancel]
    cases err with
    | sql code branch sqlstate errno message =>
      have noDetail : optionSize textSize none = 1 := rfl
      have noRetry : optionSize uintSize none = 1 := rfl
      rw [sendable_iff, encode_error_length]
      simp only [errorSize, lift, noDetail, noRetry]
    | connectionLost =>
      have words := lossPayload_words ctx
      exact iff_of_true (ownWords_sendable expands words.1 words.2.1 words.2.2) trivial
    | timeout =>
      have brief : (payload poolTimeoutCode .retryable
          "timed out waiting for a pooled connection").message.utf8ByteSize ≤ 512 := by decide
      exact iff_of_true (ownWords_sendable expands rfl rfl brief) trivial
    | unsupported message =>
      exact lift_payload_sendable unsupportedCode rfl .nonRetryable (shown message)
    | closed =>
      have brief : (protocol "pool is closed").message.utf8ByteSize ≤ 512 := by decide
      exact iff_of_true (ownWords_sendable expands rfl rfl brief) trivial
    | backend message =>
      exact lift_payload_sendable protocolCode rfl .nonRetryable (shown message)

/-! ## Failures of HTTP -/

def isBrief : HttpFate.Fate → Bool
  | .cancelled => true
  | .error p =>
    p.sqlstate.isNone && p.errno.isNone && decide (p.message.utf8ByteSize ≤ 512) &&
      decide (optionSize textSize p.detail ≤ 512)

theorem isBrief_err {cause message : String} (short : textSize cause ≤ 512)
    (brief : message.utf8ByteSize ≤ 512) (code : Nat) (branch : Branch) :
    isBrief (HttpFate.err code branch cause message) = true := by
  have detail : optionSize textSize (some cause) ≤ 512 := short
  simp only [isBrief, HttpFate.err, Option.isNone_none, brief, detail, decide_true, Bool.and_self]

theorem isBrief_withRetryAfter (fate : HttpFate.Fate) (ms : Nat) :
    isBrief (HttpFate.withRetryAfter fate ms) = isBrief fate := by
  cases fate <;> rfl

theorem dial_isBrief {cause : String} (short : textSize cause ≤ 512) :
    isBrief (HttpFate.dial cause) = true :=
  isBrief_err short (texts_brief.2 _ (by simp [httpTexts])) _ _

theorem tlsRefused_isBrief {cause : String} (short : textSize cause ≤ 512) :
    isBrief (HttpFate.tlsRefused cause) = true :=
  isBrief_err short (texts_brief.2 _ (by simp [httpTexts])) _ _

theorem classifyBeforeDispatch_isBrief (event : HttpFate.BeforeDispatch) :
    isBrief (HttpFate.classifyBeforeDispatch event) = true := by
  have notSent : HttpFate.notSent.utf8ByteSize ≤ 512 :=
    texts_brief.2 _ (by simp [httpTexts])
  cases event with
  | policy cause =>
    apply isBrief_err _ (texts_brief.2 _ (by simp [httpTexts]))
    cases cause <;> decide
  | rateLimited ms | retryAfterHold ms | breakerOpen ms =>
    rw [HttpFate.classifyBeforeDispatch, isBrief_withRetryAfter]
    exact isBrief_err (by decide) notSent _ _
  | breakerProbeBusy | draining | queueFull | queueTimeout | bodyBudget =>
    exact isBrief_err (by decide) notSent _ _
  | cancel => rfl
  | dns | connectRefused | connectUnreachable | connectTimeout | tlsHandshake =>
    exact dial_isBrief (by decide)
  | tlsVerify | tlsVersion | tlsAlpn => exact tlsRefused_isBrief (by decide)
  | deadline => exact isBrief_err (by decide) (texts_brief.2 _ (by simp [httpTexts])) _ _

theorem classifyDispatchedNotSent_isBrief (event : HttpFate.DispatchedNotSent) :
    isBrief (HttpFate.classifyDispatchedNotSent event) = true := by
  cases event with
  | cancel => rfl
  | _ => exact isBrief_err (by decide) (texts_brief.2 _ (by simp [httpTexts])) _ _

theorem classifySentNoHead_isBrief (event : HttpFate.SentNoHead) (idempotent : Bool) :
    isBrief (HttpFate.classifySentNoHead event idempotent) = true := by
  have repeatable : HttpFate.linkLostIdem.utf8ByteSize ≤ 512 :=
    texts_brief.2 _ (by simp [httpTexts])
  have once : HttpFate.linkLostWrite.utf8ByteSize ≤ 512 :=
    texts_brief.2 _ (by simp [httpTexts])
  have timeout : HttpFate.timeoutWrite.utf8ByteSize ≤ 512 :=
    texts_brief.2 _ (by simp [httpTexts])
  cases idempotent with
  | true =>
    cases event with
    | cancel => rfl
    | timeout | drain => exact isBrief_err (by decide) (texts_brief.2 _ (by simp [httpTexts])) _ _
    | _ => exact isBrief_err (by decide) repeatable _ _
  | false =>
    cases event with
    | cancel | timeout => exact isBrief_err (by decide) timeout _ _
    | drain => exact isBrief_err (by decide) (texts_brief.2 _ (by simp [httpTexts])) _ _
    | _ => exact isBrief_err (by decide) once _ _

theorem classifyHeadReceived_isBrief (event : HttpFate.HeadReceived) (idempotent : Bool) :
    isBrief (HttpFate.classifyHeadReceived event idempotent) = true := by
  have repeatable : HttpFate.bodyIdem.utf8ByteSize ≤ 512 :=
    texts_brief.2 _ (by simp [httpTexts])
  have once : HttpFate.bodyWrite.utf8ByteSize ≤ 512 :=
    texts_brief.2 _ (by simp [httpTexts])
  cases idempotent with
  | true =>
    cases event with
    | cancel => rfl
    | bodyReset | bodyEof | bodyFraming | h2StreamError =>
      exact isBrief_err (by decide) repeatable _ _
    | _ => exact isBrief_err (by decide) (texts_brief.2 _ (by simp [httpTexts])) _ _
  | false =>
    cases event with
    | cancel => rfl
    | bodyReset | bodyEof | bodyFraming | h2StreamError => exact isBrief_err (by decide) once _ _
    | _ => exact isBrief_err (by decide) (texts_brief.2 _ (by simp [httpTexts])) _ _

theorem classify_isBrief (situation : HttpFate.Situation) (idempotent : Bool) :
    isBrief (HttpFate.classify situation idempotent) = true := by
  cases situation with
  | beforeDispatch event => exact classifyBeforeDispatch_isBrief event
  | dispatchedNotSent event => exact classifyDispatchedNotSent_isBrief event
  | sentNoHead event => exact classifySentNoHead_isBrief event idempotent
  | headReceived event => exact classifyHeadReceived_isBrief event idempotent

theorem cancelled_sendable : Sendable .cancelled := by
  rw [sendable_iff]
  decide

theorem fateOutcome_sendable (say : String → String) {fate : HttpFate.Fate}
    (brief : isBrief fate = true)
    (voiced : ∀ message, message.utf8ByteSize ≤ 512 → (say message).utf8ByteSize ≤ 2097152) :
    Sendable (fateOutcome say fate) := by
  cases fate with
  | cancelled => exact cancelled_sendable
  | error p =>
    simp only [isBrief, Bool.and_eq_true, Option.isNone_iff_eq_none, decide_eq_true_eq] at brief
    obtain ⟨⟨⟨sqlstate, errno⟩, message⟩, detail⟩ := brief
    have shortDetail : optionSize textSize p.detail ≤ 2097152 := by omega
    have sent : Sendable (.error { p with message := say p.message }) := by
      apply words_sendable
      · exact sqlstate
      · exact errno
      · exact voiced p.message message
      · exact shortDetail
    exact sent

theorem four_texts_le {lead alert note message : String} (first : lead.utf8ByteSize ≤ 100)
    (short : alert.utf8ByteSize ≤ 1048576) (second : note.utf8ByteSize ≤ 100)
    (brief : message.utf8ByteSize ≤ 512) :
    (lead ++ alert ++ note ++ message).utf8ByteSize ≤ 2097152 := by
  simp only [String.utf8ByteSize_append]
  omega

theorem certificatePrefix_le {alert message : String} (short : alert.utf8ByteSize ≤ 1048576)
    (brief : message.utf8ByteSize ≤ 512) :
    (certificatePrefix alert message).utf8ByteSize ≤ 2097152 :=
  four_texts_le (by decide) short (by decide) brief

/-! ## Successes -/

theorem ok_sendable {body : List UInt8} (fits : body.length + 2 ≤ maxFramePayload) :
    Sendable (.ok body) := by
  rw [sendable_iff, encode_ok_length]
  exact fits

theorem lastInsertId_length_le (id : Option Nat) :
    (SqlMessages.writeOptValue (AutocommitExec.lastInsertIdValue id)).length ≤ 11 := by
  cases id with
  | none => decide
  | some n =>
    rw [AutocommitExec.lastInsertIdValue, Option.map_some]
    split
    · have size := writeSint_length_le (n : Int)
      simp only [SqlMessages.writeOptValue, SqlMessages.Value.encode, SqlMessages.Value.payload,
        List.length_append, writePfix_length]
      rw [writeArrayLen_length (by omega)]
      omega
    · have size := writeUint_length_le n
      simp only [SqlMessages.writeOptValue, SqlMessages.Value.encode, SqlMessages.Value.payload,
        List.length_append, writePfix_length]
      rw [writeArrayLen_length (by omega)]
      omega

theorem streamed_length_le (fin : StreamEnd) (streamedRows execUs streamBytes : Nat) :
    (buildStreamTerminalBody fin streamedRows execUs streamBytes).length ≤ 60 := by
  have affected := writeUint_length_le fin.affected
  have id := lastInsertId_length_le fin.lastInsertId
  have queue := writeUint_length_le fin.queueUs
  have exec := writeUint_length_le execUs
  have rows := writeUint_length_le streamedRows
  have bytes := writeUint_length_le streamBytes
  have none : (SqlMessages.encodeCols []).length = 1 := by decide
  have noRows : (SqlMessages.encodeRows []).length = 1 := by decide
  rw [buildStreamTerminalBody]
  simp only [SqlMessages.ExecOk.encode, SqlMessages.Stats.encode, List.length_append, none, noRows]
  rw [writeArrayLen_length (by omega), writeArrayLen_length (by omega)]
  omega

/-- The one producer that measures: the result fits, or an error of the engine says so. -/
theorem buildTerminalBody_cases (result : QueryResult) (fetch queueUs execUs : Nat) :
    (∃ body, buildTerminalBody result fetch queueUs execUs = .ok body ∧
        body.length + 2 ≤ maxFramePayload) ∨
      ∃ message, buildTerminalBody result fetch queueUs execUs = .error (unsupported message) ∧
        message.utf8ByteSize ≤ 512 := by
  unfold buildTerminalBody
  dsimp only
  generalize AutocommitExec.encodeExecOkFixpoint _ = body
  by_cases large : body.length + AutocommitExec.outcomeOkOverhead > maxFramePayload
  · rw [if_pos large]
    exact Or.inr ⟨_, rfl, by decide +kernel⟩
  · rw [if_neg large]
    exact Or.inl ⟨body, rfl, Nat.not_lt.mp large⟩

theorem rows_sendable (tables : CharTables) (result : QueryResult) (fetch queueUs execUs : Nat) :
    Sendable ((Declared.rows result fetch queueUs execUs).outcome tables) := by
  rw [Declared.outcome]
  obtain ⟨body, built, fits⟩ | ⟨message, built, brief⟩ :=
    buildTerminalBody_cases result fetch queueUs execUs
  · rw [built]
    exact ok_sendable fits
  · rw [built]
    apply (lift_payload_sendable unsupportedCode rfl .nonRetryable message).mpr
    rw [roomForText]
    omega

/-! ## Every terminal -/

theorem refused_sendable (code : Nat) (branch : Branch) (why : Sentence)
    (detail : Option Sentence) (tables : CharTables) :
    Sendable ((Declared.refused code branch why detail).outcome tables) := by
  apply words_sendable
  · rfl
  · rfl
  · exact Nat.le_trans why.bounded (by omega)
  · cases detail with
    | none => exact Nat.le_of_ble_eq_true rfl
    | some text =>
      have short := textSize_le text.text
      have bounded := text.bounded
      have size : textSize text.text ≤ 2097152 := by omega
      exact size

theorem unknownPool_sendable (tables : CharTables) (pool : String) :
    Sendable ((Declared.unknownPool pool).outcome tables) ↔
      (debugText tables pool).utf8ByteSize + 13 ≤ roomForText := by
  rw [← utf8ByteSize_unknownPool]
  exact lift_payload_sendable unsupportedCode rfl .nonRetryable _

/-- The writer can send a terminal exactly when the text that it quotes is short. -/
theorem terminal_sendable (tables : CharTables) (d : Declared) :
    Sendable (d.outcome tables) ↔ d.Short tables := by
  cases d with
  | cancelled => exact iff_of_true cancelled_sendable trivial
  | refused code branch why detail =>
    exact iff_of_true (refused_sendable code branch why detail tables) trivial
  | malformed kind reason =>
    rw [Declared.Short, ← utf8ByteSize_malformed]
    exact lift_payload_sendable protocolCode rfl .nonRetryable _
  | unknownPool pool => exact unknownPool_sendable tables pool
  | failed err ctx =>
    have same : ∀ message : String, (id message).utf8ByteSize ≤ 19 * message.utf8ByteSize :=
      fun message => Nat.le_mul_of_pos_left _ (by omega)
    exact failed_sendable id same err ctx
  | backupFailed err ctx root =>
    exact failed_sendable (redact root) (utf8ByteSize_redact_le root) err ctx
  | storeRefused store refusal =>
    rw [Declared.Short, ← utf8ByteSize_storeRefused]
    exact lift_payload_sendable unsupportedCode rfl .nonRetryable _
  | httpFailed situation idempotent =>
    have sent := fateOutcome_sendable id (classify_isBrief situation idempotent)
      fun message brief => Nat.le_trans brief (by omega)
    exact iff_of_true sent trivial
  | httpRefused cause why =>
    have sent := fateOutcome_sendable (fun _ => why.text)
      (classify_isBrief (.beforeDispatch (.policy cause)) false)
      fun _ _ => Nat.le_trans why.bounded (by omega)
    exact iff_of_true sent trivial
  | certificateRefused situation idempotent alert =>
    have sent := fateOutcome_sendable (certificatePrefix alert.text)
      (classify_isBrief situation idempotent)
      fun message brief => certificatePrefix_le alert.bounded brief
    exact iff_of_true sent trivial
  | exchanged trailers stats =>
    rw [Declared.Short, Declared.outcome, sendable_iff, encode_ok_length, List.length_append,
      List.length_append, writeArrayLen_length (by omega)]
    omega
  | rows result fetch queueUs execUs =>
    exact iff_of_true (rows_sendable tables result fetch queueUs execUs) trivial
  | streamed fin streamedRows execUs streamBytes =>
    have short := streamed_length_le fin streamedRows execUs streamBytes
    have frame : 62 ≤ maxFramePayload := by decide
    exact iff_of_true (ok_sendable (by omega)) trivial
  | begun txId =>
    have id := writeUint_length_le txId
    have frame : 62 ≤ maxFramePayload := by decide
    apply iff_of_true _ trivial
    apply ok_sendable
    rw [List.length_append, writeArrayLen_length (by omega)]
    omega
  | acknowledged => exact iff_of_true (ok_sendable (by decide)) trivial
  | backedUp bytes queueUs execUs =>
    have size := writeUint_length_le bytes
    have queue := writeUint_length_le queueUs
    have exec := writeUint_length_le execUs
    have frame : 62 ≤ maxFramePayload := by decide
    apply iff_of_true _ trivial
    apply ok_sendable
    simp only [List.length_append]
    rw [writeArrayLen_length (by omega)]
    omega
  | queueAnswered reply stats =>
    exact iff_of_true (ok_sendable (reply_length_le reply stats)) trivial

/-! ## A pool name of quotes -/

def asciiTables : CharTables :=
  { graphemeExtended := fun _ => false
    printable := fun c => decide (32 ≤ c.toNat ∧ c.toNat < 127) }

def quotes (n : Nat) : String :=
  String.ofList (List.replicate n '"')

def selectOn (pool : String) : SqlMessages.ExecRequest :=
  { pool := pool
    sql := some "SELECT 1"
    queryId := none
    params := []
    timeoutMs := none
    readonly := false
    fetch := 0
    txId := none
    traceparent := none }

theorem selectOn_length_le (pool : String) :
    (selectOn pool).encode.length ≤ pool.utf8ByteSize + 40 := by
  have name : (writeStr pool).length ≤ pool.utf8ByteSize + 5 := by
    rw [writeStr_length]
    exact strSize_le _
  have statement : (writeOption writeStr (some "SELECT 1")).length = 9 := by
    rw [writeOption, writeStr_length]
    decide
  have noText : (writeOption writeStr none).length = 1 := rfl
  have noNumber : (writeOption writeUint none).length = 1 := rfl
  have noParams : (List.flatMap SqlMessages.Value.encode []).length = 0 := rfl
  have fetch : (writeUint 0).length = 1 := rfl
  simp only [SqlMessages.ExecRequest.encode, selectOn, List.length_append, statement, noText,
    noNumber, noParams, fetch, writeBool_length, List.length_nil]
  rw [writeArrayLen_length (by omega), writeArrayLen_length (by omega)]
  omega

theorem utf8ByteSize_quotes (n : Nat) : (quotes n).utf8ByteSize = n := by
  rw [quotes, utf8ByteSize_ofList]
  induction n with
  | zero => rfl
  | succ n ih =>
    have one : ('"' : Char).utf8Size = 1 := by decide
    rw [List.replicate_succ, byteLen_cons, ih, one]
    omega

/-- Every quote is escaped. -/
theorem utf8ByteSize_debugText_quotes (tables : CharTables) (n : Nat) :
    (debugText tables (quotes n)).utf8ByteSize = 2 * n + 2 := by
  have escaped : ∀ k, byteLen ((List.replicate k '"').flatMap (escapeDebug tables)) = 2 * k := by
    intro k
    induction k with
    | zero => rfl
    | succ k ih =>
      have one : byteLen (escapeDebug tables '"') = 2 := rfl
      rw [List.replicate_succ, List.flatMap_cons, byteLen_append, ih, one]
      omega
  have quote : ('"' : Char).utf8Size = 1 := by decide
  rw [debugText, utf8ByteSize_ofList, quotes, String.toList_ofList, List.cons_append, byteLen_cons,
    byteLen_append, escaped, byteLen_cons, byteLen_nil, quote]
  omega

/-- The handler's answer to a request for a pool that it does not have. -/
theorem checkAdmission_unknownPool (pool text : String) :
    AutocommitExec.checkAdmission
        { malformed := none
          poolKnown := false
          poolText := text
          statement := .ok ()
          streams := true } (selectOn pool).fetch =
      .error (unsupported ("unknown pool " ++ text)) := rfl

theorem quotes_unsendable {n : Nat} (many : 8388600 ≤ n) :
    ¬ Sendable ((Declared.unknownPool (quotes n)).outcome asciiTables) := by
  rw [unknownPool_sendable, utf8ByteSize_debugText_quotes, roomForText]
  omega

/-- An EXEC of nine megabytes that the codec admits, with a terminal that it does not. -/
theorem unknownPool_unsendable :
    (selectOn (quotes 9000000)).encode.length ≤ maxFramePayload ∧
      AutocommitExec.checkAdmission
          { malformed := none
            poolKnown := false
            poolText := debugText asciiTables (quotes 9000000)
            statement := .ok ()
            streams := true } (selectOn (quotes 9000000)).fetch =
        .error (unknownPool asciiTables (quotes 9000000)) ∧
      ¬ Sendable ((Declared.unknownPool (quotes 9000000)).outcome asciiTables) := by
  refine ⟨?_, checkAdmission_unknownPool _ _, quotes_unsendable (by decide)⟩
  have request := selectOn_length_le (quotes 9000000)
  rw [utf8ByteSize_quotes] at request
  exact Nat.le_trans request (by decide)

end FerroEngine.EndFrameSizes
