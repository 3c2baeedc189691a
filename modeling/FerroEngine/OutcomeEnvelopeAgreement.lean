import FerroEngine.OutcomeEnvelope

set_option autoImplicit false

/-! # The two outcome codecs agree

On the envelopes that both write, and on every byte string that both accept.
-/

namespace FerroEngine.OutcomeEnvelopeAgreement

open MessagePack
open MessagePackReader (Bytes readArrayLen readPfix readMarker marker Marker marker_fixPos)
open CodecReaders (ofOption Reader readStr readUnsigned readInt readOption expectArity)
open PurePacker (PhpValue packStr packInt packUintInt packArrayLen unpack)
open PurePackerReading PurePackerLaws OutcomeEnvelope

/-! ## One payload in both languages -/

def textBytes (s : Text) : Bytes :=
  s.val.toUTF8.toList

/-- The payload as the client holds it. -/
def toPhp (p : ErrorPayload) : PhpErrorPayload where
  code := p.code.toNat
  branch := p.branch.toNat
  sqlstate := p.sqlstate.map textBytes
  errno := p.errno.map Int32.toInt
  message := textBytes p.message
  detail := p.detail.map textBytes
  retryAfterMs := p.retryAfterMs.map fun n => (n.toNat : Int)

def UintRange (n : Int) : Prop :=
  0 ≤ n ∧ n < 2 ^ 63

def IntRange (n : Int) : Prop :=
  -2 ^ 63 ≤ n ∧ n < 2 ^ 63

def Short (s : Bytes) : Prop :=
  s.length < 2 ^ 32

/-- The payloads that the client's codec can write. -/
structure Encodable (p : PhpErrorPayload) : Prop where
  code : UintRange p.code
  branch : UintRange p.branch
  sqlstate : ∀ s ∈ p.sqlstate, Short s
  errno : ∀ n ∈ p.errno, IntRange n
  message : Short p.message
  detail : ∀ s ∈ p.detail, Short s
  retryAfterMs : ∀ n ∈ p.retryAfterMs, UintRange n

theorem short_textBytes (s : Text) : Short (textBytes s) := by
  unfold Short textBytes
  rw [toUTF8_length]
  exact s.property

theorem encodable_toPhp (p : ErrorPayload) : Encodable (toPhp p) where
  code := by
    have small := p.code.toNat_lt
    unfold UintRange toPhp
    dsimp only
    omega
  branch := by
    have small := p.branch.toNat_lt
    unfold UintRange toPhp
    dsimp only
    omega
  sqlstate := by
    intro s member
    obtain ⟨text, -, rfl⟩ := Option.map_eq_some_iff.mp member
    exact short_textBytes text
  errno := by
    intro n member
    obtain ⟨i, -, rfl⟩ := Option.map_eq_some_iff.mp member
    have low := i.le_toInt
    have high := i.toInt_lt
    unfold IntRange
    omega
  message := short_textBytes p.message
  detail := by
    intro s member
    obtain ⟨text, -, rfl⟩ := Option.map_eq_some_iff.mp member
    exact short_textBytes text
  retryAfterMs := by
    intro n member
    obtain ⟨i, -, rfl⟩ := Option.map_eq_some_iff.mp member
    have small := i.toNat_lt
    unfold UintRange
    omega

def writeBytes (s : Bytes) : Bytes :=
  writeStrLen s.length ++ s

/-- The canonical bytes of a payload. -/
def payloadBytes (p : PhpErrorPayload) : Bytes :=
  writeArrayLen 7 ++ (writeUint p.code.toNat ++ (writeUint p.branch.toNat ++
    (writeOption writeBytes p.sqlstate ++ (writeOption writeSint p.errno ++
      (writeBytes p.message ++ (writeOption writeBytes p.detail ++
        writeOption (fun n => writeUint n.toNat) p.retryAfterMs))))))

theorem writeText_eq (s : Text) : writeText s = writeBytes (textBytes s) := by
  unfold writeText writeStr writeBytes textBytes
  rw [toUTF8_length]
  rfl

theorem writeOption_map {α β : Type} {write : α → Bytes} (write' : β → Bytes) (f : α → β)
    (same : ∀ a, write a = write' (f a)) (o : Option α) :
    writeOption write o = writeOption write' (o.map f) := by
  cases o with
  | none => rfl
  | some a => exact same a

theorem encode_eq_payloadBytes (p : ErrorPayload) : p.encode = payloadBytes (toPhp p) := by
  have unsigned : ∀ n : UInt32, writeUint n.toNat = writeUint (n.toNat : Int).toNat := by
    intro n
    rfl
  unfold ErrorPayload.encode payloadBytes
  rw [writeOption_map writeBytes textBytes writeText_eq p.sqlstate,
    writeOption_map writeBytes textBytes writeText_eq p.detail,
    writeOption_map writeSint Int32.toInt (fun _ => rfl) p.errno,
    writeOption_map (fun n : Int => writeUint n.toNat) (fun n => (n.toNat : Int)) unsigned
      p.retryAfterMs, writeText_eq]
  rfl

theorem packNullable_eq {α : Type} {pack : α → Except PurePacker.CodecError Bytes}
    {write : α → Bytes} {o : Option α} (same : ∀ a ∈ o, pack a = .ok (write a)) :
    packNullable pack o = .ok (writeOption write o) := by
  cases o with
  | none => rfl
  | some a => exact same a rfl

theorem phpEncode_payload {p : PhpErrorPayload} (valid : Encodable p) :
    p.encode = .ok (payloadBytes p) := by
  have texts : ∀ {o : Option Bytes}, (∀ s ∈ o, Short s) →
      packNullable (fun s => .ok (packStr s)) o =
        .ok (writeOption writeBytes o) := by
    intro o short
    apply packNullable_eq
    intro s member
    rw [packStr_eq (short s member)]
    rfl
  have errno : packNullable (fun n => .ok (packInt n)) p.errno =
      .ok (writeOption writeSint p.errno) := by
    apply packNullable_eq
    intro n member
    rw [packInt_eq (valid.errno n member).1 (valid.errno n member).2]
  have retry : packNullable packUintInt p.retryAfterMs =
      .ok (writeOption (fun n => writeUint n.toNat) p.retryAfterMs) := by
    apply packNullable_eq
    intro n member
    exact packUintInt_eq (valid.retryAfterMs n member).1 (valid.retryAfterMs n member).2
  unfold PhpErrorPayload.encode
  rw [packUintInt_eq valid.code.1 valid.code.2, packUintInt_eq valid.branch.1 valid.branch.2,
    texts valid.sqlstate, errno, texts valid.detail, retry, packStr_eq valid.message]
  rfl

/-! ## What the client reads -/

def fieldValue {α : Type} (make : α → PhpValue) : Option α → PhpValue
  | none => .null
  | some a => make a

/-- The seven elements of a payload's array. -/
def payloadValues (p : PhpErrorPayload) : List PhpValue :=
  [.int p.code, .int p.branch, fieldValue .str p.sqlstate, fieldValue .int p.errno,
    .str p.message, fieldValue .str p.detail, fieldValue .int p.retryAfterMs]

theorem wire_nil : Wire .null writeNil :=
  .value rfl

theorem wire_option {α : Type} {make : α → PhpValue} {write : α → Bytes} {o : Option α}
    (wire : ∀ a ∈ o, Wire (make a) (write a)) :
    Wire (fieldValue make o) (writeOption write o) := by
  cases o with
  | none => exact wire_nil
  | some a => exact wire a rfl

theorem wire_uintRange {n : Int} (range : UintRange n) : Wire (.int n) (writeUint n.toNat) := by
  have low := range.1
  have high := range.2
  have wire := wire_writeUint (n := n.toNat) (by omega)
  rw [uintValue, if_pos (by omega), Int.toNat_of_nonneg low] at wire
  exact wire

theorem wire_payload {p : PhpErrorPayload} (valid : Encodable p) :
    Wire (.array (payloadValues p)) (payloadBytes p) := by
  have wires : Wires (payloadValues p) _ :=
    .cons (wire_uintRange valid.code) <|
    .cons (wire_uintRange valid.branch) <|
    .cons (wire_option fun s member => wire_writeStrLen (valid.sqlstate s member)) <|
    .cons (wire_option fun n member =>
      wire_writeSint (valid.errno n member).1 (valid.errno n member).2) <|
    .cons (wire_writeStrLen valid.message) <|
    .cons (wire_option fun s member => wire_writeStrLen (valid.detail s member)) <|
    .cons (wire_option fun n member => wire_uintRange (valid.retryAfterMs n member)) .nil
  rw [List.append_nil] at wires
  exact wire_writeArrayLen (by simp [payloadValues]) wires

theorem nullable_fieldValue {α : Type} (make : α → PhpValue) (convert : PhpValue → α)
    (back : ∀ a, nullable convert (make a) = some a) (o : Option α) :
    nullable convert (fieldValue make o) = o := by
  cases o with
  | none => rfl
  | some a => exact back a

theorem mapFromWire_payloadValues (casts : Casts) (p : PhpErrorPayload) :
    PhpErrorPayload.mapFromWire casts (payloadValues p) = .ok p := by
  have texts := nullable_fieldValue .str (toStr casts) (fun _ => rfl)
  have ints := nullable_fieldValue .int (toInt casts) (fun _ => rfl)
  unfold payloadValues PhpErrorPayload.mapFromWire
  dsimp only
  rw [texts, texts, ints, ints]
  rfl

theorem phpDecode_payload (casts : Casts) {p : PhpErrorPayload} (valid : Encodable p)
    (more : Bytes) :
    PhpErrorPayload.decode casts (payloadBytes p ++ more) =
      if more = [] then .ok p else .error .trailingBytes := by
  have read := unpack_wire (wire_payload valid) [] more
  rw [List.nil_append, List.length_nil, Nat.zero_add] at read
  have whole : (payloadBytes p).length = (payloadBytes p ++ more).length ↔ more = [] := by
    rw [List.length_append, ← List.length_eq_zero_iff]
    omega
  unfold PhpErrorPayload.decode
  rw [read]
  by_cases empty : more = []
  · rw [if_pos empty]
    exact (if_neg (not_not_intro (whole.mpr empty))).trans (mapFromWire_payloadValues casts p)
  · rw [if_neg empty]
    exact if_pos (fun same => empty (whole.mp same))

/-! ## Heads -/

theorem decode_two (deserialize : Deserialize) {b rd : Bytes}
    (two : readArrayLen b = some (2, rd)) :
    Outcome.decode deserialize b =
      ofOption (readPfix rd) >>= fun p => decodeBody deserialize p.1 p.2 := by
  unfold Outcome.decode
  rw [two]
  simp only [ofOption, bind, Except.bind, ne_eq, not_true_eq_false, if_false]

theorem decode_head (deserialize : Deserialize) {status : Nat} (small : status < 128)
    (body : Bytes) :
    Outcome.decode deserialize (0x92 :: UInt8.ofNat status :: body) =
      decodeBody deserialize status body := by
  have fix : readPfix (UInt8.ofNat status :: body) = some (status, body) :=
    MessagePackReader.readPfix_writePfix small body
  rw [decode_two deserialize rfl, fix]
  rfl

theorem marker_inv (c : UInt8) :
    (∀ n, marker c = .fixPos n → c.toNat < 128) ∧ (marker c = .nil → c.toNat = 0xc0) := by
  unfold marker
  dsimp only
  split_ifs with fix map array text negative
  · exact ⟨fun _ _ => fix, nofun⟩
  · exact ⟨nofun, nofun⟩
  · exact ⟨nofun, nofun⟩
  · exact ⟨nofun, nofun⟩
  · exact ⟨nofun, nofun⟩
  · split
    · rename_i nil
      exact ⟨nofun, fun _ => nil⟩
    all_goals exact ⟨nofun, nofun⟩

theorem readPfix_none {c : UInt8} (large : ¬c.toNat < 128) (body : Bytes) :
    readPfix (c :: body) = none := by
  unfold readPfix readMarker
  split
  · rename_i n rest found
    have same := congrArg Prod.fst (Option.some.inj found)
    exact absurd ((marker_inv c).1 n same) large
  · rfl

/-- Behind a two-element head the engine takes a positive fixint only. -/
theorem decode_fixarray {deserialize : Deserialize} {rest : Bytes} {o : Outcome ErrorPayload}
    (done : Outcome.decode deserialize (0x92 :: rest) = .ok o) :
    ∃ status body, status < 128 ∧ rest = UInt8.ofNat status :: body := by
  rw [decode_two deserialize rfl] at done
  cases rest with
  | nil => cases done
  | cons c body =>
    by_cases small : c.toNat < 128
    · exact ⟨c.toNat, body, small, by rw [UInt8.ofNat_toNat]⟩
    · have refused : readPfix (c :: body) = none := readPfix_none small body
      rw [refused] at done
      cases done

theorem phpDecode_head (casts : Casts) {status : Nat} (small : status < 128) (body : Bytes) :
    phpDecode casts (0x92 :: UInt8.ofNat status :: body) = phpDecodeBody casts status body := by
  have read := unpack_wire (wire_fix small) [0x92] body
  have status : unpack (0x92 :: UInt8.ofNat status :: body) 1 = .ok (.int status, 2) := read
  unfold phpDecode
  simp only [ne_eq, not_true_eq_false, if_false, status]
  rfl

theorem phpDecode_fixarray {casts : Casts} {b : Bytes} {o : Outcome PhpErrorPayload}
    (done : phpDecode casts b = .ok o) : ∃ rest, b = 0x92 :: rest := by
  cases b with
  | nil => cases done
  | cons head rest =>
    by_cases fix : head = 0x92
    · exact ⟨rest, by rw [fix]⟩
    · simp only [phpDecode, ne_eq, fix, not_false_eq_true, if_true] at done
      cases done

/-! ## Bodies -/

theorem decode_payload {deserialize : Deserialize} {b rest : Bytes} {p : ErrorPayload}
    (read : deserialize b = some (p, rest)) :
    ErrorPayload.decode deserialize b =
      if rest = [] then .ok p else .error (.trailingBytes rest.length) := by
  unfold ErrorPayload.decode
  rw [read]
  by_cases empty : rest = []
  · rw [if_pos empty]
    exact if_neg (not_not_intro empty)
  · rw [if_neg empty]
    exact if_pos empty

/-- All the engine makes of a body. -/
theorem decodeBody_cases {deserialize : Deserialize} {status : Nat} {body : Bytes}
    {o : Outcome ErrorPayload} (done : decodeBody deserialize status body = .ok o) :
    (status = 0 ∧ o = .ok body) ∨
      (status = 1 ∧ ∃ p, ErrorPayload.decode deserialize body = .ok p ∧ o = .error p) ∨
      (status = 2 ∧ (∃ more, body = 0xc0 :: more) ∧ o = .cancelled) := by
  unfold decodeBody at done
  by_cases ok : status = outcomeOk
  · rw [if_pos ok] at done
    exact .inl ⟨ok, (Except.ok.inj done).symm⟩
  rw [if_neg ok] at done
  by_cases error : status = outcomeError
  · rw [if_pos error] at done
    obtain ⟨p, read, same⟩ := map_ok done
    exact .inr (.inl ⟨error, p, read, same.symm⟩)
  rw [if_neg error] at done
  by_cases cancelled : status = outcomeCancelled
  · rw [if_pos cancelled] at done
    split at done
    · rename_i rest found
      cases body with
      | nil => cases found
      | cons c more =>
        have nil := (marker_inv c).2 (congrArg Prod.fst (Option.some.inj found))
        have byte : c = 0xc0 := by
          rw [← UInt8.ofNat_toNat (x := c), nil]
          rfl
        rw [byte]
        exact .inr (.inr ⟨cancelled, ⟨more, rfl⟩, (Except.ok.inj done).symm⟩)
    · cases done
  · rw [if_neg cancelled] at done
    cases done

theorem shape_null {c : UInt8} (null : shape c.toNat = .value .null) : c = 0xc0 := by
  have byte : c.toNat = 0xc0 := by
    unfold shape at null
    split_ifs at null
    · cases null
    · cases null
    · split at null
      · assumption
      all_goals cases null
  rw [← UInt8.ofNat_toNat (x := c), byte]
  rfl

theorem shape_float {c width : Nat} {float : Nat → PhpValue}
    (kind : shape c = .float width float) (n : Nat) : float n ≠ .null := by
  unfold shape at kind
  split_ifs at kind
  split at kind <;> cases kind <;> nofun

/-- The client's `nil` is one byte. -/
theorem wire_null {b : Bytes} (wire : Wire .null b) : b = [0xc0] := by
  generalize null : PhpValue.null = v at wire
  cases wire with
  | value kind =>
    rw [← null] at kind
    rw [shape_null kind]
  | uint kind length =>
    unfold uintValue at null
    split at null <;> cases null
  | sint kind length => cases null
  | float kind length => exact absurd null.symm (shape_float kind _)
  | text kind => cases null
  | textLen kind length bytes => cases null
  | array kind items => cases null
  | arrayLen kind length count items => cases null

theorem decodeCancelled_ok {body : Bytes} {o : Outcome PhpErrorPayload}
    (done : decodeCancelled body = .ok o) : body = [0xc0] ∧ o = .cancelled := by
  cases read : unpack body 0 with
  | error e =>
    rw [decodeCancelled, read] at done
    cases done
  | ok p =>
    obtain ⟨v, off⟩ := p
    rw [decodeCancelled, read] at done
    cases v with
    | null =>
      by_cases whole : off = body.length
      · obtain ⟨b, wire, spans⟩ := unpack_sound read
        have bytes := spans.bytes
        rw [whole, List.drop_length, List.append_nil, List.drop_zero, wire_null wire] at bytes
        have same := (if_neg (not_not_intro whole)).symm.trans done
        exact ⟨bytes, (Except.ok.inj same).symm⟩
      · cases (if_pos whole).symm.trans done
    | _ => cases done

theorem decodeCancelled_nil : decodeCancelled [0xc0] = .ok .cancelled :=
  rfl

/-- All the client makes of a body. -/
theorem phpDecodeBody_cases {casts : Casts} {status : Nat} {body : Bytes}
    {o : Outcome PhpErrorPayload} (done : phpDecodeBody casts status body = .ok o) :
    (status = 0 ∧ o = .ok body) ∨
      (status = 1 ∧ ∃ p, PhpErrorPayload.decode casts body = .ok p ∧ o = .error p) ∨
      (status = 2 ∧ body = [0xc0] ∧ o = .cancelled) := by
  unfold phpDecodeBody at done
  by_cases ok : (status : Int) = outcomeOk
  · rw [if_pos ok] at done
    exact .inl ⟨Int.ofNat_inj.mp ok, (Except.ok.inj done).symm⟩
  rw [if_neg ok] at done
  by_cases error : (status : Int) = outcomeError
  · rw [if_pos error] at done
    obtain ⟨p, read, same⟩ := map_ok done
    exact .inr (.inl ⟨Int.ofNat_inj.mp error, p, read, same.symm⟩)
  rw [if_neg error] at done
  by_cases cancelled : (status : Int) = outcomeCancelled
  · rw [if_pos cancelled] at done
    exact .inr (.inr ⟨Int.ofNat_inj.mp cancelled, decodeCancelled_ok done⟩)
  · rw [if_neg cancelled] at done
    cases done

/-! ## Agreement -/

/-- rmp-serde reads back a payload and stops behind it. -/
def ReadsPayload (deserialize : Deserialize) : Prop :=
  ∀ (p : ErrorPayload) (rest : Bytes), deserialize (p.encode ++ rest) = some (p, rest)

theorem encode_ok (body : Bytes) :
    Outcome.encode (.ok body) = 0x92 :: UInt8.ofNat 0 :: body :=
  rfl

theorem encode_error (p : ErrorPayload) :
    Outcome.encode (.error p) = 0x92 :: UInt8.ofNat 1 :: p.encode :=
  rfl

theorem encode_cancelled : Outcome.encode .cancelled = [0x92, UInt8.ofNat 2, 0xc0] :=
  rfl

/-- The client's outcomes that its codec can write. -/
def EncodableOutcome : Outcome PhpErrorPayload → Prop
  | .error p => Encodable p
  | _ => True

/-- The bytes of a client's outcome. -/
def outcomeBytes : Outcome PhpErrorPayload → Bytes
  | .ok body => 0x92 :: UInt8.ofNat 0 :: body
  | .error p => 0x92 :: UInt8.ofNat 1 :: payloadBytes p
  | .cancelled => [0x92, UInt8.ofNat 2, 0xc0]

theorem encode_eq_outcomeBytes (o : Outcome ErrorPayload) :
    o.encode = outcomeBytes (o.map toPhp) := by
  cases o with
  | ok body => rfl
  | error p =>
    rw [encode_error, encode_eq_payloadBytes]
    rfl
  | cancelled => rfl

theorem phpEncode_eq {o : Outcome PhpErrorPayload} (valid : EncodableOutcome o) :
    phpEncode o = .ok (outcomeBytes o) := by
  cases o with
  | ok body => rfl
  | error p =>
    have payload : p.encode = .ok (payloadBytes p) := phpEncode_payload valid
    simp only [phpEncode, payload]
    rfl
  | cancelled => rfl

theorem phpDecode_outcomeBytes (casts : Casts) {o : Outcome PhpErrorPayload}
    (valid : EncodableOutcome o) : phpDecode casts (outcomeBytes o) = .ok o := by
  cases o with
  | ok body => exact phpDecode_head casts (by omega) body
  | error p =>
    have payload := phpDecode_payload casts valid []
    rw [List.append_nil, if_pos rfl] at payload
    rw [outcomeBytes, phpDecode_head casts (by omega)]
    change (PhpErrorPayload.decode casts (payloadBytes p)).map _ = _
    rw [payload]
    rfl
  | cancelled => exact (phpDecode_head casts (by omega) _).trans decodeCancelled_nil

theorem encodable_map (o : Outcome ErrorPayload) : EncodableOutcome (o.map toPhp) := by
  cases o with
  | ok body => trivial
  | error p => exact encodable_toPhp p
  | cancelled => trivial

theorem decode_encode {deserialize : Deserialize} (reads : ReadsPayload deserialize)
    (o : Outcome ErrorPayload) : Outcome.decode deserialize o.encode = .ok o := by
  cases o with
  | ok body => exact decode_head deserialize (by decide : 0 < 128) body
  | error p =>
    have payload := reads p []
    rw [List.append_nil] at payload
    rw [encode_error, decode_head deserialize (by omega)]
    change (ErrorPayload.decode deserialize p.encode).map _ = _
    rw [decode_payload payload]
    rfl
  | cancelled => exact decode_head deserialize (by decide : 2 < 128) _

def IsError {ε : Type} (o : Outcome ε) : Prop :=
  ∃ p, o = .error p

/-- The two decoders over every outcome and every byte string. -/
structure Agreement (deserialize : Deserialize) (casts : Casts) : Prop where
  engineBack : ∀ o : Outcome ErrorPayload, Outcome.decode deserialize o.encode = .ok o
  clientBack : ∀ o : Outcome PhpErrorPayload, EncodableOutcome o →
    ∃ b, phpEncode o = .ok b ∧ phpDecode casts b = .ok o
  clientReads : ∀ o : Outcome ErrorPayload, phpDecode casts o.encode = .ok (o.map toPhp)
  engineReads : ∀ o : Outcome ErrorPayload,
    ∃ b, phpEncode (o.map toPhp) = .ok b ∧ Outcome.decode deserialize b = .ok o
  /-- What both accept is of one kind. -/
  sameKind : ∀ b o o', Outcome.decode deserialize b = .ok o → phpDecode casts b = .ok o' →
    (o = .cancelled ↔ o' = .cancelled) ∧ (IsError o ↔ IsError o') ∧
      ∀ body, o = .ok body ↔ o' = .ok body
  /-- The two agree on `Cancelled`, bytes behind the `nil` apart; those the client refuses. -/
  cancelled : ∀ status body, status < 128 → (∀ more, body = 0xc0 :: more → more = []) →
    (Outcome.decode deserialize (0x92 :: UInt8.ofNat status :: body) = .ok .cancelled ↔
      phpDecode casts (0x92 :: UInt8.ofNat status :: body) = .ok .cancelled)
  clientCancelled : ∀ status body, status < 128 →
    (phpDecode casts (0x92 :: UInt8.ofNat status :: body) = .ok .cancelled ↔
      status = outcomeCancelled ∧ body = [0xc0])
  /-- Both refuse what is left over behind an error's payload. -/
  engineError : ∀ status (p : ErrorPayload) more, status < 128 →
    ((∃ q, Outcome.decode deserialize (0x92 :: UInt8.ofNat status :: (p.encode ++ more)) =
      .ok (.error q)) ↔ status = outcomeError ∧ more = [])
  clientError : ∀ status (p : ErrorPayload) more, status < 128 →
    ((∃ q, phpDecode casts (0x92 :: UInt8.ofNat status :: (p.encode ++ more)) =
      .ok (.error q)) ↔ status = outcomeError ∧ more = [])
  engineLeftover : ∀ body p rest, deserialize body = some (p, rest) → rest ≠ [] →
    ∀ o, Outcome.decode deserialize (0x92 :: UInt8.ofNat outcomeError :: body) ≠ .ok o
  clientLeftover : ∀ body v off, unpack body 0 = .ok (v, off) → off ≠ body.length →
    ∀ o, phpDecode casts (0x92 :: UInt8.ofNat outcomeError :: body) ≠ .ok o

section

variable {deserialize : Deserialize} {casts : Casts}

theorem sameKind {b : Bytes} {o : Outcome ErrorPayload} {o' : Outcome PhpErrorPayload}
    (engine : Outcome.decode deserialize b = .ok o) (client : phpDecode casts b = .ok o') :
    (o = .cancelled ↔ o' = .cancelled) ∧ (IsError o ↔ IsError o') ∧
      ∀ body, o = .ok body ↔ o' = .ok body := by
  obtain ⟨rest, rfl⟩ := phpDecode_fixarray client
  obtain ⟨status, body, small, rfl⟩ := decode_fixarray engine
  rw [decode_head deserialize small] at engine
  rw [phpDecode_head casts small] at client
  have left := decodeBody_cases engine
  have right := phpDecodeBody_cases client
  obtain ⟨rfl, rfl⟩ | ⟨rfl, p, -, rfl⟩ | ⟨rfl, -, rfl⟩ := left
  · obtain ⟨-, rfl⟩ | ⟨one, -⟩ | ⟨two, -⟩ := right
    · exact ⟨iff_of_false nofun nofun, iff_of_false nofun nofun, fun _ => by simp⟩
    · omega
    · omega
  · obtain ⟨zero, -⟩ | ⟨-, q, -, rfl⟩ | ⟨two, -⟩ := right
    · omega
    · exact ⟨iff_of_false nofun nofun, iff_of_true ⟨p, rfl⟩ ⟨q, rfl⟩,
        fun _ => iff_of_false nofun nofun⟩
    · omega
  · obtain ⟨zero, -⟩ | ⟨one, -⟩ | ⟨-, -, rfl⟩ := right
    · omega
    · omega
    · exact ⟨iff_of_true rfl rfl, iff_of_false nofun nofun, fun _ => iff_of_false nofun nofun⟩

theorem clientCancelled {status : Nat} (small : status < 128) (body : Bytes) :
    phpDecode casts (0x92 :: UInt8.ofNat status :: body) = .ok .cancelled ↔
      status = outcomeCancelled ∧ body = [0xc0] := by
  rw [phpDecode_head casts small]
  constructor
  · intro done
    obtain ⟨-, other⟩ | ⟨-, p, -, other⟩ | ⟨two, nil, -⟩ := phpDecodeBody_cases done
    · cases other
    · cases other
    · exact ⟨two, nil⟩
  · rintro ⟨rfl, rfl⟩
    exact decodeCancelled_nil

theorem engineCancelled {status : Nat} (small : status < 128) {body : Bytes}
    (clean : ∀ more, body = 0xc0 :: more → more = []) :
    Outcome.decode deserialize (0x92 :: UInt8.ofNat status :: body) = .ok .cancelled ↔
      status = outcomeCancelled ∧ body = [0xc0] := by
  rw [decode_head deserialize small]
  constructor
  · intro done
    obtain ⟨-, other⟩ | ⟨-, p, -, other⟩ | ⟨two, ⟨more, nil⟩, -⟩ := decodeBody_cases done
    · cases other
    · cases other
    · rw [clean more nil] at nil
      exact ⟨two, nil⟩
  · rintro ⟨rfl, rfl⟩
    rfl

theorem engineError (reads : ReadsPayload deserialize) {status : Nat} (small : status < 128)
    (p : ErrorPayload) (more : Bytes) :
    (∃ q, Outcome.decode deserialize (0x92 :: UInt8.ofNat status :: (p.encode ++ more)) =
      .ok (.error q)) ↔ status = outcomeError ∧ more = [] := by
  have payload := decode_payload (reads p more)
  constructor
  · rintro ⟨q, done⟩
    rw [decode_head deserialize small] at done
    obtain ⟨-, other⟩ | ⟨one, q', read, -⟩ | ⟨-, -, other⟩ := decodeBody_cases done
    · cases other
    · refine ⟨one, ?_⟩
      by_contra left
      rw [payload, if_neg left] at read
      cases read
    · cases other
  · rintro ⟨rfl, rfl⟩
    refine ⟨p, ?_⟩
    rw [List.append_nil]
    exact decode_encode reads (.error p)

theorem clientError {status : Nat} (small : status < 128) (p : ErrorPayload) (more : Bytes) :
    (∃ q, phpDecode casts (0x92 :: UInt8.ofNat status :: (p.encode ++ more)) =
      .ok (.error q)) ↔ status = outcomeError ∧ more = [] := by
  have payload := phpDecode_payload casts (encodable_toPhp p) more
  rw [← encode_eq_payloadBytes] at payload
  constructor
  · rintro ⟨q, done⟩
    rw [phpDecode_head casts small] at done
    obtain ⟨-, other⟩ | ⟨one, q', read, -⟩ | ⟨-, -, other⟩ := phpDecodeBody_cases done
    · cases other
    · refine ⟨one, ?_⟩
      by_contra left
      rw [payload, if_neg left] at read
      cases read
    · cases other
  · rintro ⟨rfl, rfl⟩
    have back := phpDecode_outcomeBytes casts (encodable_map (.error p))
    rw [← encode_eq_outcomeBytes, encode_error] at back
    rw [List.append_nil]
    exact ⟨toPhp p, back⟩

/-- The two codecs write the same bytes and read them back, and what both accept is of one
kind. -/
theorem envelope_agrees (reads : ReadsPayload deserialize) : Agreement deserialize casts where
  engineBack := decode_encode reads
  clientBack := by
    intro o valid
    exact ⟨outcomeBytes o, phpEncode_eq valid, phpDecode_outcomeBytes casts valid⟩
  clientReads := by
    intro o
    rw [encode_eq_outcomeBytes]
    exact phpDecode_outcomeBytes casts (encodable_map o)
  engineReads := by
    intro o
    refine ⟨o.encode, ?_, decode_encode reads o⟩
    rw [encode_eq_outcomeBytes]
    exact phpEncode_eq (encodable_map o)
  sameKind := fun _ _ _ engine client => sameKind engine client
  cancelled := by
    intro status body small clean
    rw [engineCancelled small clean, clientCancelled small]
  clientCancelled := fun _ body small => clientCancelled small body
  engineError := fun _ p more small => engineError reads small p more
  clientError := fun _ p more small => clientError small p more
  engineLeftover := by
    intro body p rest read left o done
    rw [decode_head deserialize (by decide)] at done
    obtain ⟨other, -⟩ | ⟨-, q, payload, -⟩ | ⟨other, -⟩ := decodeBody_cases done
    · cases other
    · rw [decode_payload read, if_neg left] at payload
      cases payload
    · cases other
  clientLeftover := by
    intro body v off read left o done
    rw [phpDecode_head casts (by decide)] at done
    obtain ⟨other, -⟩ | ⟨-, q, payload, -⟩ | ⟨other, -⟩ := phpDecodeBody_cases done
    · cases other
    · rw [PhpErrorPayload.decode, read] at payload
      cases (if_pos left).symm.trans payload
    · cases other

end

/-! ## A deserializer -/

def toText (s : String) : Text :=
  if short : s.utf8ByteSize < 2 ^ 32 then ⟨s, short⟩ else ⟨"", by decide⟩

def readPayload : Reader ErrorPayload := do
  expectArity 7
  let code ← readUnsigned (2 ^ 16)
  let branch ← readUnsigned (2 ^ 8)
  let sqlstate ← readOption readStr
  let errno ← readOption (readInt (-2 ^ 63) (2 ^ 63))
  let message ← readStr
  let detail ← readOption readStr
  let retryAfterMs ← readOption (readUnsigned (2 ^ 32))
  return { code := UInt16.ofNat code
           branch := UInt8.ofNat branch
           sqlstate := sqlstate.map toText
           errno := errno.map Int32.ofInt
           message := toText message
           detail := detail.map toText
           retryAfterMs := retryAfterMs.map UInt32.ofNat }

def deserializeFields (b : Bytes) : Option (ErrorPayload × Bytes) :=
  (readPayload b).toOption

theorem run_bind {α β : Type} {read : Reader α} {f : α → Reader β} {b rest : Bytes} {a : α}
    (done : read b = .ok (a, rest)) : (read >>= f) b = f a rest := by
  simp only [bind, StateT.bind, done, Except.bind]

theorem toText_val (s : Text) : toText s.val = s :=
  dif_pos s.property

theorem map_map_id {α β : Type} {f : α → β} {g : β → α} (back : ∀ a, g (f a) = a)
    (o : Option α) : (o.map f).map g = o := by
  cases o with
  | none => rfl
  | some a => exact congrArg some (back a)

theorem validOption_map {α β : Type} {Valid : β → Prop} {f : α → β} (valid : ∀ a, Valid (f a))
    (o : Option α) : CodecLaws.ValidOption Valid (o.map f) := by
  cases o with
  | none => trivial
  | some a => exact valid a

theorem readOption_back {α β : Type} {write : β → Bytes} {read : Reader β} {Valid : β → Prop}
    {Shape : β → MessagePackReader.Tree → Prop} (slot : CodecLaws.Slot write read Valid Shape)
    (write' : α → Bytes) (f : α → β) (same : ∀ a, write' a = write (f a))
    (valid : ∀ a, Valid (f a)) (o : Option α) (rest : Bytes) :
    readOption read (writeOption write' o ++ rest) = .ok (o.map f, rest) := by
  rw [writeOption_map write f same]
  exact (CodecLaws.optionField slot).back (validOption_map valid o) rest

theorem readsPayload_fields : ReadsPayload deserializeFields := by
  intro p rest
  have texts := readOption_back CodecLaws.strSlot writeText Subtype.val
    (fun _ => rfl) (fun s => s.property)
  have errno := readOption_back CodecLaws.intSlot (fun n => writeSint n.toInt)
    Int32.toInt (fun _ => rfl) (fun n => by have := n.le_toInt; have := n.toInt_lt; omega)
  have retry := readOption_back CodecLaws.u32Slot (fun n => writeUint n.toNat)
    UInt32.toNat (fun _ => rfl) UInt32.toNat_lt
  have message : ∀ more, readStr (writeText p.message ++ more) = .ok (p.message.val, more) :=
    CodecLaws.strSlot.back p.message.property
  have read : readPayload (p.encode ++ rest) = .ok (p, rest) := by
    unfold readPayload ErrorPayload.encode
    simp only [List.append_assoc]
    rw [run_bind (CodecLaws.expectArity_append (by omega) _),
      run_bind (CodecLaws.u16Slot.back p.code.toNat_lt _),
      run_bind (CodecLaws.u8Slot.back p.branch.toNat_lt _), run_bind (texts p.sqlstate _),
      run_bind (errno p.errno _), run_bind (message _),
      run_bind (texts p.detail _), run_bind (retry p.retryAfterMs rest)]
    rw [map_map_id toText_val, map_map_id toText_val, map_map_id (fun n => Int32.ofInt_toInt n),
      map_map_id (fun n => UInt32.ofNat_toNat), toText_val, UInt16.ofNat_toNat,
      UInt8.ofNat_toNat]
    rfl
  unfold deserializeFields
  rw [read]
  rfl

/-- No cast is needed for a payload of the protocol's types. -/
def noCasts : Casts where
  intOfFloat32 := fun _ => 0
  intOfFloat64 := fun _ => 0
  intOfString := fun _ => 0
  stringOfFloat32 := fun _ => []
  stringOfFloat64 := fun _ => []

theorem envelope_agrees_fields : Agreement deserializeFields noCasts :=
  envelope_agrees readsPayload_fields

/-- A head of three bytes is `Cancelled` to the engine only, a status of two to the client only. -/
theorem wideHead_engineOnly :
    Outcome.decode deserializeFields [0xdc, 0, 2, 2, 0xc0] = .ok .cancelled ∧
      phpDecode noCasts [0xdc, 0, 2, 2, 0xc0] = .error (.expectedFixarray 0xdc) ∧
      phpDecode noCasts [0x92, 0xcc, 2, 0xc0] = .ok .cancelled ∧
      Outcome.decode deserializeFields [0x92, 0xcc, 2, 0xc0] = .error .malformed := by
  have head : readArrayLen [0xdc, 0, 2, 2, 0xc0] = some (2, [2, 0xc0]) := rfl
  have narrow : readArrayLen [0x92, 0xcc, 2, 0xc0] = some (2, [0xcc, 2, 0xc0]) := rfl
  refine ⟨?_, rfl, rfl, ?_⟩
  · rw [decode_two deserializeFields head]
    rfl
  · rw [decode_two deserializeFields narrow]
    rfl

end FerroEngine.OutcomeEnvelopeAgreement
