import FerroEngine.EndFrames
import FerroEngine.MessagePackReader

set_option autoImplicit false

/-! # Frame reassembly

`Header` of `ferro-proto/src/header.rs` and `FrameCodec` of `session/codec.rs`. The decoder keeps
the bytes it has not used in its buffer and is called until it yields nothing.
-/

namespace FerroEngine.FrameCodec

open AutocommitExec (maxFramePayload)
open MessagePack (bigEndian bigEndian_length)
open MessagePackReader (Bytes bigEndianValue bigEndianValue_bigEndian)
open EndFrames (littleEndian)

/-! ## Headers -/

def magic : UInt8 := 0xF7

def protocolVersion : UInt8 := 4

def headerLen : Nat := 16

structure Header where
  flags : UInt16
  service : UInt16
  method : UInt16
  requestId : UInt32
  payloadLen : UInt32
  deriving DecidableEq, Repr

inductive CodecError where
  | truncated (need found : Nat)
  | badMagic (expected got : UInt8)
  | badVersion (expected got : UInt8)
  | frameTooLarge (len max : Nat)
  deriving DecidableEq, Repr

def Header.encode (h : Header) : Bytes :=
  [magic, protocolVersion] ++ littleEndian 2 h.flags.toNat ++ littleEndian 2 h.service.toNat ++
    littleEndian 2 h.method.toNat ++ littleEndian 4 h.requestId.toNat ++
    littleEndian 4 h.payloadLen.toNat

/-- The terminals' headers are the same bytes. -/
theorem encode_terminal (h : Header) :
    h.encode =
      EndFrames.Header.encode
        { flags := h.flags.toNat
          service := h.service.toNat
          method := h.method.toNat
          requestId := h.requestId.toNat
          payloadLen := h.payloadLen.toNat } :=
  rfl

/-- `from_le_bytes` of the bytes from `start` on. -/
def fromLittleEndian (buf : Bytes) (start width : Nat) : Nat :=
  bigEndianValue ((buf.drop start).take width).reverse

def Header.decode (buf : Bytes) : Except CodecError Header :=
  if buf.length < headerLen then .error (.truncated headerLen buf.length)
  else if buf.getD 0 0 ≠ magic then .error (.badMagic magic (buf.getD 0 0))
  else if buf.getD 1 0 ≠ protocolVersion then
    .error (.badVersion protocolVersion (buf.getD 1 0))
  else
    let payloadLen := fromLittleEndian buf 12 4
    if maxFramePayload < payloadLen then .error (.frameTooLarge payloadLen maxFramePayload)
    else
      .ok
        { flags := UInt16.ofNat (fromLittleEndian buf 2 2)
          service := UInt16.ofNat (fromLittleEndian buf 4 2)
          method := UInt16.ofNat (fromLittleEndian buf 6 2)
          requestId := UInt32.ofNat (fromLittleEndian buf 8 4)
          payloadLen := UInt32.ofNat payloadLen }

/-! ## The codec -/

/-- A frame as the codec's two sides see it. -/
structure Frame where
  header : Header
  payload : Bytes
  deriving DecidableEq, Repr

/-- `FrameCodec::encode`, with the bytes that are already in the buffer. -/
def encode (item : Frame) (dst : Bytes) : Except CodecError Bytes :=
  if maxFramePayload < item.payload.length then
    .error (.frameTooLarge (item.payload.length % 2 ^ 32) maxFramePayload)
  else .ok (dst ++ item.header.encode ++ item.payload)

/-- `FrameCodec::decode`: what it returns and what it leaves in the buffer. -/
def decode (src : Bytes) : Except CodecError (Option Frame) × Bytes :=
  if src.length < headerLen then (.ok none, src)
  else
    match Header.decode (src.take headerLen) with
    | .error e => (.error e, src)
    | .ok header =>
      let need := headerLen + header.payloadLen.toNat
      if src.length < need then (.ok none, src)
      else
        let src := src.drop headerLen
        (.ok (some { header := header, payload := src.take header.payloadLen.toNat }),
          src.drop header.payloadLen.toNat)

theorem decode_frame {src rest : Bytes} {f : Frame} (found : decode src = (.ok (some f), rest)) :
    src = src.take headerLen ++ f.payload ++ rest ∧
      Header.decode (src.take headerLen) = .ok f.header ∧
      headerLen + f.header.payloadLen.toNat ≤ src.length ∧
      f.payload.length = f.header.payloadLen.toNat := by
  rw [decode] at found
  split at found
  · cases found
  · rename_i long
    split at found
    · cases found
    · rename_i header valid
      dsimp only at found
      split at found
      · cases found
      · rename_i whole
        cases found
        refine ⟨?_, valid, Nat.not_lt.mp whole, ?_⟩
        · rw [List.append_assoc, List.take_append_drop, List.take_append_drop]
        · dsimp only
          rw [List.length_take, List.length_drop]
          omega

theorem decode_shorter {src rest : Bytes} {f : Frame}
    (found : decode src = (.ok (some f), rest)) : rest.length < src.length := by
  obtain ⟨parts, -, room, sized⟩ := decode_frame found
  have lengths := congrArg List.length parts
  rw [List.length_append, List.length_append, List.length_take] at lengths
  unfold headerLen at lengths room
  omega

/-- The reader's loop after a chunk: the frames, the error that ended it and the buffer. -/
structure Drained where
  frames : List Frame
  error : Option CodecError
  buffer : Bytes
  deriving DecidableEq, Repr

def drain (src : Bytes) : Drained :=
  match _found : decode src with
  | (.ok (some f), rest) =>
    let later := drain rest
    { later with frames := f :: later.frames }
  | (.ok none, rest) => { frames := [], error := none, buffer := rest }
  | (.error e, rest) => { frames := [], error := some e, buffer := rest }
termination_by src.length
decreasing_by exact decode_shorter _found

/-- Each chunk is appended to the buffer and drained; an error ends the reading. -/
def feed (buffer : Bytes) : List Bytes → Drained
  | [] => { frames := [], error := none, buffer := buffer }
  | chunk :: chunks =>
    let now := drain (buffer ++ chunk)
    match now.error with
    | some _ => now
    | none =>
      let later := feed now.buffer chunks
      { later with frames := now.frames ++ later.frames }

/-- The writer's side: every frame appended to what is there. -/
def encodeAll : List Frame → Bytes → Except CodecError Bytes
  | [], dst => .ok dst
  | f :: later, dst => (encode f dst).bind (encodeAll later)

/-! ## One call, however much has arrived -/

theorem decode_append {src rest : Bytes} {f : Frame}
    (found : decode src = (.ok (some f), rest)) (more : Bytes) :
    decode (src ++ more) = (.ok (some f), rest ++ more) := by
  obtain ⟨parts, valid, room, sized⟩ := decode_frame found
  have front : (src ++ more).take headerLen = src.take headerLen :=
    List.take_append_of_le_length (by omega)
  have after : (src ++ more).drop headerLen = f.payload ++ (rest ++ more) := by
    rw [List.drop_append_of_le_length (by omega)]
    have tail : src.drop headerLen = f.payload ++ rest := by
      have whole := List.take_append_drop headerLen src
      rw [List.append_assoc] at parts
      exact List.append_cancel_left (whole.trans parts)
    rw [tail, List.append_assoc]
  have long : ¬(src ++ more).length < headerLen := by
    rw [List.length_append]
    omega
  have whole : ¬(src ++ more).length < headerLen + f.header.payloadLen.toNat := by
    rw [List.length_append]
    omega
  rw [decode, if_neg long, front, valid]
  dsimp only
  rw [if_neg whole, after, ← sized, List.take_left, List.drop_left]

theorem decode_error {src left : Bytes} {e : CodecError} (failed : decode src = (.error e, left)) :
    left = src ∧ headerLen ≤ src.length ∧ Header.decode (src.take headerLen) = .error e := by
  rw [decode] at failed
  split at failed
  · cases failed
  · rename_i long
    split at failed
    · rename_i bad
      cases failed
      exact ⟨rfl, Nat.not_lt.mp long, bad⟩
    · dsimp only at failed
      split at failed <;> cases failed

theorem decode_bad {src : Bytes} {e : CodecError} (long : headerLen ≤ src.length)
    (bad : Header.decode (src.take headerLen) = .error e) (more : Bytes) :
    decode (src ++ more) = (.error e, src ++ more) := by
  have front : (src ++ more).take headerLen = src.take headerLen :=
    List.take_append_of_le_length long
  have long' : ¬(src ++ more).length < headerLen := by
    rw [List.length_append]
    omega
  rw [decode, if_neg long', front, bad]

theorem decode_none {src left : Bytes} (nothing : decode src = (.ok none, left)) :
    left = src := by
  rw [decode] at nothing
  split at nothing
  · cases nothing
    rfl
  · split at nothing
    · cases nothing
    · dsimp only at nothing
      split at nothing
      · cases nothing
        rfl
      · cases nothing

/-! ## The loop -/

theorem drain_frame {src rest : Bytes} {f : Frame} (found : decode src = (.ok (some f), rest)) :
    drain src = { drain rest with frames := f :: (drain rest).frames } := by
  rw [drain]
  split
  · rename_i same
    rw [found] at same
    cases same
    rfl
  · rename_i other
    rw [found] at other
    cases other
  · rename_i other
    rw [found] at other
    cases other

theorem drain_none {src left : Bytes} (nothing : decode src = (.ok none, left)) :
    drain src = { frames := [], error := none, buffer := src } := by
  have same := decode_none nothing
  subst same
  rw [drain]
  split
  · rename_i other
    rw [nothing] at other
    cases other
  · rename_i other
    rw [nothing] at other
    cases other
    rfl
  · rename_i other
    rw [nothing] at other
    cases other

theorem drain_error {src left : Bytes} {e : CodecError} (failed : decode src = (.error e, left)) :
    drain src = { frames := [], error := some e, buffer := src } := by
  have same := (decode_error failed).1
  subst same
  rw [drain]
  split
  · rename_i other
    rw [failed] at other
    cases other
  · rename_i other
    rw [failed] at other
    cases other
  · rename_i other
    rw [failed] at other
    cases other
    rfl

/-- What two drains in a row give: an error of the first one stays. -/
def Drained.andThen (first second : Drained) (unread : Bytes) : Drained :=
  match first.error with
  | some e => { frames := first.frames, error := some e, buffer := first.buffer ++ unread }
  | none => { second with frames := first.frames ++ second.frames }

/-- Draining does not depend on where the bytes were cut. -/
theorem drain_append (x y : Bytes) :
    drain (x ++ y) = (drain x).andThen (drain ((drain x).buffer ++ y)) y := by
  induction size : x.length using Nat.strongRecOn generalizing x with
  | _ n ih =>
    cases called : decode x with
    | mk result left =>
      match result with
      | .ok (some f) =>
        have smaller := decode_shorter called
        rw [drain_frame (decode_append called y), drain_frame called,
          ih left.length (size ▸ smaller) left rfl]
        rw [Drained.andThen, Drained.andThen]
        cases (drain left).error <;> rfl
      | .ok none =>
        rw [drain_none called]
        rfl
      | .error e =>
        obtain ⟨-, long, bad⟩ := decode_error called
        rw [drain_error (decode_bad long bad y), drain_error called]
        rfl

/-- A loop that ended without an error has nothing more to yield. -/
theorem drain_buffer {x : Bytes} (quiet : (drain x).error = none) :
    drain (drain x).buffer =
      { frames := []
        error := none
        buffer := (drain x).buffer } := by
  have again := drain_append x []
  rw [List.append_nil, List.append_nil, Drained.andThen, quiet] at again
  dsimp only at again
  have frames := congrArg Drained.frames again
  have error := congrArg Drained.error again
  have buffer := congrArg Drained.buffer again
  dsimp only at frames error buffer
  have none_left := List.self_eq_append_right.mp frames
  rw [quiet] at error
  generalize drain (drain x).buffer = second at *
  cases second
  simp only [Drained.mk.injEq]
  exact ⟨none_left, error.symm, buffer.symm⟩

/-- The chunks give what their concatenation gives, less the bytes unread after an error. -/
theorem feed_eq (buffer : Bytes) (chunks : List Bytes)
    (stuck : drain buffer = { frames := [], error := none, buffer := buffer }) :
    ∃ unread, drain (buffer ++ chunks.flatten) =
        { feed buffer chunks with buffer := (feed buffer chunks).buffer ++ unread } ∧
      ((feed buffer chunks).error = none → unread = []) := by
  induction chunks generalizing buffer with
  | nil =>
    refine ⟨[], ?_, fun _ => rfl⟩
    rw [List.flatten_nil, List.append_nil, stuck, feed, List.append_nil]
  | cons chunk chunks ih =>
    rw [List.flatten_cons, ← List.append_assoc, drain_append, feed]
    dsimp only
    cases ended : (drain (buffer ++ chunk)).error with
    | some e =>
      refine ⟨chunks.flatten, ?_, ?_⟩
      · rw [Drained.andThen, ended]
      · dsimp only
        rw [ended]
        nofun
    | none =>
      obtain ⟨unread, same, read⟩ := ih _ (drain_buffer ended)
      refine ⟨unread, ?_, read⟩
      rw [Drained.andThen, ended]
      dsimp only
      rw [same]

/-! ## Headers, read back -/

theorem littleEndian_length (width n : Nat) : (littleEndian width n).length = width := by
  rw [littleEndian, List.length_reverse, bigEndian_length]

theorem encode_length (h : Header) : h.encode.length = headerLen := by
  rw [Header.encode]
  simp only [List.length_append, littleEndian_length, List.length_cons, List.length_nil]
  rfl

theorem fromLittleEndian_field (before after : Bytes) {width n start : Nat}
    (placed : before.length = start) (small : n < 256 ^ width) :
    fromLittleEndian (before ++ (littleEndian width n ++ after)) start width = n := by
  have taken : (littleEndian width n ++ after).take width = littleEndian width n :=
    List.take_left' (littleEndian_length width n)
  rw [fromLittleEndian, ← placed, List.drop_left, taken, littleEndian, List.reverse_reverse,
    bigEndianValue_bigEndian, Nat.mod_eq_of_lt small]

/-- A field of a header by the bytes that stand before it. -/
theorem encode_field (h : Header) (before after : Bytes) {width n start : Nat}
    (parts : h.encode = before ++ (littleEndian width n ++ after))
    (placed : before.length = start) (small : n < 256 ^ width) :
    fromLittleEndian h.encode start width = n := by
  rw [parts]
  exact fromLittleEndian_field before after placed small

theorem decode_encode (h : Header) (fits : h.payloadLen.toNat ≤ maxFramePayload) :
    Header.decode h.encode = .ok h := by
  have flags : fromLittleEndian h.encode 2 2 = h.flags.toNat :=
    encode_field h [magic, protocolVersion] _
      (by simp only [Header.encode, List.append_assoc]; rfl) rfl h.flags.toNat_lt
  have service : fromLittleEndian h.encode 4 2 = h.service.toNat :=
    encode_field h ([magic, protocolVersion] ++ littleEndian 2 h.flags.toNat) _
      (by simp only [Header.encode, List.append_assoc]; rfl)
      (by simp only [List.length_append, littleEndian_length]; rfl) h.service.toNat_lt
  have method : fromLittleEndian h.encode 6 2 = h.method.toNat :=
    encode_field h ([magic, protocolVersion] ++ littleEndian 2 h.flags.toNat ++
        littleEndian 2 h.service.toNat) _
      (by simp only [Header.encode, List.append_assoc]; rfl)
      (by simp only [List.length_append, littleEndian_length]; rfl) h.method.toNat_lt
  have requestId : fromLittleEndian h.encode 8 4 = h.requestId.toNat :=
    encode_field h ([magic, protocolVersion] ++ littleEndian 2 h.flags.toNat ++
        littleEndian 2 h.service.toNat ++ littleEndian 2 h.method.toNat) _
      (by simp only [Header.encode, List.append_assoc]; rfl)
      (by simp only [List.length_append, littleEndian_length]; rfl) h.requestId.toNat_lt
  have payloadLen : fromLittleEndian h.encode 12 4 = h.payloadLen.toNat :=
    encode_field h ([magic, protocolVersion] ++ littleEndian 2 h.flags.toNat ++
        littleEndian 2 h.service.toNat ++ littleEndian 2 h.method.toNat ++
        littleEndian 4 h.requestId.toNat) []
      (by rw [Header.encode, List.append_nil])
      (by simp only [List.length_append, littleEndian_length]; rfl) h.payloadLen.toNat_lt
  have long : ¬h.encode.length < headerLen := by
    rw [encode_length]
    exact Nat.lt_irrefl _
  have first : h.encode.getD 0 0 = magic := rfl
  have second : h.encode.getD 1 0 = protocolVersion := rfl
  rw [Header.decode, if_neg long, first, if_neg (not_not_intro rfl), second,
    if_neg (not_not_intro rfl)]
  dsimp only
  rw [payloadLen, if_neg (Nat.not_lt.mpr fits), flags, service, method, requestId]
  simp only [UInt16.ofNat_toNat, UInt32.ofNat_toNat]

/-! ## Frames -/

/-- What the encoder asserts of a frame, and the limit it checks. -/
structure Frame.Valid (f : Frame) : Prop where
  sized : f.header.payloadLen.toNat = f.payload.length
  fits : f.payload.length ≤ maxFramePayload

theorem decode_frame_bytes {f : Frame} (valid : f.Valid) (rest : Bytes) :
    decode (f.header.encode ++ f.payload ++ rest) = (.ok (some f), rest) := by
  obtain ⟨sized, fits⟩ := valid
  have front : (f.header.encode ++ (f.payload ++ rest)).take headerLen = f.header.encode :=
    List.take_left' (encode_length f.header)
  have after : (f.header.encode ++ (f.payload ++ rest)).drop headerLen = f.payload ++ rest :=
    List.drop_left' (encode_length f.header)
  have lengths : (f.header.encode ++ (f.payload ++ rest)).length =
      headerLen + (f.payload.length + rest.length) := by
    rw [List.length_append, encode_length, List.length_append]
  rw [List.append_assoc, decode, if_neg (by rw [lengths]; omega), front,
    decode_encode f.header (sized ▸ fits)]
  dsimp only
  rw [if_neg (by rw [lengths]; omega), after, sized, List.take_left, List.drop_left]

/-- The bytes of the frames, one after another. -/
def wire (frames : List Frame) : Bytes :=
  frames.flatMap fun f => f.header.encode ++ f.payload

theorem wire_cons (f : Frame) (later : List Frame) :
    wire (f :: later) = f.header.encode ++ f.payload ++ wire later := by
  rw [wire, List.flatMap_cons, wire]

theorem encodeAll_wire {frames : List Frame} (valid : ∀ f ∈ frames, f.Valid) (dst : Bytes) :
    encodeAll frames dst = .ok (dst ++ wire frames) := by
  induction frames generalizing dst with
  | nil => rw [encodeAll, wire, List.flatMap_nil, List.append_nil]
  | cons f later ih =>
    have fits := (valid f List.mem_cons_self).fits
    rw [encodeAll, encode, if_neg (Nat.not_lt.mpr fits)]
    change encodeAll later (dst ++ f.header.encode ++ f.payload) = _
    rw [ih fun g inLater => valid g (List.mem_cons_of_mem f inLater), wire_cons]
    simp only [List.append_assoc]

theorem drain_wire {frames : List Frame} (valid : ∀ f ∈ frames, f.Valid) (rest : Bytes) :
    drain (wire frames ++ rest) =
      { drain rest with frames := frames ++ (drain rest).frames } := by
  induction frames with
  | nil => rfl
  | cons f later ih =>
    have first := valid f List.mem_cons_self
    have tail := ih fun g inLater => valid g (List.mem_cons_of_mem f inLater)
    have parts : wire (f :: later) ++ rest =
        f.header.encode ++ f.payload ++ (wire later ++ rest) := by
      rw [wire_cons, List.append_assoc]
    rw [parts, drain_frame (decode_frame_bytes first _), tail]
    rfl

theorem drain_nil : drain [] = { frames := [], error := none, buffer := [] } :=
  drain_none (show decode [] = (.ok none, []) from rfl)

/-- A header that the decoder refuses. -/
def Malformed (head : Bytes) : Prop :=
  head.getD 0 0 ≠ magic ∨ head.getD 1 0 ≠ protocolVersion ∨
    maxFramePayload < fromLittleEndian head 12 4

theorem decode_malformed {head : Bytes} (long : head.length = headerLen) (bad : Malformed head) :
    ∃ e, Header.decode head = .error e := by
  rw [Header.decode, if_neg (by omega)]
  split
  · exact ⟨_, rfl⟩
  · rename_i first
    split
    · exact ⟨_, rfl⟩
    · rename_i second
      obtain bad | bad | bad := bad
      · exact absurd bad first
      · exact absurd bad second
      · dsimp only
        rw [if_pos bad]
        exact ⟨_, rfl⟩

/-- However the bytes of any frames are cut, the decoder gives back those frames and keeps
nothing; behind them a header it refuses is refused at its sixteenth byte and stays in the
buffer. -/
theorem feed_frames (frames : List Frame) (valid : ∀ f ∈ frames, f.Valid) :
    ∃ bytes, encodeAll frames [] = .ok bytes ∧
      (∀ chunks : List Bytes, chunks.flatten = bytes →
        feed [] chunks = { frames := frames, error := none, buffer := [] }) ∧
      ∀ head : Bytes, head.length = headerLen → Malformed head →
        ∃ e, Header.decode head = .error e ∧
          (∀ rest, decode (head ++ rest) = (.error e, head ++ rest)) ∧
          ∀ (rest : Bytes) (chunks : List Bytes), chunks.flatten = bytes ++ head ++ rest →
            (feed [] chunks).frames = frames ∧ (feed [] chunks).error = some e ∧
              ∃ unread, (feed [] chunks).buffer ++ unread = head ++ rest := by
  refine ⟨wire frames, encodeAll_wire valid [], ?_, ?_⟩
  · intro chunks cut
    obtain ⟨unread, same, read⟩ := feed_eq [] chunks drain_nil
    have all := drain_wire valid []
    rw [List.append_nil, drain_nil, List.append_nil] at all
    rw [List.nil_append, cut, all] at same
    have error := congrArg Drained.error same
    have frames' := congrArg Drained.frames same
    have buffer := congrArg Drained.buffer same
    dsimp only at error frames' buffer
    rw [read error.symm, List.append_nil] at buffer
    generalize feed [] chunks = result at *
    cases result
    simp only [Drained.mk.injEq]
    exact ⟨frames'.symm, error.symm, buffer.symm⟩
  · intro head long bad
    obtain ⟨e, refused⟩ := decode_malformed long bad
    have whole : head.take headerLen = head := by
      rw [← long, List.take_length]
    have fails : ∀ rest, decode (head ++ rest) = (.error e, head ++ rest) :=
      decode_bad (Nat.le_of_eq long.symm) (whole.symm ▸ refused)
    refine ⟨e, refused, fails, ?_⟩
    intro rest chunks cut
    obtain ⟨unread, same, -⟩ := feed_eq [] chunks drain_nil
    rw [List.nil_append, cut, List.append_assoc, drain_wire valid, drain_error (fails rest),
      List.append_nil] at same
    have error := congrArg Drained.error same
    have frames' := congrArg Drained.frames same
    have buffer := congrArg Drained.buffer same
    exact ⟨frames'.symm, error.symm, unread, buffer.symm⟩

/-- An empty frame and one with two bytes. -/
def twoFrames : List Frame :=
  [{ header :=
       { flags := 0
         service := 0
         method := 2
         requestId := 7
         payloadLen := 0 }
     payload := [] },
   { header :=
       { flags := 2
         service := 1
         method := 3
         requestId := 4294967295
         payloadLen := 2 }
     payload := [0x92, 0xc0] }]

theorem feed_twoFrames :
    (∀ f ∈ twoFrames, f.Valid) ∧
      ∃ bytes, encodeAll twoFrames [] = .ok bytes ∧
        ∀ chunks : List Bytes, chunks.flatten = bytes →
          feed [] chunks = { frames := twoFrames, error := none, buffer := [] } := by
  have valid : ∀ f ∈ twoFrames, f.Valid := by
    intro f member
    simp only [twoFrames, List.mem_cons, List.not_mem_nil, or_false] at member
    obtain rfl | rfl := member
    · exact ⟨rfl, by decide⟩
    · exact ⟨rfl, by decide⟩
  obtain ⟨bytes, encoded, whole, -⟩ := feed_frames twoFrames valid
  exact ⟨valid, bytes, encoded, whole⟩

end FerroEngine.FrameCodec
