import FerroEngine.AutocommitExec
import FerroEngine.HttpFate

set_option autoImplicit false

/-! # END frames

`Outcome` and `ErrorPayload` of `ferro-proto` on the wire, `build_terminal_frame` of
`session/supervisor.rs` and `FrameCodec::encode` of `session/codec.rs`.
-/

namespace FerroEngine.EndFrames

open MessagePack
open FateMapping (Branch)
open HttpFate (ErrorPayload)
open AutocommitExec (maxFramePayload)

/-! ## Outcomes -/

def branchCode : Branch → Nat
  | .retryable => 1
  | .indeterminate => 2
  | .nonRetryable => 3

def encodeError (p : ErrorPayload) : List UInt8 :=
  writeArrayLen 7 ++ writeUint p.code ++ writeUint (branchCode p.branch) ++
    writeOption writeStr p.sqlstate ++ writeOption writeSint p.errno ++ writeStr p.message ++
    writeOption writeStr p.detail ++ writeOption writeUint p.retryAfterMs

inductive Outcome where
  | ok (body : List UInt8)
  | error (payload : ErrorPayload)
  | cancelled
  deriving DecidableEq

def Outcome.encode : Outcome → List UInt8
  | .ok body => writeArrayLen 2 ++ writePfix 0 ++ body
  | .error payload => writeArrayLen 2 ++ writePfix 1 ++ encodeError payload
  | .cancelled => writeArrayLen 2 ++ writePfix 2 ++ writeNil

/-! ## Frames -/

structure Header where
  flags : Nat
  service : Nat
  method : Nat
  requestId : Nat
  payloadLen : Nat
  deriving DecidableEq, Repr

structure OutFrame where
  header : Header
  payload : List UInt8
  deriving DecidableEq

def littleEndian (width n : Nat) : List UInt8 :=
  (bigEndian width n).reverse

def Header.encode (h : Header) : List UInt8 :=
  [0xF7, 4] ++ littleEndian 2 h.flags ++ littleEndian 2 h.service ++ littleEndian 2 h.method ++
    littleEndian 4 h.requestId ++ littleEndian 4 h.payloadLen

/-- The `END` bit. -/
def flagEnd : Nat := 0x02

def buildTerminalFrame (service method requestId : Nat) (outcome : Outcome) : OutFrame :=
  { header :=
      { flags := flagEnd
        service := service
        method := method
        requestId := requestId
        payloadLen := outcome.encode.length % 2 ^ 32 }
    payload := outcome.encode }

inductive CodecError where
  | frameTooLarge (len max : Nat)
  deriving DecidableEq, Repr

/-- `FrameCodec::encode`, with the bytes that are already in the buffer. -/
def encodeFrame (item : OutFrame) (dst : List UInt8) : Except CodecError (List UInt8) :=
  if maxFramePayload < item.payload.length then
    .error (.frameTooLarge (item.payload.length % 2 ^ 32) maxFramePayload)
  else .ok (dst ++ item.header.encode ++ item.payload)

/-- The writer can send the terminal, whatever is queued before it. -/
def Sendable (outcome : Outcome) : Prop :=
  ∀ service method requestId dst,
    ∃ bytes, encodeFrame (buildTerminalFrame service method requestId outcome) dst = .ok bytes

theorem sendable_iff (outcome : Outcome) :
    Sendable outcome ↔ outcome.encode.length ≤ maxFramePayload := by
  constructor
  · intro sends
    obtain ⟨bytes, sent⟩ := sends 0 0 0 []
    rw [encodeFrame] at sent
    split at sent
    · cases sent
    · rename_i small
      exact Nat.not_lt.mp small
  · intro small service method requestId dst
    have fits : ¬ maxFramePayload <
        (buildTerminalFrame service method requestId outcome).payload.length :=
      Nat.not_lt.mpr small
    rw [encodeFrame, if_neg fits]
    exact ⟨_, rfl⟩

/-! ## Sizes -/

def optionSize {α : Type} (size : α → Nat) : Option α → Nat
  | none => 1
  | some a => size a

def textSize (s : String) : Nat :=
  strSize s.utf8ByteSize

def intSize (n : Int) : Nat :=
  (writeSint n).length

theorem writeOption_length {α : Type} {write : α → List UInt8} {size : α → Nat}
    (sized : ∀ a, (write a).length = size a) (o : Option α) :
    (writeOption write o).length = optionSize size o := by
  cases o with
  | none => rfl
  | some a => exact sized a

theorem branchCode_size (b : Branch) : uintSize (branchCode b) = 1 := by
  cases b <;> rfl

/-- What an error terminal takes of its frame. -/
def errorSize (p : ErrorPayload) : Nat :=
  uintSize p.code + optionSize textSize p.sqlstate + optionSize intSize p.errno +
    textSize p.message + optionSize textSize p.detail + optionSize uintSize p.retryAfterMs + 4

theorem encode_error_length (p : ErrorPayload) :
    (Outcome.error p).encode.length = errorSize p := by
  have sqlstate : (writeOption writeStr p.sqlstate).length = optionSize textSize p.sqlstate :=
    writeOption_length writeStr_length p.sqlstate
  have errno : (writeOption writeSint p.errno).length = optionSize intSize p.errno :=
    writeOption_length (fun _ => rfl) p.errno
  have message : (writeStr p.message).length = textSize p.message := writeStr_length p.message
  have detail : (writeOption writeStr p.detail).length = optionSize textSize p.detail :=
    writeOption_length writeStr_length p.detail
  have retryAfter :
      (writeOption writeUint p.retryAfterMs).length = optionSize uintSize p.retryAfterMs :=
    writeOption_length writeUint_length p.retryAfterMs
  rw [Outcome.encode, encodeError, errorSize]
  simp only [List.length_append, writePfix_length, sqlstate, errno, message, detail, retryAfter,
    writeUint_length, branchCode_size]
  rw [writeArrayLen_length (by omega), writeArrayLen_length (by omega)]
  omega

theorem encode_ok_length (body : List UInt8) :
    (Outcome.ok body).encode.length = body.length + 2 := by
  rw [Outcome.encode, List.length_append, List.length_append,
    writeArrayLen_length (by omega), writePfix_length]
  omega

theorem encode_cancelled_length : Outcome.cancelled.encode.length = 3 := rfl

end FerroEngine.EndFrames
