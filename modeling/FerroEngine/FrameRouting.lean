import Mathlib.Data.List.Basic

set_option autoImplicit false

/-! # Routing of inbound frames

`flags::validate` of `ferro-proto`, `session::classify` and `dispatch::route` of `ferrod`, with the
numbers of `methods.toml`.
-/

namespace FerroEngine.FrameRouting

/-! ## Flags -/

def flagCancel : BitVec 16 := 0x04

/-- `STREAM | END | CANCEL | OOB_FD | COMPRESSED`. -/
def flagsKnown : BitVec 16 := 0x01 ||| 0x02 ||| flagCancel ||| 0x08 ||| 0x10

/-- `OOB_FD | COMPRESSED`. -/
def flagsReserved : BitVec 16 := 0x08 ||| 0x10

inductive FlagError where
  | unknownFlags (bits : BitVec 16)
  | unsupportedFlag
  deriving DecidableEq, Repr

def validate (bits : BitVec 16) : Except FlagError Unit :=
  if bits &&& ~~~flagsKnown ≠ 0 then .error (.unknownFlags (bits &&& ~~~flagsKnown))
  else if bits &&& flagsReserved ≠ 0 then .error .unsupportedFlag
  else .ok ()

/-! ## Frames -/

/-- A decoded frame; `decodes` says whether its payload is a message of its method. -/
structure InFrame where
  flags : BitVec 16
  service : Nat
  method : Nat
  requestId : Nat
  decodes : Bool
  deriving DecidableEq, Repr

/-- What the codec yields next: a frame, a header-level fault, or the end of the connection. -/
inductive Decoded where
  | frame (frame : InFrame)
  | codecError (text : String)
  | closed
  deriving DecidableEq, Repr

/-- The error payload of a terminal; every error below is `NonRetryable`. -/
structure ErrorPayload where
  code : Nat
  branch : Nat
  message : String
  detail : Option String
  deriving DecidableEq, Repr

def errorPayload (code : Nat) (message : String) : ErrorPayload :=
  { code := code, branch := 3, message := message, detail := none }

def protocolCode : Nat := 0x3009

def unsupportedCode : Nat := 0x300A

def forbiddenCode : Nat := 0x300C

inductive Classification where
  | frame (frame : InFrame)
  | perRequestErr (rid : Nat) (err : ErrorPayload)
  | fatal (err : ErrorPayload)
  | closed
  deriving DecidableEq, Repr

/-- Four upper-case hexadecimal digits. -/
def hex4 (bits : BitVec 16) : String :=
  String.ofList ([12, 8, 4, 0].map fun shift =>
    (Nat.digitChar (bits.toNat >>> shift % 16)).toUpper)

def classifyFlags (frame : InFrame) : Classification :=
  match validate frame.flags with
  | .ok () => .frame frame
  | .error .unsupportedFlag => .fatal (errorPayload unsupportedCode
      "frame sets a reserved flag (OOB_FD/COMPRESSED) unsupported in M0")
  | .error (.unknownFlags bits) => .perRequestErr frame.requestId
      (errorPayload protocolCode ("unknown flag bits set: 0x" ++ hex4 bits))

def classify : Decoded → Classification
  | .frame frame => classifyFlags frame
  | .codecError text => .fatal (errorPayload protocolCode text)
  | .closed => .closed

/-! ## Routes -/

inductive CoreMethod where
  | ping
  | goodbye
  | windowUpdate
  deriving DecidableEq, Repr

inductive AdminVerb where
  | backup
  deriving DecidableEq, Repr

inductive Route where
  | coreControl (method : CoreMethod)
  | request
  | admin (verb : AdminVerb)
  | copyData (done : Bool)
  | unsupported
  deriving DecidableEq, Repr

def AdminVerb.fromMethod (method : Nat) : Option AdminVerb :=
  if method = 1 then some .backup else none

/-- The services `CORE`, `SQL`, `TX`, `STREAM`, `ADMIN`, `HTTP` and `QUEUE` are 1 to 7. -/
def route (service method : Nat) : Route :=
  if service = 1 then
    if method = 3 then .coreControl .ping
    else if method = 5 then .coreControl .goodbye
    else if method = 6 then .coreControl .windowUpdate
    else .unsupported
  else if service = 4 ∧ method = 3 then .copyData false
  else if service = 4 ∧ method = 4 then .copyData true
  else if service = 2 ∨ service = 3 ∨ service = 4 then .request
  else if service = 5 then
    match AdminVerb.fromMethod method with
    | some verb => .admin verb
    | none => .unsupported
  else if service = 6 then if method = 1 then .request else .unsupported
  else if service = 7 then if 1 ≤ method ∧ method ≤ 7 then .request else .unsupported
  else .unsupported

/-! ## Administration -/

def AdminVerb.name : AdminVerb → String
  | .backup => "BACKUP"

/-- `admin::authorize`: every verb there is, is an `OPERATE` verb. -/
def authorize (peerUid : Option Nat) (adminUids : List Nat) (verb : AdminVerb) :
    Except ErrorPayload Unit :=
  match peerUid with
  | none => .error (errorPayload forbiddenCode ("admin verb " ++ verb.name ++
      " refused: this connection has no kernel-attested peer uid (SPEC D15 serves admin verbs " ++
      "only where SO_PEERCRED can attest one)"))
  | some uid =>
    if uid ∈ adminUids then .ok ()
    else .error (errorPayload forbiddenCode ("admin verb " ++ verb.name ++
      " is an OPERATE verb and this peer is not authorized for OPERATE verbs (SPEC D15: the " ++
      "peer's uid must be in FERRO_ADMIN_UIDS)"))

end FerroEngine.FrameRouting
