import FerroEngine.HttpTarget

set_option autoImplicit false

/-! # The headers of an HTTP request

The attached headers of `attach.rs`, the header tables of `validate.rs` with the configuration
they read, and the assembly of the request's headers in `engine/mod.rs`.
-/

namespace FerroEngine.HttpHeaders

open SourceText HttpSyntax HttpTarget

structure Header where
  name : Bytes
  value : Bytes
  deriving DecidableEq, Repr

/-! ## Name tables -/

def isOneOf (names : List String) (lower : Text) : Bool :=
  names.any fun name => name.toList == lower

/-- `is_reserved_attach_name`: the names that the engine sets, drops or refuses. -/
def isReservedAttachName : Text → Bool :=
  isOneOf ["host", "content-length", "transfer-encoding", "connection", "keep-alive",
    "proxy-connection", "te", "http2-settings", "expect", "upgrade", "proxy-authorization"]

def isOverrideHeader : Text → Bool :=
  isOneOf ["x-http-method-override", "x-http-method", "x-method-override", "x-original-url",
    "x-rewrite-url", "destination"]

def isForwardingHeader (lower : Text) : Bool :=
  isOneOf ["forwarded", "x-real-ip", "true-client-ip", "cf-connecting-ip", "x-client-ip",
    "client-ip", "x-host", "x-original-host"] lower ||
  ("x-forwarded-".toList.isPrefixOf lower && "x-forwarded-".length < lower.length)

def isExemptible (lower : Text) : Bool :=
  isOverrideHeader lower || isForwardingHeader lower

/-! ## Attached headers -/

structure AttachedHeader where
  name : Bytes
  lower : Text
  value : Bytes
  deriving DecidableEq, Repr

def attachedNames (attached : List AttachedHeader) (lower : Text) : Bool :=
  attached.any fun h => h.lower == lower

def maxFileBytes : Nat := 64 * 1024 + 4096

def maxLines : Nat := 100

inductive AttachError where
  | tooLarge
  | tooManyLines
  | noColon (line : Nat)
  | badName (line : Nat)
  | badValue (line : Nat)
  | reservedName (line : Nat)
  deriving DecidableEq, Repr

def isOws (b : UInt8) : Bool :=
  b == 0x20 || b == 0x09

def trimOws (value : Bytes) : Bytes :=
  ((value.dropWhile isOws).reverse.dropWhile isOws).reverse

/-- One line that is not empty. -/
def parseLine (n : Nat) (line : Bytes) : Except AttachError AttachedHeader :=
  match line.findIdx? (· == ascii ':') with
  | none => .error (.noColon n)
  | some colon =>
    let name := line.take colon
    let value := trimOws (line.drop (colon + 1))
    if !isToken name 256 then .error (.badName n)
    else if !isFieldValue value then .error (.badValue n)
    else if isReservedAttachName (foldName name) then .error (.reservedName n)
    else .ok { name := name, lower := foldName name, value := value }

def stripCarriageReturn (raw : Bytes) : Bytes :=
  if raw.getLast? = some 0x0D then raw.dropLast else raw

def parseLines : Nat → List Bytes → List AttachedHeader → Except AttachError (List AttachedHeader)
  | _, [], out => .ok out
  | n, raw :: rest, out =>
    let line := stripCarriageReturn raw
    if line.isEmpty then parseLines (n + 1) rest out
    else if out.length = maxLines then .error .tooManyLines
    else match parseLine n line with
      | .error e => .error e
      | .ok h => parseLines (n + 1) rest (out ++ [h])

def parseAttached (bytes : Bytes) : Except AttachError (List AttachedHeader) :=
  if maxFileBytes < bytes.length then .error .tooLarge
  else parseLines 1 (bytes.splitOn 0x0A) []

/-! ## Configuration -/

inductive AttachPolicy where
  | refuse
  | override
  deriving DecidableEq, Repr

/-- The idempotency key, as the configuration admits one. -/
structure KeyHeader (attached : List AttachedHeader) where
  name : Bytes
  unreserved : isReservedAttachName (foldName name) = false
  ordinary : isExemptible (foldName name) = false
  unattached : attachedNames attached (foldName name) = false
  uncoded : foldName name ≠ "accept-encoding".toList

structure HeaderPolicy where
  authority : Bytes
  attached : List AttachedHeader
  attachPolicy : AttachPolicy
  passHeaders : List Text
  idempotentMethods : List Bytes
  idempotencyKeyHeader : Option (KeyHeader attached)
  folded : ∀ h ∈ attached, h.lower = foldName h.name
  unreserved : ∀ h ∈ attached, isReservedAttachName h.lower = false
  exemptible : ∀ p ∈ passHeaders, isExemptible p = true

inductive HeaderReason where
  | badHeaderName (entry : Nat)
  | notExemptible (entry : Nat)
  | emptyList
  | keyHeaderReserved
  | attach (e : AttachError)
  deriving DecidableEq, Repr

/-- The entries of `PASS_HEADERS`, the first of which is entry `i`. -/
def parsePassHeaders : Nat → List Bytes → Except HeaderReason (List Text)
  | _, [] => .ok []
  | i, h :: rest =>
    if !isToken h 256 then .error (.badHeaderName i)
    else if !isExemptible (foldName h) then .error (.notExemptible i)
    else (parsePassHeaders (i + 1) rest).map (foldName h :: ·)

def parseKeyHeader (attached : List AttachedHeader) (r : Bytes) :
    Except HeaderReason (KeyHeader attached) :=
  if !isToken r 256 then .error (.badHeaderName 1)
  else
    let lower := r.map toAsciiLowercase
    if ok : isReservedAttachName (foldName lower) = false ∧ isExemptible (foldName lower) = false ∧
        attachedNames attached (foldName lower) = false ∧
        foldName lower ≠ "accept-encoding".toList then
      .ok { name := lower, unreserved := ok.1, ordinary := ok.2.1, unattached := ok.2.2.1
            uncoded := ok.2.2.2 }
    else .error .keyHeaderReserved

/-! ## Validation -/

def maxHeaderName : Nat := 256

def maxHeaderLines : Nat := 100

def maxHeaderBytes : Nat := 64 * 1024

structure HeaderPlan where
  /-- The headers that are sent, by their indices. -/
  keep : List Nat
  overridden : Nat
  sawAcceptEncoding : Bool
  deriving DecidableEq, Repr

def HeaderPlan.sends (plan : HeaderPlan) (i : Nat) : HeaderPlan :=
  { plan with keep := plan.keep ++ [i] }

/-- The rule tables for one header whose name and value are well formed. -/
def applyTables (up : HeaderPolicy) (bodyLen : Nat) (i : Nat) (h : Header) (plan : HeaderPlan) :
    Except Refusal HeaderPlan :=
  let lower := foldName h.name
  let refuse (rule : Rule) : Except Refusal HeaderPlan :=
    .error (.ofHeader rule i (some h.name))
  if lower = "host".toList then
    if h.value ≠ up.authority then refuse .headerHost else .ok plan
  else if lower = "content-length".toList then
    if parseDecimalU64 h.value ≠ some bodyLen then refuse .headerContentLength else .ok plan
  else if lower = "transfer-encoding".toList then
    if !eqIgnoreAsciiCase h.value (bytesOf "chunked") then refuse .headerTransferEncoding
    else .ok plan
  else if isOneOf ["connection", "keep-alive", "proxy-connection", "http2-settings", "expect"]
      lower then .ok plan
  else if lower = "te".toList then
    if eqIgnoreAsciiCase h.value (bytesOf "trailers") then .ok (plan.sends i) else .ok plan
  else if isOneOf ["upgrade", "proxy-authorization"] lower then refuse .headerUpgradeOrProxyAuth
  else if isOverrideHeader lower && !up.passHeaders.contains lower then refuse .headerMethodOverride
  else if isForwardingHeader lower && !up.passHeaders.contains lower then refuse .headerForwarding
  else if attachedNames up.attached lower then
    match up.attachPolicy with
    | .refuse => refuse .headerAttached
    | .override => .ok { plan with overridden := plan.overridden + 1 }
  else if lower = "accept-encoding".toList then
    .ok { plan.sends i with sawAcceptEncoding := true }
  else .ok (plan.sends i)

def checkHeader (up : HeaderPolicy) (bodyLen : Nat) (i : Nat) (h : Header) (plan : HeaderPlan) :
    Except Refusal HeaderPlan :=
  if h.name.head? = some (ascii ':') then .error (.ofHeader .headerPseudo i none)
  else if !isToken h.name maxHeaderName then .error (.ofHeader .headerName i none)
  else if !isFieldValue h.value then .error (.ofHeader .headerValue i (some h.name))
  else applyTables up bodyLen i h plan

def checkHeaderLoop (up : HeaderPolicy) (bodyLen : Nat) :
    Nat → List Header → HeaderPlan → Except Refusal HeaderPlan
  | _, [], plan => .ok plan
  | i, h :: rest, plan =>
    match checkHeader up bodyLen i h plan with
    | .error e => .error e
    | .ok plan => checkHeaderLoop up bodyLen (i + 1) rest plan

def headerBytes (headers : List Header) : Nat :=
  (headers.map fun h => h.name.length + h.value.length).sum

def checkHeaders (up : HeaderPolicy) (headers : List Header) (bodyLen : Nat) :
    Except Refusal HeaderPlan :=
  if maxHeaderLines < headers.length then .error (.new .headerCount)
  else if maxHeaderBytes < headerBytes headers then .error (.new .headerSize)
  else (checkHeaderLoop up bodyLen 0 headers
    { keep := [], overridden := 0, sawAcceptEncoding := false }).map fun plan =>
      if attachedNames up.attached "accept-encoding".toList then
        { plan with sawAcceptEncoding := true }
      else plan

/-- A header whose name is the key's, in any case, and whose value is not empty. -/
def carriesKey (up : HeaderPolicy) (h : Header) : Bool :=
  match up.idempotencyKeyHeader with
  | none => false
  | some key => eqIgnoreAsciiCase h.name key.name && !h.value.isEmpty

def effectiveIdempotency (up : HeaderPolicy) (method : Bytes) (headers : List Header)
    (declared : Option Bool) : Bool :=
  match declared with
  | some d => d
  | none => up.idempotentMethods.contains method || headers.any (carriesKey up)

end FerroEngine.HttpHeaders
