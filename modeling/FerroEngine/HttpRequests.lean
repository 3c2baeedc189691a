import FerroEngine.HttpHeaders

set_option autoImplicit false

/-! # Accepted HTTP requests

`validate` as a whole, and the headers of the request that goes out. The header map of the `http`
crate is a parameter.
-/

namespace FerroEngine.HttpRequests

open SourceText HttpSyntax HttpTarget HttpHeaders

/-! ## Validation -/

section Validation

variable (nfkc : String → String)

structure Upstream where
  name : Bytes
  allowUids : Option (List Nat)
  allowMethods : Option (List Bytes)
  normalisedOrigin : Bytes
  targets : TargetPolicy nfkc
  headers : HeaderPolicy
  maxBodyBytes : Nat

/-- The enabled upstreams; there are none when the daemon's settings have errors. -/
structure HttpConfig where
  upstreams : List (Upstream nfkc)
  maxBodyBytes : Nat

structure Request where
  upstream : Bytes
  method : Bytes
  target : Bytes
  origin : Option Bytes
  headers : List Header
  body : Option Bytes
  idempotent : Option Bool
  decode : Bool

def HttpConfig.upstreamFor (cfg : HttpConfig nfkc) (name : Bytes) (peerUid : Option Nat) :
    Option (Upstream nfkc) :=
  match cfg.upstreams.find? fun up => up.name == name with
  | none => none
  | some up =>
    match up.allowUids, peerUid with
    | none, _ => some up
    | some uids, some uid => if uids.contains uid then some up else none
    | some _, none => none

def maxMethod : Nat := 32

def isAlwaysRefusedMethod (m : Bytes) : Bool :=
  ["CONNECT", "TRACE", "TRACK"].any fun x => eqIgnoreAsciiCase (bytesOf x) m

def checkMethod (up : Upstream nfkc) (m : Bytes) : Except Refusal Unit :=
  if !isToken m maxMethod then .error (.new .methodToken)
  else if isAlwaysRefusedMethod m then .error (.new .methodAlwaysRefused)
  else match up.allowMethods with
    | some allowed => if allowed.contains m then .ok () else .error (.new .methodNotAllowed)
    | none => .ok ()

structure Validated where
  upstream : Upstream nfkc
  sendHeaders : List Nat
  overridden : Nat
  addAcceptEncoding : Bool
  contentLength : Nat
  idempotent : Bool

def validate (cfg : HttpConfig nfkc) (peerUid : Option Nat) (req : Request) :
    Except Refusal (Validated nfkc) :=
  match cfg.upstreamFor nfkc req.upstream peerUid with
  | none => .error (.new .upstreamUnavailable)
  | some up => do
    checkMethod nfkc up req.method
    checkTarget nfkc up.targets req.target
    if req.origin.any (· != up.normalisedOrigin) then throw (.new .originMismatch)
    let bodyLen := (req.body.map List.length).getD 0
    let plan ← checkHeaders up.headers req.headers bodyLen
    if min up.maxBodyBytes cfg.maxBodyBytes < bodyLen then throw (.new .bodyTooLarge)
    return {
      upstream := up
      sendHeaders := plan.keep
      overridden := plan.overridden
      addAcceptEncoding := req.decode && !plan.sawAcceptEncoding
      contentLength := bodyLen
      idempotent := effectiveIdempotency up.headers req.method req.headers req.idempotent }

end Validation

/-! ## Assembly -/

/-- The header map of the `http` crate; names are looked up in their normalised form. -/
structure HeaderMap where
  Map : Type
  empty : Map
  insert : Map → Bytes → Bytes → Map
  append : Map → Bytes → Bytes → Map
  values : Map → Bytes → List Bytes
  /-- `HeaderName::from_bytes` and `HeaderValue::from_bytes`. -/
  nameOf : Bytes → Option Bytes
  valueOf : Bytes → Option Bytes

/-- The documented behaviour: an insertion replaces the values of its name, an append adds one after
them, and names are normalised to lower case. -/
structure HeaderMap.Lawful (http : HeaderMap) : Prop where
  empty : ∀ n, http.values http.empty n = []
  insert : ∀ m n v k, http.values (http.insert m n v) k = if k = n then [v] else http.values m k
  append : ∀ m n v k,
    http.values (http.append m n v) k = http.values m k ++ if k = n then [v] else []
  name : ∀ b n, http.nameOf b = some n → n = b.map toAsciiLowercase
  value : ∀ b v, http.valueOf b = some v → v = b

inductive PolicyCause where
  | origin
  | header
  deriving DecidableEq, Repr

section Assembly

variable (http : HeaderMap)

def appendHeader (map : http.Map) (h : Header) : Except PolicyCause http.Map :=
  match http.nameOf h.name, http.valueOf h.value with
  | some n, some v => .ok (http.append map n v)
  | _, _ => .error .header

def appendHeaders (map : http.Map) : List Header → Except PolicyCause http.Map
  | [] => .ok map
  | h :: rest =>
    match appendHeader http map h with
    | .error e => .error e
    | .ok map => appendHeaders map rest

def sentHeaders (headers : List Header) (send : List Nat) : List Header :=
  send.filterMap fun i => headers[i]?

def attachedHeaders (attached : List AttachedHeader) : List Header :=
  attached.map fun a => { name := a.name, value := a.value }

/-- The headers of `build_request`. -/
def buildHeaders {nfkc : String → String} (v : Validated nfkc) (req : Request) :
    Except PolicyCause http.Map := do
  let host ← match http.valueOf v.upstream.headers.authority with
    | some host => pure host
    | none => throw .origin
  let map := http.insert http.empty (bytesOf "host") host
  let map ← appendHeaders http map (sentHeaders req.headers v.sendHeaders)
  let map ← appendHeaders http map (attachedHeaders v.upstream.headers.attached)
  let map := if v.addAcceptEncoding then
      http.insert map (bytesOf "accept-encoding") (bytesOf "gzip, deflate")
    else map
  return if req.body.isSome then
      http.insert map (bytesOf "content-length") (bytesOf (toString v.contentLength))
    else map

end Assembly

end FerroEngine.HttpRequests
