import FerroEngine.HttpSyntax

set_option autoImplicit false

/-! # The target of an HTTP request

The refusals of `validate.rs` and its checks of the request target.
-/

namespace FerroEngine.HttpTarget

open SourceText HttpSyntax

/-! ## Refusals -/

inductive Rule where
  | upstreamUnavailable
  | originMismatch
  | methodToken
  | methodAlwaysRefused
  | methodNotAllowed
  | targetLength
  | targetForm
  | targetByte
  | targetPercent
  | targetNul
  | pathPct25
  | pathControl
  | pathNonAscii
  | pathParam
  | pathDotSegment
  | pathUtf8
  | pathNfkcDotSegment
  | pathNfkcPercent
  | pathPrefix
  | headerCount
  | headerSize
  | headerPseudo
  | headerName
  | headerValue
  | headerHost
  | headerContentLength
  | headerTransferEncoding
  | headerUpgradeOrProxyAuth
  | headerMethodOverride
  | headerForwarding
  | headerAttached
  | bodyTooLarge
  deriving DecidableEq, Repr

/-- A byte offset or a header's index, and the name of a header. -/
structure Refusal where
  rule : Rule
  offset : Option Nat
  header : Option Bytes
  deriving DecidableEq, Repr

namespace Refusal

def new (rule : Rule) : Refusal :=
  { rule := rule, offset := none, header := none }

def at' (rule : Rule) (offset : Nat) : Refusal :=
  { rule := rule, offset := some offset, header := none }

def ofHeader (rule : Rule) (index : Nat) (name : Option Bytes) : Refusal :=
  { rule := rule, offset := some index, header := name }

end Refusal

inductive PathParams where
  | refuse
  | allow
  deriving DecidableEq, Repr

inductive PathEncoding where
  | ascii
  | utf8
  deriving DecidableEq, Repr

abbrev slash : UInt8 := 0x2F

abbrev backslash : UInt8 := 0x5C

abbrev dot : UInt8 := 0x2E

abbrev semicolon : UInt8 := 0x3B

abbrev question : UInt8 := 0x3F

abbrev hash : UInt8 := 0x23

abbrev percent : UInt8 := 0x25

/-! ## Syntax -/

def maxTarget : Nat := 8192

def isTargetByte (b : UInt8) : Bool :=
  isAsciiAlphanumeric b || (bytesOf "-._~!$&'()*+,;=:@/?%").contains b

/-- The percent syntax of a text whose first byte is at `i`. -/
def checkPercents : Nat → Bytes → Except Refusal Unit
  | _, [] => .ok ()
  | i, [b] => if b = percent then .error (.at' .targetPercent i) else .ok ()
  | i, [b, c] =>
    if b = percent then .error (.at' .targetPercent i) else checkPercents (i + 1) [c]
  | i, b :: h :: l :: rest =>
    if b = percent then
      match hexVal h, hexVal l with
      | some high, some low =>
        if high = 0 ∧ low = 0 then .error (.at' .targetNul i) else checkPercents (i + 3) rest
      | _, _ => .error (.at' .targetPercent i)
    else checkPercents (i + 1) (h :: l :: rest)

def checkTargetSyntax (t : Bytes) : Except Refusal Unit :=
  if t.isEmpty ∨ maxTarget < t.length then .error (.new .targetLength)
  else if t[0]? ≠ some slash then .error (.at' .targetForm 0)
  else if t[1]? = some slash then .error (.at' .targetForm 1)
  else match t.findIdx? fun b => !isTargetByte b with
    | some i => .error (.at' .targetByte i)
    | none => checkPercents 0 t

/-! ## The path -/

def isSeparator (b : UInt8) : Bool :=
  b == slash || b == backslash

def isCut (b : UInt8) : Bool :=
  b == semicolon || b == question || b == hash

def isDotOnly (seg : Bytes) : Bool :=
  !seg.isEmpty && (seg.all fun b => b == dot || b == 0x20) && seg.contains dot

def hasDotSegment (decoded : Bytes) : Bool :=
  (decoded.splitOnP isSeparator).any fun seg => isDotOnly (seg.takeWhile fun b => !isCut b)

/-- The loop of `check_path`, after the percent syntax has been checked. -/
def decodePath (params : PathParams) (encoding : PathEncoding) : Nat → Bytes → Except Refusal Bytes
  | _, [] => .ok []
  | i, b :: h :: l :: rest =>
    if b = percent then
      let v := ((hexVal h).getD 0 <<< 4) ||| (hexVal l).getD 0
      if v = percent then .error (.at' .pathPct25 i)
      else if v < 0x20 || v == 0x7F then .error (.at' .pathControl i)
      else if 0x80 ≤ v && encoding == .ascii then .error (.at' .pathNonAscii i)
      else (decodePath params encoding (i + 3) rest).map (v :: ·)
    else if b = semicolon ∧ params = .refuse then .error (.at' .pathParam i)
    else (decodePath params encoding (i + 1) (h :: l :: rest)).map (b :: ·)
  -- No escape starts here.
  | i, b :: rest =>
    if b = semicolon ∧ params = .refuse then .error (.at' .pathParam i)
    else (decodePath params encoding (i + 1) rest).map (b :: ·)

/-- `str::from_utf8`. -/
def fromUtf8 (bytes : Bytes) : Option String :=
  String.fromUTF8? ⟨bytes.toArray⟩

section Normalised

variable (nfkc : String → String)

def checkNfkc (decoded : Bytes) : Except Refusal Unit :=
  match fromUtf8 decoded with
  | none => .error (.new .pathUtf8)
  | some s =>
    if (nfkc s).toList.contains '%' then .error (.new .pathNfkcPercent)
    else if hasDotSegment (nfkc s).toUTF8.toList then .error (.new .pathNfkcDotSegment)
    else .ok ()

def checkPath (path : Bytes) (params : PathParams) (encoding : PathEncoding) :
    Except Refusal Unit := do
  let decoded ← decodePath params encoding 0 path
  if hasDotSegment decoded then throw (.new .pathDotSegment)
  if encoding = .utf8 then checkNfkc nfkc decoded

def prefixMatches (p t : Bytes) : Bool :=
  t == p || (p.isPrefixOf t && (p.getLast? == some slash || t[p.length]? == some slash))

def checkPrefix (p : Bytes) (params : PathParams) (encoding : PathEncoding) :
    Except Refusal Unit := do
  checkTargetSyntax p
  match p.findIdx? (· == question) with
  | some i => throw (.at' .targetByte i)
  | none => checkPath nfkc p params encoding

/-- What an upstream's configuration says about targets; every prefix passed its own check. -/
structure TargetPolicy where
  pathParams : PathParams
  pathEncoding : PathEncoding
  allowPaths : List Bytes
  checked : ∀ p ∈ allowPaths, checkPrefix nfkc p pathParams pathEncoding = .ok ()

def pathOf (t : Bytes) : Bytes :=
  t.takeWhile (· != question)

def checkTarget (up : TargetPolicy nfkc) (t : Bytes) : Except Refusal Unit := do
  checkTargetSyntax t
  checkPath nfkc (pathOf t) up.pathParams up.pathEncoding
  if !up.allowPaths.any (prefixMatches · (pathOf t)) then throw (.new .pathPrefix)

/-! ## Configuration -/

inductive Reason where
  | badPath (entry : Nat) (rule : Rule)
  | emptyList
  deriving DecidableEq, Repr

/-- The entries of `ALLOW_PATHS`, the first of which is entry `i`. -/
def checkPrefixes (params : PathParams) (encoding : PathEncoding) :
    Nat → List Bytes → Except Reason Unit
  | _, [] => .ok ()
  | i, p :: rest =>
    match checkPrefix nfkc p params encoding with
    | .error e => .error (.badPath i e.rule)
    | .ok () => checkPrefixes params encoding (i + 1) rest

theorem checkPrefixes_checked {params : PathParams} {encoding : PathEncoding} {i : Nat}
    {entries : List Bytes} (ok : checkPrefixes nfkc params encoding i entries = .ok ()) :
    ∀ p ∈ entries, checkPrefix nfkc p params encoding = .ok () := by
  induction entries generalizing i with
  | nil =>
    intro p member
    cases member
  | cons q rest ih =>
    unfold checkPrefixes at ok
    split at ok
    · cases ok
    · next passed =>
      intro p member
      rcases List.mem_cons.mp member with same | later
      · exact same ▸ passed
      · exact ih ok p later

def parseAllowPaths (params : PathParams) (encoding : PathEncoding) (entries : List Bytes) :
    Except Reason (TargetPolicy nfkc) :=
  match ok : checkPrefixes nfkc params encoding 1 entries with
  | .error e => .error e
  | .ok () =>
    if entries.isEmpty then .error .emptyList
    else .ok
      { pathParams := params, pathEncoding := encoding, allowPaths := entries
        checked := checkPrefixes_checked nfkc ok }

end Normalised

end FerroEngine.HttpTarget
