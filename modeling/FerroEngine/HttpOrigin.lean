import FerroEngine.AddressText

set_option autoImplicit false

/-! # The origin of an upstream

`origin.rs`: `http(s)://host[:port]`, parsed strictly from the bytes of a text.
-/

namespace FerroEngine.HttpOrigin

open DecimalText AddressText

inductive Scheme where
  | http
  | https
  deriving DecidableEq, Repr

def Scheme.asStr : Scheme → Text
  | .http => [104, 116, 116, 112]
  | .https => [104, 116, 116, 112, 115]

def Scheme.defaultPort : Scheme → Nat
  | .http => 80
  | .https => 443

inductive Host where
  | name (text : Text)
  | v4 (a : Ipv4)
  | v6 (a : Ipv6)
  deriving DecidableEq, Repr

structure Origin where
  scheme : Scheme
  host : Host
  port : Nat
  authority : Text
  normalised : Text
  deriving DecidableEq, Repr

inductive OriginError where
  | notAscii
  | control
  | uppercase
  | scheme
  | userinfo
  | pathQueryOrFragment
  | percent
  | emptyHost
  | trailingDot
  | hostSyntax
  | numericHost
  | ipv6Literal
  | port
  deriving DecidableEq, Repr

/-- `split_once`. -/
def splitOnce (c : UInt8) : Text → Option (Text × Text)
  | [] => none
  | b :: rest =>
    if b = c then some ([], rest)
    else (splitOnce c rest).map fun (front, back) => (b :: front, back)

def parsePort (p : Text) : Except OriginError Nat :=
  if p = [] ∨ 5 < p.length ∨ p.all isDigit = false ∨ p.head? = some 48 then .error .port
  else if 1 ≤ value p ∧ value p ≤ 65535 then .ok (value p)
  else .error .port

def isNumericLabel (l : Text) : Bool :=
  (!l.isEmpty && l.all isDigit) ||
    match l with
    | 48 :: 120 :: h => h.all isHex
    | _ => false

/-- A part of a dotted quad. -/
def canonicalOctet (p : Text) : Option UInt8 :=
  if p ≠ [] ∧ p.length ≤ 3 ∧ p.all isDigit = true ∧ (p = [48] ∨ p.head? ≠ some 48) then
    if value p < 256 then some (UInt8.ofNat (value p)) else none
  else none

def canonicalV4 (h : Text) : Option Ipv4 :=
  match h.splitOn 46 with
  | [p, q, r, s] => do
    let a ← canonicalOctet p
    let b ← canonicalOctet q
    let c ← canonicalOctet r
    let d ← canonicalOctet s
    some ⟨a, b, c, d⟩
  | _ => none

def isLabelByte (c : UInt8) : Bool :=
  (97 ≤ c.toNat && c.toNat ≤ 122) || isDigit c || c == 45 || c == 95

def labelOk (l : Text) : Bool :=
  !l.isEmpty && decide (l.length ≤ 63) && l.all isLabelByte && l.head? != some 45 &&
    l.getLast? != some 45

def parseHostName (h : Text) : Except OriginError Host :=
  if h = [] then .error .emptyHost
  else if h.getLast? = some 46 then .error .trailingDot
  else if 253 < h.length then .error .hostSyntax
  else if isNumericLabel ((h.splitOn 46).getLast?.getD []) then
    match canonicalV4 h with
    | some a => .ok (.v4 a)
    | none => .error .numericHost
  else if (h.splitOn 46).all labelOk then .ok (.name h)
  else .error .hostSyntax

def build (scheme : Scheme) (host : Host) (port : Nat) : Origin :=
  let shown :=
    match host with
    | .name n => n
    | .v4 a => dotted a
    | .v6 a => 91 :: render a ++ [93]
  let authority := if port = scheme.defaultPort then shown else shown ++ 58 :: decimal port
  { scheme := scheme
    host := host
    port := port
    authority := authority
    normalised := scheme.asStr ++ [58, 47, 47] ++ authority }

/-- The host and the text of the port. -/
def parseAuthority (rest : Text) : Except OriginError (Host × Option Text) :=
  match rest with
  | 91 :: after =>
    match splitOnce 93 after with
    | none => .error .ipv6Literal
    | some (inside, tail) =>
      match AddressText.parse inside with
      | none => .error .ipv6Literal
      | some a =>
        match tail with
        | [] => .ok (.v6 a, none)
        | 58 :: p => .ok (.v6 a, some p)
        | _ => .error .ipv6Literal
  | rest =>
    if rest.contains 91 ∨ rest.contains 93 then .error .ipv6Literal
    else
      match splitOnce 58 rest with
      | some (h, p) => (parseHostName h).map fun host => (host, some p)
      | none => (parseHostName rest).map fun host => (host, none)

/-- The scheme and what follows it. -/
def parseScheme (s : Text) : Option (Scheme × Text) :=
  match [104, 116, 116, 112, 115, 58, 47, 47].isPrefixOf? s with
  | some rest => some (.https, rest)
  | none => ([104, 116, 116, 112, 58, 47, 47].isPrefixOf? s).map fun rest => (.http, rest)

def parse (s : Text) : Except OriginError Origin :=
  if s.any fun c => 128 ≤ c.toNat then .error .notAscii
  else if s.any fun c => decide (c.toNat ≤ 32) || c == 127 then .error .control
  else if s.any fun c => 65 ≤ c.toNat && c.toNat ≤ 90 then .error .uppercase
  else
    match parseScheme s with
    | none => .error .scheme
    | some (scheme, rest) =>
      if rest.contains 64 then .error .userinfo
      else if rest.any fun c => c == 47 || c == 63 || c == 35 || c == 92 then
        .error .pathQueryOrFragment
      else if rest.contains 37 then .error .percent
      else
        match parseAuthority rest with
        | .error e => .error e
        | .ok (host, none) => .ok (build scheme host scheme.defaultPort)
        | .ok (host, some p) => (parsePort p).map fun port => build scheme host port

end FerroEngine.HttpOrigin
