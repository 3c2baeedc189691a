import FerroEngine.SourceText

set_option autoImplicit false

/-! # The grammar of HTTP requests

`syntax.rs`: the byte predicates that the validator and the configuration parser share.
-/

namespace FerroEngine.HttpSyntax

open SourceText

abbrev Bytes := List UInt8

def ascii (c : Char) : UInt8 :=
  UInt8.ofNat c.toNat

def bytesOf (s : String) : Bytes :=
  s.toList.map ascii

def isDigitByte (b : UInt8) : Bool :=
  0x30 ≤ b && b ≤ 0x39

def isLowerByte (b : UInt8) : Bool :=
  0x61 ≤ b && b ≤ 0x7A

def isUpperByte (b : UInt8) : Bool :=
  0x41 ≤ b && b ≤ 0x5A

def isAsciiAlphanumeric (b : UInt8) : Bool :=
  isDigitByte b || isLowerByte b || isUpperByte b

def toAsciiLowercase (b : UInt8) : UInt8 :=
  if isUpperByte b then b + 0x20 else b

def eqIgnoreAsciiCase (a b : Bytes) : Bool :=
  a.map toAsciiLowercase == b.map toAsciiLowercase

def isTchar (b : UInt8) : Bool :=
  isAsciiAlphanumeric b || (bytesOf "!#$%&'*+-.^_`|~").contains b

def isToken (s : Bytes) (max : Nat) : Bool :=
  !s.isEmpty && s.length ≤ max && s.all isTchar

def isVisible (b : UInt8) : Bool :=
  (0x21 ≤ b && b ≤ 0x7E) || 0x80 ≤ b

def isFieldValue (v : Bytes) : Bool :=
  match v.head?, v.getLast? with
  | some first, some last =>
    isVisible first && isVisible last && v.all fun b => isVisible b || b == 0x20 || b == 0x09
  | _, _ => true

/-- A header name as every rule table looks it up. -/
def foldName (name : Bytes) : Text :=
  name.map fun b => if isAsciiAlphanumeric b then Char.ofUInt8 (toAsciiLowercase b) else '-'

def hexVal (b : UInt8) : Option UInt8 :=
  if isDigitByte b then some (b - 0x30)
  else if 0x61 ≤ b && b ≤ 0x66 then some (b - 0x61 + 10)
  else if 0x41 ≤ b && b ≤ 0x46 then some (b - 0x41 + 10)
  else none

def parseDecimalU64 (s : Bytes) : Option Nat :=
  if s.isEmpty || !s.all isDigitByte then none
  else s.foldlM (fun acc d =>
    let next := acc * 10 + (d.toNat - 0x30)
    if next < 2 ^ 64 then some next else none) 0

end FerroEngine.HttpSyntax
