import Mathlib.Data.List.Basic
import Mathlib.Tactic.Common
import FerroEngine.BitWords
import FerroEngine.SourceText

set_option autoImplicit false

/-! # Classifying addresses

The tables of `address.rs`, the IPv4 addresses that an IPv6 address may carry and the policy of
an upstream. An address is its bits, the first octet in front.
-/

namespace FerroEngine.HttpAddress

open SourceText

abbrev Ipv4Addr := BitVec 32

abbrev Ipv6Addr := BitVec 128

inductive IpAddr where
  | v4 (a : Ipv4Addr)
  | v6 (a : Ipv6Addr)
  deriving DecidableEq, Repr

inductive AddressClass where
  | public'
  | private'
  | loopback
  deriving DecidableEq, Repr

inductive RefusedRange where
  | unspecified
  | multicastReserved
  | linkLocal
  | awsImdsV6
  | gcpImdsV6
  | alibabaMetadata
  | azureWireServer
  | ietfSpecial
  | deprecatedV6
  deriving DecidableEq, Repr

def RefusedRange.isMetadata : RefusedRange → Bool
  | .linkLocal | .awsImdsV6 | .gcpImdsV6 | .alibabaMetadata | .azureWireServer
  | .ietfSpecial => true
  | .unspecified | .multicastReserved | .deprecatedV6 => false

inductive Classification where
  | refused (row : RefusedRange)
  | admissible (kind : AddressClass)
  deriving DecidableEq, Repr

/-! ## Networks -/

section Networks

variable {w : Nat}

def mask (w len : Nat) : BitVec w :=
  if len = 0 then 0 else BitVec.allOnes w <<< (w - len)

def inNetwork (a base : BitVec w) (len : Nat) : Bool :=
  (a &&& mask w len) == (base &&& mask w len)

theorem mask_getLsbD {len i : Nat} (fits : len ≤ w) (small : i < w) :
    (mask w len).getLsbD i = decide (w - len ≤ i) := by
  unfold mask
  by_cases empty : len = 0
  · rw [if_pos empty]
    have far : ¬ w - len ≤ i := by omega
    simp [far]
  · rw [if_neg empty]
    by_cases covered : w - len ≤ i
    · simp [small, covered, Nat.not_lt.mpr covered]
    · simp [covered, Nat.lt_of_not_le covered]

/-- Belonging to a network is agreeing on what stands in front of the host's bits. -/
theorem inNetwork_iff {a base : BitVec w} {len : Nat} (fits : len ≤ w) :
    inNetwork a base len = true ↔
      a.toNat / 2 ^ (w - len) = base.toNat / 2 ^ (w - len) := by
  unfold inNetwork
  rw [beq_iff_eq]
  have shifted : a.toNat / 2 ^ (w - len) = base.toNat / 2 ^ (w - len) ↔
      a >>> (w - len) = base >>> (w - len) := by
    rw [← BitVec.toNat_inj, BitVec.toNat_ushiftRight, BitVec.toNat_ushiftRight,
      Nat.shiftRight_eq_div_pow, Nat.shiftRight_eq_div_pow]
  rw [shifted]
  constructor
  · intro same
    apply BitVec.eq_of_getLsbD_eq
    intro i small
    rw [BitVec.getLsbD_ushiftRight, BitVec.getLsbD_ushiftRight]
    by_cases inside : w - len + i < w
    · have bit := congrArg (fun x => BitVec.getLsbD x (w - len + i)) same
      simpa [mask_getLsbD fits inside] using bit
    · rw [BitVec.getLsbD_of_ge _ _ (by omega), BitVec.getLsbD_of_ge _ _ (by omega)]
  · intro same
    apply BitVec.eq_of_getLsbD_eq
    intro i small
    rw [BitVec.getLsbD_and, BitVec.getLsbD_and, mask_getLsbD fits small]
    by_cases front : w - len ≤ i
    · have bit := congrArg (fun x => BitVec.getLsbD x (i - (w - len))) same
      simp only [BitVec.getLsbD_ushiftRight] at bit
      rw [Nat.add_sub_cancel' front] at bit
      rw [bit]
    · simp [front]

theorem inNetwork_weaken {a base : BitVec w} {len less : Nat} (fits : len ≤ w)
    (shorter : less ≤ len) (inside : inNetwork a base len = true) :
    inNetwork a base less = true := by
  rw [inNetwork_iff fits] at inside
  rw [inNetwork_iff (shorter.trans fits)]
  have split : w - less = (w - len) + (len - less) := by omega
  rw [split, Nat.pow_add, ← Nat.div_div_eq_div_mul, ← Nat.div_div_eq_div_mul, inside]

/-- Two networks with an address in common agree on the shorter prefix. -/
theorem inNetwork_overlap {a one other : BitVec w} {lenOne lenOther : Nat}
    (fitsOne : lenOne ≤ w) (fitsOther : lenOther ≤ w)
    (inOne : inNetwork a one lenOne = true) (inOther : inNetwork a other lenOther = true) :
    inNetwork one other (min lenOne lenOther) = true := by
  have fits : min lenOne lenOther ≤ w := (Nat.min_le_left _ _).trans fitsOne
  have left := inNetwork_weaken fitsOne (Nat.min_le_left _ lenOther) inOne
  have right := inNetwork_weaken fitsOther (Nat.min_le_right lenOne _) inOther
  rw [inNetwork_iff fits] at left right ⊢
  rw [← left, right]

end Networks

def v4In (a base : Ipv4Addr) (len : Nat) : Bool :=
  inNetwork a base len

def v6In (a base : Ipv6Addr) (len : Nat) : Bool :=
  inNetwork a base len

def octet (a : Ipv6Addr) (i : Nat) : BitVec 8 :=
  a.extractLsb' (8 * (15 - i)) 8

def v4From (a b c d : BitVec 8) : Ipv4Addr :=
  a ++ b ++ c ++ d

/-! ## Tables -/

def refusedV4 : List (Ipv4Addr × Nat × RefusedRange) :=
  [(v4From 0 0 0 0, 8, .unspecified),
    (v4From 224 0 0 0, 4, .multicastReserved),
    (v4From 240 0 0 0, 4, .multicastReserved),
    (v4From 169 254 0 0, 16, .linkLocal),
    (v4From 100 100 100 200, 32, .alibabaMetadata),
    (v4From 168 63 129 16, 32, .azureWireServer),
    (v4From 192 0 0 0, 24, .ietfSpecial),
    (v4From 255 255 255 255, 32, .multicastReserved)]

def privateV4 : List (Ipv4Addr × Nat) :=
  [(v4From 10 0 0 0, 8),
    (v4From 172 16 0 0, 12),
    (v4From 192 168 0 0, 16),
    (v4From 100 64 0 0, 10),
    (v4From 198 18 0 0, 15)]

def classifyV4 (a : Ipv4Addr) : Classification :=
  match refusedV4.find? fun row => v4In a row.1 row.2.1 with
  | some row => .refused row.2.2
  | none =>
    if v4In a (v4From 127 0 0 0) 8 then .admissible .loopback
    else if privateV4.any fun row => v4In a row.1 row.2 then .admissible .private'
    else .admissible .public'

/-- An IPv6 address written as its eight groups. -/
def v6From (a b c d e f g h : BitVec 16) : Ipv6Addr :=
  a ++ b ++ c ++ d ++ e ++ f ++ g ++ h

def refusedV6 : List (Ipv6Addr × Nat × RefusedRange) :=
  [(0, 96, .deprecatedV6),
    (v6From 0xff00 0 0 0 0 0 0 0, 8, .multicastReserved),
    (v6From 0xfe80 0 0 0 0 0 0 0, 10, .linkLocal),
    (v6From 0xfd00 0x0ec2 0 0 0 0 0 0, 32, .awsImdsV6),
    (v6From 0xfd20 0xce 0 0 0 0 0 0x254, 128, .gcpImdsV6),
    (v6From 0x2002 0 0 0 0 0 0 0, 16, .deprecatedV6),
    (v6From 0x2001 0 0 0 0 0 0 0, 32, .deprecatedV6),
    (v6From 0xfec0 0 0 0 0 0 0 0, 10, .deprecatedV6)]

/-! ## Embedded addresses -/

/-- The first twelve octets of each `/96` prefix that the operator declares. -/
abbrev Nat64Prefixes := List (BitVec 96)

/-- `FERRO_HTTP_NAT64_PREFIXES` entries; `parse` is the standard library's reading of an IPv6
address. -/
def parseEntry (parse : Text → Option Ipv6Addr) (s : Text) : Option (BitVec 96) :=
  match s.idxOf? '/' with
  | none => none
  | some at' =>
    if s.drop (at' + 1) ≠ "96".toList then none
    else
      match parse (s.take at') with
      | none => none
      | some a => if a.extractLsb' 0 32 ≠ 0 then none else some (a.extractLsb' 32 96)

def embeddedV4 (a : Ipv6Addr) (nat64 : Nat64Prefixes) : Option (List Ipv4Addr) :=
  let o := octet a
  let last := v4From (o 12) (o 13) (o 14) (o 15)
  if ((List.range 10).all fun i => o i == 0) ∧ o 10 = 0xff ∧ o 11 = 0xff then some [last]
  else if ((List.range 8).all fun i => o i == 0) ∧
      o 8 = 0xff ∧ o 9 = 0xff ∧ o 10 = 0 ∧ o 11 = 0 then some [last]
  else if v6In a (v6From 0x64 0xff9b 0 0 0 0 0 0) 96 then some [last]
  else if nat64.any fun p => a.extractLsb' 32 96 == p then some [last]
  else if v6In a (v6From 0x64 0xff9b 1 0 0 0 0 0) 48 then
    some
      [v4From (o 6) (o 7) (o 9) (o 10),
        v4From (o 7) (o 9) (o 10) (o 11),
        v4From (o 9) (o 10) (o 11) (o 12),
        last]
  else none

def classify (addr : IpAddr) (nat64 : Nat64Prefixes) : List Classification :=
  match addr with
  | .v4 a => [classifyV4 a]
  | .v6 a =>
    if a = 0 then [.refused .unspecified]
    else if a = 1 then [.admissible .loopback]
    else
      match refusedV6.find? fun row => v6In a row.1 row.2.1 with
      | some row => [.refused row.2.2]
      | none =>
        match embeddedV4 a nat64 with
        | some v4s => v4s.map classifyV4
        | none =>
          if v6In a (v6From 0xfc00 0 0 0 0 0 0 0) 7 then [.admissible .private']
          else [.admissible .public']

/-! ## Policies -/

structure ClassSet where
  public' : Bool
  private' : Bool
  loopback : Bool
  deriving DecidableEq, Repr

def ClassSet.contains (self : ClassSet) : AddressClass → Bool
  | .public' => self.public'
  | .private' => self.private'
  | .loopback => self.loopback

inductive AddressRefusal where
  | range (row : RefusedRange)
  | kind (kind : AddressClass)
  deriving DecidableEq, Repr

structure AddressPolicy where
  classes : ClassSet
  allowMetadata : Bool
  literal : Option IpAddr
  deriving DecidableEq, Repr

/-- What the policy says of one candidate. -/
def AddressPolicy.checkCandidate (self : AddressPolicy) (isLiteral : Bool) :
    Classification → Except AddressRefusal Unit
  | .refused r =>
    if r.isMetadata && self.allowMetadata then .ok () else .error (.range r)
  | .admissible c =>
    if isLiteral then .ok ()
    else if self.classes.contains c then .ok ()
    else .error (.kind c)

def AddressPolicy.check (self : AddressPolicy) (addr : IpAddr) (nat64 : Nat64Prefixes) :
    Except AddressRefusal Unit :=
  (classify addr nat64).forM (self.checkCandidate (self.literal == some addr))

end FerroEngine.HttpAddress
