import FerroEngine.DecimalText

set_option autoImplicit false

/-! # The texts of Internet addresses

IPv4 and IPv6 addresses as the standard library writes and reads them: dotted octets, and groups of
hexadecimal digits with at most one `::` and a dotted end.
-/

namespace FerroEngine.AddressText

open DecimalText

structure Ipv4 where
  a : UInt8
  b : UInt8
  c : UInt8
  d : UInt8
  deriving DecidableEq, Repr

structure Ipv6 where
  groups : List UInt16
  eight : groups.length = 8
  deriving DecidableEq, Repr

/-! ## Hexadecimal digits -/

/-- `to_digit(16)`. -/
def isHex (b : UInt8) : Bool :=
  isDigit b || (97 ≤ b.toNat && b.toNat ≤ 102) || (65 ≤ b.toNat && b.toNat ≤ 70)

def hexDigit (b : UInt8) : Nat :=
  if isDigit b then b.toNat - 48
  else if 97 ≤ b.toNat then b.toNat - 87
  else b.toNat - 55

def hexByte (d : Nat) : UInt8 :=
  if d < 10 then UInt8.ofNat (48 + d) else UInt8.ofNat (87 + d)

def hexValue (s : Text) : Nat :=
  s.foldl (fun n b => 16 * n + hexDigit b) 0

/-- `{:x}`. -/
def hexText (n : Nat) : Text :=
  if n < 16 then [hexByte n] else hexText (n / 16) ++ [hexByte (n % 16)]

/-! ## Display -/

/-- The octets of two groups. -/
def octetsOf (high low : UInt16) : Ipv4 :=
  { a := UInt8.ofNat (high.toNat / 256)
    b := UInt8.ofNat (high.toNat % 256)
    c := UInt8.ofNat (low.toNat / 256)
    d := UInt8.ofNat (low.toNat % 256) }

/-- `from_be_bytes`. -/
def groupOf (high low : UInt8) : UInt16 :=
  UInt16.ofNat (high.toNat * 256 + low.toNat)

def dotted (v4 : Ipv4) : Text :=
  decimal v4.a.toNat ++ 46 :: decimal v4.b.toNat ++ 46 :: decimal v4.c.toNat ++
    46 :: decimal v4.d.toNat

def toIpv4Mapped (v6 : Ipv6) : Option Ipv4 :=
  match v6.groups with
  | [0, 0, 0, 0, 0, 65535, high, low] => some (octetsOf high low)
  | _ => none

structure Span where
  start : Nat
  len : Nat
  deriving DecidableEq, Repr

/-- The longest run of zeros, the first one of that length. -/
def zeroSpan (i : Nat) (longest current : Span) : List UInt16 → Span
  | [] => longest
  | group :: rest =>
    if group = 0 then
      let current : Span :=
        { start := if current.len = 0 then i else current.start
          len := current.len + 1 }
      zeroSpan (i + 1) (if longest.len < current.len then current else longest) current rest
    else zeroSpan (i + 1) longest ⟨0, 0⟩ rest

/-- `fmt_subslice`, from its first group on or from a later one. -/
def groupsText (first : Bool) : List UInt16 → Text
  | [] => []
  | group :: rest => (if first then [] else [58]) ++ hexText group.toNat ++ groupsText false rest

def render (v6 : Ipv6) : Text :=
  match toIpv4Mapped v6 with
  | some v4 => [58, 58, 102, 102, 102, 102, 58] ++ dotted v4
  | none =>
    let zeroes := zeroSpan 0 ⟨0, 0⟩ ⟨0, 0⟩ v6.groups
    if 1 < zeroes.len then
      groupsText true (v6.groups.take zeroes.start) ++ [58, 58] ++
        groupsText true (v6.groups.drop (zeroes.start + zeroes.len))
    else groupsText true v6.groups

/-! ## Parser -/

/-- `read_number`: digits of a radix, at most `maxDigits`, with a value below `bound`. -/
def readNumber (isOne : UInt8 → Bool) (valueOf : Text → Nat) (maxDigits : Nat) (zeroPrefix : Bool)
    (bound : Nat) (p : Text) : Option (Nat × Text) :=
  let digits := p.takeWhile isOne
  if maxDigits < digits.length then none
  else if digits.length = 0 then none
  else if zeroPrefix = false ∧ digits.head? = some 48 ∧ 1 < digits.length then none
  else if valueOf digits < bound then some (valueOf digits, p.dropWhile isOne)
  else none

/-- `read_separator`: no separator before the first one. -/
def readSeparator {α : Type} (sep : UInt8) (first : Bool) (inner : Text → Option (α × Text))
    (p : Text) : Option (α × Text) :=
  if first then inner p
  else
    match p with
    | b :: rest => if b = sep then inner rest else none
    | [] => none

def readOctet (p : Text) : Option (UInt8 × Text) :=
  (readNumber isDigit value 3 false 256 p).map fun (n, rest) => (UInt8.ofNat n, rest)

def readGroup (p : Text) : Option (UInt16 × Text) :=
  (readNumber isHex hexValue 4 true 65536 p).map fun (n, rest) => (UInt16.ofNat n, rest)

/-- `read_ipv4_addr`. -/
def readIpv4 (p : Text) : Option (Ipv4 × Text) := do
  let (a, p) ← readSeparator 46 true readOctet p
  let (b, p) ← readSeparator 46 false readOctet p
  let (c, p) ← readSeparator 46 false readOctet p
  let (d, p) ← readSeparator 46 false readOctet p
  some (⟨a, b, c, d⟩, p)

/-- `read_groups` with some slots left: the groups, whether an IPv4 address ends them, the rest. -/
def readGroups (first : Bool) : Nat → Text → List UInt16 × Bool × Text
  | 0, p => ([], false, p)
  | slots + 1, p =>
    -- An IPv4 address takes two slots.
    match if slots = 0 then none else readSeparator 58 first readIpv4 p with
    | some (v4, rest) => ([groupOf v4.a v4.b, groupOf v4.c v4.d], true, rest)
    | none =>
      match readSeparator 58 first readGroup p with
      | some (group, rest) =>
        let (groups, dotted, rest) := readGroups false slots rest
        (group :: groups, dotted, rest)
      | none => ([], false, p)

theorem readGroups_length (first : Bool) (slots : Nat) (p : Text) :
    (readGroups first slots p).1.length ≤ slots := by
  induction slots generalizing first p with
  | zero => exact Nat.le_refl 0
  | succ slots ih =>
    rw [readGroups]
    split
    · rename_i v4 rest same
      split at same
      · cases same
      · change 2 ≤ slots + 1
        omega
    · split
      · rename_i group rest _
        exact Nat.succ_le_succ (ih false rest)
      · exact Nat.zero_le _

/-- `read_ipv6_addr` on the whole text. -/
def parseGroups (s : Text) : Option (List UInt16) :=
  let (head, dotted, rest) := readGroups true 8 s
  if head.length = 8 then if rest = [] then some head else none
  else if dotted then none
  else
    match rest with
    | 58 :: 58 :: p =>
      let (tail, _, rest) := readGroups true (7 - head.length) p
      if rest = [] then some (head ++ List.replicate (8 - head.length - tail.length) 0 ++ tail)
      else none
    | _ => none

theorem parseGroups_length {s : Text} {groups : List UInt16} (parsed : parseGroups s = some groups) :
    groups.length = 8 := by
  have front := readGroups_length true 8 s
  unfold parseGroups at parsed
  revert parsed front
  cases readGroups true 8 s with
  | mk head after =>
    intro parsed front
    dsimp only at front parsed
    split at parsed
    · rename_i whole
      split at parsed
      · cases parsed
        exact whole
      · cases parsed
    · split at parsed
      · cases parsed
      · split at parsed
        · rename_i p _
          have back := readGroups_length true (7 - head.length) p
          split at parsed
          · cases parsed
            rw [List.length_append, List.length_append, List.length_replicate]
            omega
          · cases parsed
        · cases parsed

def parse (s : Text) : Option Ipv6 :=
  match found : parseGroups s with
  | some groups => some ⟨groups, parseGroups_length found⟩
  | none => none

theorem parse_iff {s : Text} {v6 : Ipv6} : parse s = some v6 ↔ parseGroups s = some v6.groups := by
  unfold parse
  split
  · rename_i groups found
    constructor
    · intro same
      rw [← Option.some.inj same]
      exact found
    · intro same
      refine congrArg some ?_
      cases v6
      rw [Ipv6.mk.injEq]
      exact Option.some.inj (found.symm.trans same)
  · rename_i found
    rw [found]
    exact ⟨nofun, nofun⟩

end FerroEngine.AddressText
