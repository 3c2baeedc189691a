import FerroEngine.HttpAddress

set_option autoImplicit false

/-! # The address guard

An IPv4 address does not become reachable by being written as an IPv6 address that carries it,
and no policy opens a row of the table of refused ranges.
-/

namespace FerroEngine.HttpAddressGuard

open BitWords HttpAddress

/-! ## Embeddings -/

/-- The first 48 bits of `64:ff9b:1::/48`. -/
def localUse : BitVec 48 := 0x0064ff9b0001

/-- The ways to write an IPv4 address that the guard reads. In the layouts of RFC 6052 below
`64:ff9b:1::/48` all other bits are free, those of the `u` octet among them. -/
inductive Embedding where
  | mapped
  | siit
  | wellKnown
  | declared (p : BitVec 96)
  | local48 (u : BitVec 8) (suffix : BitVec 40)
  | local56 (subnet u : BitVec 8) (suffix : BitVec 32)
  | local64 (subnet : BitVec 16) (u : BitVec 8) (suffix : BitVec 24)
  | local96 (subnet : BitVec 48)

namespace Embedding

def embed : Embedding → Ipv4Addr → Ipv6Addr
  | mapped, a => (0xffff : BitVec 96) ++ a
  | siit, a => (0xffff0000 : BitVec 96) ++ a
  | wellKnown, a => (0x0064ff9b0000000000000000 : BitVec 96) ++ a
  | declared p, a => p ++ a
  | local48 u suffix, a =>
    localUse ++ (a.extractLsb' 16 16 ++ u ++ a.extractLsb' 0 16 ++ suffix : BitVec 80)
  | local56 subnet u suffix, a =>
    localUse ++ (subnet ++ a.extractLsb' 24 8 ++ u ++ a.extractLsb' 0 24 ++ suffix : BitVec 80)
  | local64 subnet u suffix, a => localUse ++ (subnet ++ u ++ a ++ suffix : BitVec 80)
  | local96 subnet, a => localUse ++ (subnet ++ a : BitVec 80)

/-- A single candidate is read back. -/
def single : Embedding → Bool
  | mapped | siit | wellKnown | declared _ => true
  | local48 .. | local56 .. | local64 .. | local96 .. => false

/-- A declared prefix is on the list and the address is in no refused row. Below the local-use
prefix the address is left to the guard: no declared prefix covers it. -/
def Known (nat64 : Nat64Prefixes) (a : Ipv4Addr) : Embedding → Prop
  | mapped | siit | wellKnown | local96 _ => True
  | declared p => p ∈ nat64 ∧ ∀ row ∈ refusedV6, v6In (p ++ a) row.1 row.2.1 = false
  | local48 u suffix => ((local48 u suffix).embed a).extractLsb' 32 96 ∉ nat64
  | local56 subnet u suffix => ((local56 subnet u suffix).embed a).extractLsb' 32 96 ∉ nat64
  | local64 subnet u suffix => ((local64 subnet u suffix).embed a).extractLsb' 32 96 ∉ nat64

end Embedding

/-! ## Octets -/

theorem octet_toNat (a : Ipv6Addr) (i : Nat) :
    (octet a i).toNat = a.toNat / 2 ^ (8 * (15 - i)) % 256 := by
  have value := toNat_extract a (8 * (15 - i)) 8
  unfold octet
  exact value

theorem v4From_toNat (a b c d : BitVec 8) :
    (v4From a b c d).toNat =
      ((a.toNat * 2 ^ 8 + b.toNat) * 2 ^ 8 + c.toNat) * 2 ^ 8 + d.toNat := by
  unfold v4From
  rw [toNat_append_eq, toNat_append_eq, toNat_append_eq]

theorem v4From_last (x : Ipv6Addr) :
    v4From (octet x 12) (octet x 13) (octet x 14) (octet x 15) = x.extractLsb' 0 32 := by
  rw [← BitVec.toNat_inj, v4From_toNat, toNat_extract]
  simp only [octet_toNat]
  omega

theorem v4From_last_append (p : BitVec 96) (a : Ipv4Addr) :
    v4From (octet (p ++ a) 12) (octet (p ++ a) 13) (octet (p ++ a) 14) (octet (p ++ a) 15) = a := by
  rw [v4From_last]
  exact BitVec.extractLsb'_append_eq_right

theorem octet_append {i : Nat} (p : BitVec 96) (a : Ipv4Addr) (front : i < 12) :
    octet (p ++ a) i = p.extractLsb' (8 * (11 - i)) 8 := by
  unfold octet
  rw [BitVec.extractLsb'_append_eq_of_le (by omega)]
  congr 1
  omega

/-! ## Candidates -/

theorem embeddedV4_mapped (a : Ipv4Addr) (nat64 : Nat64Prefixes) :
    embeddedV4 (Embedding.mapped.embed a) nat64 = some [a] := by
  have front : ∀ i < 12, octet (Embedding.mapped.embed a) i =
      (0xffff : BitVec 96).extractLsb' (8 * (11 - i)) 8 := fun i low => octet_append _ a low
  unfold embeddedV4
  dsimp only
  rw [if_pos, Embedding.embed, v4From_last_append]
  refine ⟨?_, ?_, ?_⟩
  · rw [List.all_eq_true]
    intro i listed
    have low : i < 10 := List.mem_range.mp listed
    rw [front i (by omega)]
    interval_cases i <;> rfl
  · rw [front 10 (by omega)]
    rfl
  · rw [front 11 (by omega)]
    rfl

theorem v6In_append (p : BitVec 96) (a : Ipv4Addr) : v6In (p ++ a) (p ++ 0#32) 96 = true := by
  unfold v6In
  rw [inNetwork_iff (by omega), toNat_append_eq, toNat_append_eq]
  have small := a.isLt
  simp only [BitVec.toNat_ofNat]
  omega

/-- Every branch but the one of the local-use prefix reads the last four octets. -/
theorem embeddedV4_last {x : Ipv6Addr} {nat64 : Nat64Prefixes}
    (read : ((List.range 8).all fun i => octet x i == 0) ∧ octet x 8 = 0xff ∧ octet x 9 = 0xff ∧
        octet x 10 = 0 ∧ octet x 11 = 0 ∨
      v6In x (v6From 0x64 0xff9b 0 0 0 0 0 0) 96 = true ∨
      x.extractLsb' 32 96 ∈ nat64) :
    embeddedV4 x nat64 = some [x.extractLsb' 0 32] := by
  have any : x.extractLsb' 32 96 ∈ nat64 →
      (nat64.any fun p => x.extractLsb' 32 96 == p) = true := by
    intro declared
    rw [List.any_eq_true]
    exact ⟨_, declared, beq_self_eq_true _⟩
  unfold embeddedV4
  dsimp only
  rw [v4From_last]
  rcases read with siit | known | declared
  · rw [if_pos siit, ite_self]
  · rw [if_pos known, ite_self, ite_self]
  · rw [if_pos (any declared), ite_self, ite_self, ite_self]

theorem embeddedV4_single {e : Embedding} {a : Ipv4Addr} {nat64 : Nat64Prefixes}
    (known : e.Known nat64 a) (one : e.single = true) :
    embeddedV4 (e.embed a) nat64 = some [a] := by
  have last : ∀ p : BitVec 96, (p ++ a).extractLsb' 0 32 = a :=
    fun p => BitVec.extractLsb'_append_eq_right
  cases e with
  | mapped => exact embeddedV4_mapped a nat64
  | siit =>
    rw [embeddedV4_last, Embedding.embed, last]
    left
    have front : ∀ i < 12, octet (Embedding.siit.embed a) i =
        (0xffff0000 : BitVec 96).extractLsb' (8 * (11 - i)) 8 := fun i low => octet_append _ a low
    rw [front 8 (by omega), front 9 (by omega), front 10 (by omega), front 11 (by omega)]
    refine ⟨?_, rfl, rfl, rfl, rfl⟩
    rw [List.all_eq_true]
    intro i listed
    have low : i < 8 := List.mem_range.mp listed
    rw [front i (by omega)]
    interval_cases i <;> rfl
  | wellKnown =>
    rw [embeddedV4_last, Embedding.embed, last]
    exact Or.inr (Or.inl (v6In_append 0x0064ff9b0000000000000000 a))
  | declared p =>
    rw [embeddedV4_last, Embedding.embed, last]
    right
    right
    rw [Embedding.embed, BitVec.extractLsb'_append_eq_left]
    exact known.1
  | local48 u suffix => cases one
  | local56 subnet u suffix => cases one
  | local64 subnet u suffix => cases one
  | local96 subnet => cases one

theorem localUse_toNat (rest : BitVec 80) :
    (localUse ++ rest).toNat = 0x0064ff9b0001 * 2 ^ 80 + rest.toNat := by
  rw [toNat_append_eq]
  rfl

theorem embeddedV4_localUse {rest : BitVec 80} {nat64 : Nat64Prefixes}
    (undeclared : (localUse ++ rest).extractLsb' 32 96 ∉ nat64) :
    embeddedV4 (localUse ++ rest) nat64 =
      some
        [v4From (octet (localUse ++ rest) 6) (octet (localUse ++ rest) 7)
            (octet (localUse ++ rest) 9) (octet (localUse ++ rest) 10),
          v4From (octet (localUse ++ rest) 7) (octet (localUse ++ rest) 9)
            (octet (localUse ++ rest) 10) (octet (localUse ++ rest) 11),
          v4From (octet (localUse ++ rest) 9) (octet (localUse ++ rest) 10)
            (octet (localUse ++ rest) 11) (octet (localUse ++ rest) 12),
          v4From (octet (localUse ++ rest) 12) (octet (localUse ++ rest) 13)
            (octet (localUse ++ rest) 14) (octet (localUse ++ rest) 15)] := by
  have small := rest.isLt
  have value := localUse_toNat rest
  have second : octet (localUse ++ rest) 1 = 0x64 := by
    rw [← BitVec.toNat_inj, octet_toNat, value]
    have reduced : (0x64 : BitVec 8).toNat = 0x64 := rfl
    rw [reduced]
    omega
  have nonzero : ∀ n > 1, ¬ ((List.range n).all fun i => octet (localUse ++ rest) i == 0) = true := by
    intro n more all
    rw [List.all_eq_true] at all
    have zero := all 1 (List.mem_range.mpr more)
    rw [second] at zero
    cases zero
  have notMapped := nonzero 10 (by omega)
  have notSiit := nonzero 8 (by omega)
  have notKnown : v6In (localUse ++ rest) (v6From 0x64 0xff9b 0 0 0 0 0 0) 96 = false := by
    rw [Bool.eq_false_iff]
    unfold v6In
    rw [ne_eq, inNetwork_iff (by omega), value]
    have base : (v6From 0x64 0xff9b 0 0 0 0 0 0).toNat / 2 ^ (128 - 96) =
        0x0064ff9b0000 * 2 ^ 48 := by rfl
    rw [base]
    omega
  have inside : v6In (localUse ++ rest) (v6From 0x64 0xff9b 1 0 0 0 0 0) 48 = true := by
    unfold v6In
    rw [inNetwork_iff (by omega), value]
    have base : (v6From 0x64 0xff9b 1 0 0 0 0 0).toNat / 2 ^ (128 - 48) = 0x0064ff9b0001 := by rfl
    rw [base]
    omega
  have none : (nat64.any fun p => (localUse ++ rest).extractLsb' 32 96 == p) = false := by
    rw [List.any_eq_false]
    intro p listed same
    rw [beq_iff_eq] at same
    exact undeclared (same ▸ listed)
  unfold embeddedV4
  dsimp only
  rw [if_neg fun h => notMapped h.1, if_neg fun h => notSiit h.1, if_neg (by rw [notKnown]; decide),
    if_neg (by rw [none]; decide), if_pos inside]

/-- Each layout below the local-use prefix is among the readings. -/
theorem embeddedV4_layout {e : Embedding} {a : Ipv4Addr} {nat64 : Nat64Prefixes}
    (known : e.Known nat64 a) (many : e.single = false) :
    ∃ v4s, embeddedV4 (e.embed a) nat64 = some v4s ∧ a ∈ v4s := by
  have bound := a.isLt
  cases e with
  | mapped => cases many
  | siit => cases many
  | wellKnown => cases many
  | declared p => cases many
  | local48 u suffix =>
    refine ⟨_, embeddedV4_localUse known, List.mem_cons.mpr (Or.inl ?_)⟩
    have boundU := u.isLt
    have boundS := suffix.isLt
    have value : ((Embedding.local48 u suffix).embed a).toNat = 0x0064ff9b0001 * 2 ^ 80 +
        (((a.toNat / 2 ^ 16 * 2 ^ 8 + u.toNat) * 2 ^ 16 + a.toNat % 2 ^ 16) * 2 ^ 40 +
          suffix.toNat) := by
      rw [Embedding.embed, localUse_toNat]
      simp only [toNat_append_eq, toNat_extract]
      omega
    rw [← BitVec.toNat_inj, v4From_toNat]
    simp only [octet_toNat, Nat.reduceSub, Nat.reduceMul]
    rw [Embedding.embed] at value
    generalize BitVec.toNat (localUse ++ (_ : BitVec 80)) = x at value ⊢
    -- the two halves end at an octet each, so cut there before taking octets
    have high : x / 2 ^ 64 = 0x0064ff9b0001 * 2 ^ 16 + a.toNat / 2 ^ 16 := by omega
    have low : x / 2 ^ 40 = (x / 2 ^ 56) * 2 ^ 16 + a.toNat % 2 ^ 16 := by omega
    have highest : x / 2 ^ 72 = x / 2 ^ 64 / 2 ^ 8 := by
      rw [Nat.div_div_eq_div_mul, ← Nat.pow_add]
    have lower : x / 2 ^ 48 = x / 2 ^ 40 / 2 ^ 8 := by
      rw [Nat.div_div_eq_div_mul, ← Nat.pow_add]
    rw [highest, lower, high, low]
    clear value high low highest lower
    omega
  | local56 subnet u suffix =>
    refine ⟨_, embeddedV4_localUse known, List.mem_cons.mpr (Or.inr (List.mem_cons.mpr ?_))⟩
    left
    have boundN := subnet.isLt
    have boundU := u.isLt
    have boundS := suffix.isLt
    rw [← BitVec.toNat_inj, v4From_toNat]
    simp only [octet_toNat, toNat_append_eq, toNat_extract]
    omega
  | local64 subnet u suffix =>
    refine ⟨_, embeddedV4_localUse known, ?_⟩
    refine List.mem_cons.mpr (Or.inr (List.mem_cons.mpr (Or.inr (List.mem_cons.mpr (Or.inl ?_)))))
    have boundN := subnet.isLt
    have boundU := u.isLt
    have boundS := suffix.isLt
    rw [← BitVec.toNat_inj, v4From_toNat]
    simp only [octet_toNat, toNat_append_eq]
    omega
  | local96 subnet =>
    have last : a = ((Embedding.local96 subnet).embed a).extractLsb' 0 32 := by
      rw [← BitVec.toNat_inj]
      simp only [Embedding.embed, toNat_append_eq, toNat_extract]
      omega
    by_cases declared : ((Embedding.local96 subnet).embed a).extractLsb' 32 96 ∈ nat64
    · refine ⟨_, embeddedV4_last (Or.inr (Or.inr declared)), ?_⟩
      rw [← last]
      exact List.mem_singleton_self a
    · refine ⟨_, embeddedV4_localUse declared, ?_⟩
      have read := v4From_last ((Embedding.local96 subnet).embed a)
      rw [← last] at read
      rw [Embedding.embed] at read
      rw [read]
      simp

theorem embeddedV4_reads {e : Embedding} {a : Ipv4Addr} {nat64 : Nat64Prefixes}
    (known : e.Known nat64 a) :
    ∃ v4s, embeddedV4 (e.embed a) nat64 = some v4s ∧ a ∈ v4s := by
  by_cases one : e.single = true
  · exact ⟨[a], embeddedV4_single known one, List.mem_singleton_self a⟩
  · exact embeddedV4_layout known (Bool.eq_false_iff.mpr one)

/-! ## Refused rows -/

/-- The network that an embedding of the guard's own lies in. -/
def Embedding.network : Embedding → Option (Ipv6Addr × Nat)
  | .mapped => some ((0xffff : BitVec 96) ++ 0#32, 96)
  | .siit => some ((0xffff0000 : BitVec 96) ++ 0#32, 96)
  | .wellKnown => some ((0x0064ff9b0000000000000000 : BitVec 96) ++ 0#32, 96)
  | .declared _ => none
  | .local48 .. | .local56 .. | .local64 .. | .local96 .. => some (localUse ++ 0#80, 48)

theorem localUse_network (rest : BitVec 80) :
    inNetwork (localUse ++ rest) (localUse ++ 0#80) 48 = true := by
  rw [inNetwork_iff (by omega), localUse_toNat, localUse_toNat]
  have small := rest.isLt
  simp only [BitVec.toNat_ofNat]
  omega

theorem embed_network {e : Embedding} {a : Ipv4Addr} {base : Ipv6Addr} {len : Nat}
    (own : e.network = some (base, len)) :
    len ≤ 128 ∧ inNetwork (e.embed a) base len = true ∧
      ∀ row ∈ refusedV6, inNetwork base row.1 (min len row.2.1) = false := by
  cases e with
  | mapped => cases own; exact ⟨by omega, v6In_append _ a, by decide⟩
  | siit => cases own; exact ⟨by omega, v6In_append _ a, by decide⟩
  | wellKnown => cases own; exact ⟨by omega, v6In_append _ a, by decide⟩
  | declared p => cases own
  | local48 u suffix => cases own; exact ⟨by omega, localUse_network _, by decide⟩
  | local56 subnet u suffix => cases own; exact ⟨by omega, localUse_network _, by decide⟩
  | local64 subnet u suffix => cases own; exact ⟨by omega, localUse_network _, by decide⟩
  | local96 subnet => cases own; exact ⟨by omega, localUse_network _, by decide⟩

theorem refusedV6_length : ∀ row ∈ refusedV6, row.2.1 ≤ 128 := by decide

theorem refusedV4_length : ∀ row ∈ refusedV4, row.2.1 ≤ 32 := by decide

theorem embed_outside {e : Embedding} {a : Ipv4Addr} {nat64 : Nat64Prefixes}
    (known : e.Known nat64 a) :
    ∀ row ∈ refusedV6, v6In (e.embed a) row.1 row.2.1 = false := by
  intro row listed
  cases own : e.network with
  | none =>
    cases e with
    | declared p => exact known.2 row listed
    | mapped => cases own
    | siit => cases own
    | wellKnown => cases own
    | local48 u suffix => cases own
    | local56 subnet u suffix => cases own
    | local64 subnet u suffix => cases own
    | local96 subnet => cases own
  | some network =>
    obtain ⟨base, len⟩ := network
    obtain ⟨fits, inside, apart⟩ := embed_network (a := a) own
    rw [Bool.eq_false_iff]
    intro both
    have meets := inNetwork_overlap fits (refusedV6_length row listed) inside both
    rw [apart row listed] at meets
    cases meets

theorem classify_of_outside {x : Ipv6Addr} {nat64 : Nat64Prefixes} {v4s : List Ipv4Addr}
    (outside : ∀ row ∈ refusedV6, v6In x row.1 row.2.1 = false)
    (read : embeddedV4 x nat64 = some v4s) :
    classify (.v6 x) nat64 = v4s.map classifyV4 := by
  have row : v6In x 0 96 = false := outside (0, 96, .deprecatedV6) (by decide)
  have notZero : x ≠ 0 := by
    intro zero
    subst zero
    cases row
  have notOne : x ≠ 1 := by
    intro one
    subst one
    cases row
  have none : refusedV6.find? (fun row => v6In x row.1 row.2.1) = none := by
    rw [List.find?_eq_none]
    intro row listed
    rw [outside row listed]
    exact Bool.false_ne_true
  unfold classify
  dsimp only
  rw [if_neg notZero, if_neg notOne, none]
  dsimp only
  rw [read]

theorem classify_embed {e : Embedding} {a : Ipv4Addr} {nat64 : Nat64Prefixes}
    (known : e.Known nat64 a) :
    classifyV4 a ∈ classify (.v6 (e.embed a)) nat64 := by
  obtain ⟨v4s, read, among⟩ := embeddedV4_reads known
  rw [classify_of_outside (embed_outside known) read]
  exact List.mem_map_of_mem among

theorem classify_embed_single {e : Embedding} {a : Ipv4Addr} {nat64 : Nat64Prefixes}
    (known : e.Known nat64 a) (one : e.single = true) :
    classify (.v6 (e.embed a)) nat64 = classify (.v4 a) nat64 := by
  rw [classify_of_outside (embed_outside known) (embeddedV4_single known one)]
  rfl

/-- An address in a row of the table of refused ranges. -/
inductive InRow : IpAddr → RefusedRange → Prop where
  | v4 {a base : Ipv4Addr} {len : Nat} {row : RefusedRange} :
    (base, len, row) ∈ refusedV4 → v4In a base len = true → InRow (.v4 a) row
  | unspecified : InRow (.v6 0) .unspecified
  | v6 {a base : Ipv6Addr} {len : Nat} {row : RefusedRange} :
    a ≠ 0 → a ≠ 1 → (base, len, row) ∈ refusedV6 → v6In a base len = true → InRow (.v6 a) row

/-- Two rows of one table that meet are of one range. -/
theorem find_row {w : Nat} {table : List (BitVec w × Nat × RefusedRange)} {a base : BitVec w}
    {len : Nat} {row : RefusedRange} (lengths : ∀ r ∈ table, r.2.1 ≤ w)
    (apart : ∀ r ∈ table, ∀ q ∈ table, inNetwork r.1 q.1 (min r.2.1 q.2.1) = true →
      r.2.2 = q.2.2)
    (listed : (base, len, row) ∈ table) (inside : inNetwork a base len = true) :
    ∃ found, table.find? (fun r => inNetwork a r.1 r.2.1) = some found ∧ found.2.2 = row := by
  cases search : table.find? (fun r => inNetwork a r.1 r.2.1) with
  | none =>
    rw [List.find?_eq_none] at search
    exact absurd inside (search _ listed)
  | some found =>
    have present := List.mem_of_find?_eq_some search
    have matched := List.find?_some search
    have meets := inNetwork_overlap (lengths _ present) (lengths _ listed) matched inside
    exact ⟨found, rfl, apart _ present _ listed meets⟩

theorem classify_inRow {addr : IpAddr} {row : RefusedRange} (inside : InRow addr row)
    (nat64 : Nat64Prefixes) : classify addr nat64 = [.refused row] := by
  cases inside with
  | v4 listed inside =>
    obtain ⟨found, search, same⟩ := find_row refusedV4_length (by decide) listed inside
    unfold classify classifyV4 v4In
    dsimp only
    rw [search]
    dsimp only
    rw [same]
  | unspecified => rfl
  | v6 notZero notOne listed inside =>
    obtain ⟨found, search, same⟩ := find_row refusedV6_length (by decide) listed inside
    unfold classify v6In
    dsimp only
    rw [if_neg notZero, if_neg notOne, search]
    dsimp only
    rw [same]

/-! ## The check -/

/-- The check stops at a candidate that it refuses. -/
theorem forM_refuses {f : Classification → Except AddressRefusal Unit}
    {candidates : List Classification} {c : Classification} {r : AddressRefusal}
    (among : c ∈ candidates) (refused : f c = .error r) :
    ∃ first, candidates.forM f = .error first := by
  induction candidates with
  | nil => cases among
  | cons head rest ih =>
    change ∃ first, (f head >>= fun _ => rest.forM f) = .error first
    cases verdict : f head with
    | error first => exact ⟨first, rfl⟩
    | ok done =>
      rcases List.mem_cons.mp among with rfl | later
      · rw [refused] at verdict
        cases verdict
      · exact ih later

theorem forM_singleton (f : Classification → Except AddressRefusal Unit) (c : Classification) :
    [c].forM f = f c := by
  change (f c >>= fun _ => pure ()) = f c
  cases f c <;> rfl

theorem check_v4 (policy : AddressPolicy) (a : Ipv4Addr) (nat64 : Nat64Prefixes) :
    policy.check (.v4 a) nat64 =
      policy.checkCandidate (policy.literal == some (.v4 a)) (classifyV4 a) :=
  forM_singleton _ _

/-- A policy refuses no less to an address that is not its literal. -/
theorem checkCandidate_refuses {policy : AddressPolicy} {isLiteral : Bool} {c : Classification}
    {r : AddressRefusal} (refused : policy.checkCandidate isLiteral c = .error r) :
    policy.checkCandidate false c = .error r := by
  cases isLiteral with
  | false => exact refused
  | true =>
    cases c with
    | refused row => exact refused
    | admissible kind => cases refused

theorem check_embed_refuses {policy : AddressPolicy} {nat64 : Nat64Prefixes} {e : Embedding}
    {a : Ipv4Addr} {r : AddressRefusal} (known : e.Known nat64 a)
    (noLiteral : policy.literal ≠ some (.v6 (e.embed a)))
    (refused : policy.check (.v4 a) nat64 = .error r) :
    ∃ r', policy.check (.v6 (e.embed a)) nat64 = .error r' := by
  rw [check_v4] at refused
  unfold AddressPolicy.check
  rw [beq_eq_false_iff_ne.mpr noLiteral]
  exact forM_refuses (classify_embed known) (checkCandidate_refuses refused)

theorem check_embed_single {policy : AddressPolicy} {nat64 : Nat64Prefixes} {e : Embedding}
    {a : Ipv4Addr} (known : e.Known nat64 a) (one : e.single = true)
    (noLiteral : policy.literal ≠ some (.v6 (e.embed a)))
    (noLiteralV4 : policy.literal ≠ some (.v4 a)) :
    policy.check (.v6 (e.embed a)) nat64 = policy.check (.v4 a) nat64 := by
  unfold AddressPolicy.check
  rw [beq_eq_false_iff_ne.mpr noLiteral, beq_eq_false_iff_ne.mpr noLiteralV4,
    classify_embed_single known one]

theorem check_inRow {addr : IpAddr} {row : RefusedRange} (inside : InRow addr row)
    (policy : AddressPolicy) (nat64 : Nat64Prefixes) :
    policy.check addr nat64 =
      if row.isMetadata && policy.allowMetadata then .ok () else .error (.range row) := by
  unfold AddressPolicy.check
  rw [classify_inRow inside, forM_singleton]
  rfl

end FerroEngine.HttpAddressGuard
