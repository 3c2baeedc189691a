import FerroEngine.HttpAddressGuard

set_option autoImplicit false

/-! # Dialling an upstream

`dial.rs`: the addresses of an upstream are resolved or taken from the cache, checked, and tried
in order. What the resolver and the network answer is the world's.
-/

namespace FerroEngine.HttpDial

open BitWords SourceText HttpAddress HttpAddressGuard

inductive Host where
  | v4 (a : Ipv4Addr)
  | v6 (a : Ipv6Addr)
  | name (text : Text)
  deriving DecidableEq, Repr

structure Upstream where
  name : Text
  host : Host
  port : UInt16
  address : AddressPolicy
  dnsTtlMs : Nat

structure SocketAddr where
  ip : IpAddr
  port : UInt16
  deriving DecidableEq, Repr

/-- The failures that a dial itself reports. -/
inductive DialFailure where
  | dns
  | address (refusal : AddressRefusal)
  | connectRefused
  | connectUnreachable
  | connectTimeout
  deriving DecidableEq, Repr

inductive ErrorKind where
  | connectionRefused
  | timedOut
  | other
  deriving DecidableEq, Repr

def connectCause : ErrorKind → DialFailure
  | .connectionRefused => .connectRefused
  | .timedOut => .connectTimeout
  | .other => .connectUnreachable

/-- Answers with the time at which they expire. -/
abbrev DnsCache := Text → Option (List IpAddr × Nat)

namespace DnsCache

def get (self : DnsCache) (upstream : Text) (now : Nat) : Option (List IpAddr) :=
  match self upstream with
  | some (addrs, expires) => if now < expires then some addrs else none
  | none => none

def put (self : DnsCache) (upstream : Text) (addrs : List IpAddr) (expires : Nat) : DnsCache :=
  Function.update self upstream (some (addrs, expires))

def forget (self : DnsCache) (upstream : Text) : DnsCache :=
  Function.update self upstream none

end DnsCache

/-- What comes of one address on the list: the bound ran out before, or the connection ended. -/
inductive Attempt where
  | late
  | connected
  | failed (kind : ErrorKind)
  | timedOut
  deriving DecidableEq, Repr

/-- The clock, the resolver's answer if one came in time, and the fate of each attempt. -/
structure World where
  now : Nat
  resolved : Option (List IpAddr)
  resolvedAt : Nat
  attempt : Nat → Attempt

structure Dialled where
  outcome : Except DialFailure SocketAddr
  opened : List SocketAddr
  cache : DnsCache

def admittedStep (up : Upstream) (nat64 : Nat64Prefixes)
    (found : List IpAddr × Option AddressRefusal) (ip : IpAddr) :
    List IpAddr × Option AddressRefusal :=
  match up.address.check ip nat64 with
  | .ok () => (found.1 ++ [ip], found.2)
  | .error r => (found.1, found.2 <|> some r)

def admitted (up : Upstream) (addrs : List IpAddr) (nat64 : Nat64Prefixes) :
    List IpAddr × Option AddressRefusal :=
  addrs.foldl (admittedStep up nat64) ([], none)

/-- The loop over the admitted addresses, with the sockets that it opens. -/
def connectFirst (port : UInt16) (attempt : Nat → Attempt) :
    Nat → List IpAddr → DialFailure → Except DialFailure SocketAddr × List SocketAddr
  | _, [], last => (.error last, [])
  | i, ip :: rest, _ =>
    let peer : SocketAddr := { ip := ip, port := port }
    let after := fun last' =>
      let (outcome, opened) := connectFirst port attempt (i + 1) rest last'
      (outcome, peer :: opened)
    match attempt i with
    | .late => (.error .connectTimeout, [])
    | .connected => (.ok peer, [peer])
    | .failed kind => after (connectCause kind)
    | .timedOut => after .connectTimeout

/-- The addresses to check and the cache once they are known. -/
def addresses (up : Upstream) (cache : DnsCache) (world : World) :
    Except DialFailure (List IpAddr × DnsCache) :=
  match up.host with
  | .v4 a => .ok ([.v4 a], cache)
  | .v6 a => .ok ([.v6 a], cache)
  | .name _ =>
    match cache.get up.name world.now with
    | some addrs => .ok (addrs, cache)
    | none =>
      match world.resolved with
      | some (first :: rest) =>
        .ok (first :: rest,
          cache.put up.name (first :: rest) (world.resolvedAt + up.dnsTtlMs))
      | some [] | none => .error .dns

def dial (up : Upstream) (cache : DnsCache) (nat64 : Nat64Prefixes) (world : World) : Dialled :=
  match addresses up cache world with
  | .error failure => { outcome := .error failure, opened := [], cache := cache }
  | .ok (addrs, cache) =>
    let (ok, refusal) := admitted up addrs nat64
    if ok.isEmpty then
      { outcome := .error (.address (refusal.getD (.range .unspecified)))
        opened := []
        cache := cache }
    else
      match connectFirst up.port world.attempt 0 ok .connectUnreachable with
      | (.ok peer, opened) => { outcome := .ok peer, opened := opened, cache := cache }
      | (.error last, opened) =>
        { outcome := .error last, opened := opened, cache := cache.forget up.name }

/-! ## Every socket is checked -/

theorem admitted_checked (up : Upstream) (nat64 : Nat64Prefixes) (addrs : List IpAddr) :
    ∀ ip ∈ (admitted up addrs nat64).1, up.address.check ip nat64 = .ok () := by
  have fold : ∀ (addrs : List IpAddr) (found : List IpAddr × Option AddressRefusal),
      (∀ ip ∈ found.1, up.address.check ip nat64 = .ok ()) →
      ∀ ip ∈ (addrs.foldl (admittedStep up nat64) found).1,
        up.address.check ip nat64 = .ok () := by
    intro addrs
    induction addrs with
    | nil => exact fun found checked => checked
    | cons head rest ih =>
      intro found checked
      rw [List.foldl_cons]
      apply ih
      unfold admittedStep
      cases verdict : up.address.check head nat64 with
      | error r => exact checked
      | ok done =>
        intro ip among
        rcases List.mem_append.mp among with earlier | this
        · exact checked ip earlier
        · rw [List.mem_singleton.mp this]
          exact verdict
  exact fold addrs ([], none) fun ip among => by cases among

theorem connectFirst_opened {port : UInt16} {attempt : Nat → Attempt} (ips : List IpAddr) :
    ∀ {i : Nat} {last : DialFailure} (peer : SocketAddr),
      peer ∈ (connectFirst port attempt i ips last).2 → peer.ip ∈ ips := by
  induction ips with
  | nil => exact fun peer among => by cases among
  | cons ip rest ih =>
    intro i last peer among
    unfold connectFirst at among
    cases fate : attempt i with
    | late =>
      rw [fate] at among
      cases among
    | connected =>
      rw [fate] at among
      rw [List.mem_singleton.mp among]
      exact List.mem_cons_self
    | failed kind =>
      rw [fate] at among
      rcases List.mem_cons.mp among with this | later
      · rw [this]
        exact List.mem_cons_self
      · exact List.mem_cons_of_mem _ (ih peer later)
    | timedOut =>
      rw [fate] at among
      rcases List.mem_cons.mp among with this | later
      · rw [this]
        exact List.mem_cons_self
      · exact List.mem_cons_of_mem _ (ih peer later)

theorem connectFirst_peer {port : UInt16} {attempt : Nat → Attempt} {peer : SocketAddr}
    (ips : List IpAddr) :
    ∀ {i : Nat} {last : DialFailure}, (connectFirst port attempt i ips last).1 = .ok peer →
      peer ∈ (connectFirst port attempt i ips last).2 := by
  induction ips with
  | nil => exact fun done => by cases done
  | cons ip rest ih =>
    intro i last done
    unfold connectFirst at done ⊢
    cases fate : attempt i with
    | late =>
      rw [fate] at done
      cases done
    | connected =>
      rw [fate] at done
      cases done
      exact List.mem_singleton_self _
    | failed kind =>
      rw [fate] at done
      exact List.mem_cons_of_mem _ (ih done)
    | timedOut =>
      rw [fate] at done
      exact List.mem_cons_of_mem _ (ih done)

/-- Whatever the cache holds and the resolver answers, a dial connects to checked addresses, and
the connection that it returns is one of those. -/
theorem dial_checked (up : Upstream) (cache : DnsCache) (nat64 : Nat64Prefixes) (world : World) :
    (∀ peer ∈ (dial up cache nat64 world).opened, up.address.check peer.ip nat64 = .ok ()) ∧
      ∀ peer, (dial up cache nat64 world).outcome = .ok peer →
        peer ∈ (dial up cache nat64 world).opened := by
  unfold dial
  cases known : addresses up cache world with
  | error failure => exact ⟨fun peer among => (by cases among), fun peer done => (by cases done)⟩
  | ok found =>
    obtain ⟨addrs, cache'⟩ := found
    dsimp only
    by_cases empty : (admitted up addrs nat64).1.isEmpty = true
    · rw [if_pos empty]
      exact ⟨fun peer among => (by cases among), fun peer done => (by cases done)⟩
    · rw [if_neg empty]
      have checked : ∀ peer ∈ (connectFirst up.port world.attempt 0 (admitted up addrs nat64).1
          .connectUnreachable).2, up.address.check peer.ip nat64 = .ok () := fun peer among =>
        admitted_checked up nat64 addrs peer.ip (connectFirst_opened _ peer among)
      have among : ∀ peer, (connectFirst up.port world.attempt 0 (admitted up addrs nat64).1
          .connectUnreachable).1 = .ok peer → peer ∈ (connectFirst up.port world.attempt 0
          (admitted up addrs nat64).1 .connectUnreachable).2 := fun peer done =>
        connectFirst_peer _ done
      generalize connectFirst up.port world.attempt 0 (admitted up addrs nat64).1
        .connectUnreachable = tried at checked among ⊢
      obtain ⟨outcome, opened⟩ := tried
      cases outcome with
      | error last => exact ⟨checked, fun peer done => by cases done⟩
      | ok peer => exact ⟨checked, among⟩

/-! ## The guard as a whole -/

/-- A declared prefix has the length 96. -/
theorem parseEntry_length {parse : Text → Option Ipv6Addr} {s : Text} {p : BitVec 96}
    (declared : parseEntry parse s = some p) :
    ∃ front, s = front ++ "/96".toList ∧ parse front = some (p ++ 0#32) := by
  unfold parseEntry at declared
  cases cut : s.idxOf? '/' with
  | none =>
    rw [cut] at declared
    cases declared
  | some at' =>
    rw [cut] at declared
    dsimp only at declared
    by_cases length : s.drop (at' + 1) = "96".toList
    · rw [if_neg (not_not_intro length)] at declared
      cases read : parse (s.take at') with
      | none =>
        rw [read] at declared
        cases declared
      | some a =>
        rw [read] at declared
        dsimp only at declared
        by_cases low : a.extractLsb' 0 32 = 0
        · rw [if_neg (not_not_intro low)] at declared
          refine ⟨s.take at', ?_, ?_⟩
          · obtain ⟨inside, slash, -⟩ := List.findIdx?_eq_some_iff_getElem.mp cut
            have here : s[at'] = '/' := by simpa using slash
            calc s = s.take at' ++ s.drop at' := (List.take_append_drop at' s).symm
              _ = s.take at' ++ s[at'] :: s.drop (at' + 1) := by
                rw [List.drop_eq_getElem_cons inside]
              _ = s.take at' ++ "/96".toList := by
                rw [here, length]
                rfl
          · cases declared
            have zero : 0#32 = a.extractLsb' 0 32 := low.symm
            rw [zero, read]
            congr 1
            rw [← BitVec.toNat_inj, toNat_append_eq]
            simp only [toNat_extract]
            have bound := a.isLt
            omega
        · rw [if_pos low] at declared
          cases declared
    · rw [if_pos length] at declared
      cases declared

/-- No literal and no embedding lets an address of a row through that is not for metadata. -/
theorem check_embed_inRow {policy : AddressPolicy} {nat64 : Nat64Prefixes} {e : Embedding}
    {a : Ipv4Addr} {row : RefusedRange} (known : e.Known nat64 a) (inside : InRow (.v4 a) row)
    (always : row.isMetadata = false) :
    ∃ r, policy.check (.v6 (e.embed a)) nat64 = .error r := by
  have listed : classifyV4 a = .refused row :=
    List.singleton_inj.mp (classify_inRow inside nat64)
  refine forM_refuses (classify_embed known) (r := .range row) ?_
  rw [listed]
  unfold AddressPolicy.checkCandidate
  dsimp only
  rw [always]
  rfl

/-- An address is refused in every known embedding when it is refused as itself, and one with a
single reading gets the same answer; rows that are not for metadata stay closed to every policy
and every list of prefixes; and sockets are opened to checked addresses only. -/
theorem addresses_guarded (policy : AddressPolicy) (nat64 : Nat64Prefixes) :
    (∀ (e : Embedding) (a : Ipv4Addr), e.Known nat64 a →
      policy.literal ≠ some (.v6 (e.embed a)) →
      (∀ r, policy.check (.v4 a) nat64 = .error r →
        ∃ r', policy.check (.v6 (e.embed a)) nat64 = .error r') ∧
      (e.single = true → policy.literal ≠ some (.v4 a) →
        policy.check (.v6 (e.embed a)) nat64 = policy.check (.v4 a) nat64)) ∧
    (∀ (addr : IpAddr) (row : RefusedRange), InRow addr row →
      policy.check addr nat64 =
        if row.isMetadata && policy.allowMetadata then .ok () else .error (.range row)) ∧
    (∀ (e : Embedding) (a : Ipv4Addr) (row : RefusedRange), e.Known nat64 a →
      InRow (.v4 a) row → row.isMetadata = false →
      ∃ r, policy.check (.v6 (e.embed a)) nat64 = .error r) ∧
    (∀ (parse : Text → Option Ipv6Addr) (s : Text) (p : BitVec 96),
      parseEntry parse s = some p →
      ∃ front, s = front ++ "/96".toList ∧ parse front = some (p ++ 0#32)) ∧
    ∀ (up : Upstream) (cache : DnsCache) (world : World), up.address = policy →
      (∀ peer ∈ (dial up cache nat64 world).opened, policy.check peer.ip nat64 = .ok ()) ∧
      ∀ peer, (dial up cache nat64 world).outcome = .ok peer →
        peer ∈ (dial up cache nat64 world).opened := by
  refine ⟨?_, ?_, ?_, ?_, ?_⟩
  · intro e a known noLiteral
    exact ⟨fun r refused => check_embed_refuses known noLiteral refused,
      fun one noLiteralV4 => check_embed_single known one noLiteral noLiteralV4⟩
  · exact fun addr row inside => check_inRow inside policy nat64
  · exact fun e a row known inside always => check_embed_inRow known inside always
  · exact fun parse s p declared => parseEntry_length declared
  · intro up cache world same
    have checked := dial_checked up cache nat64 world
    rw [same] at checked
    exact checked

def publicOnly : AddressPolicy :=
  { classes := { public' := true, private' := false, loopback := false }
    allowMetadata := false
    literal := none }

def exampleUpstream : Upstream :=
  { name := "api".toList
    host := .name "api.example".toList
    port := 443
    address := publicOnly
    dnsTtlMs := 1000 }

/-- A rebinding answer: the metadata service, spelled as IPv6, before a public address. -/
def rebound : World :=
  { now := 0
    resolved := some [.v6 (Embedding.wellKnown.embed (v4From 169 254 169 254)),
      .v4 (v4From 1 1 1 1)]
    resolvedAt := 1
    attempt := fun _ => .connected }

theorem addresses_guarded_on_sample :
    publicOnly.check (.v4 (v4From 169 254 169 254)) [] = .error (.range .linkLocal) ∧
      (∃ r, publicOnly.check
        (.v6 ((Embedding.local48 0 0).embed (v4From 169 254 169 254))) [] = .error r) ∧
      publicOnly.check (.v6 (Embedding.mapped.embed (v4From 10 0 0 1))) [] =
        publicOnly.check (.v4 (v4From 10 0 0 1)) [] ∧
      publicOnly.check (.v4 (v4From 224 0 0 1)) [] = .error (.range .multicastReserved) ∧
      (∃ r, publicOnly.check (.v6 (Embedding.siit.embed (v4From 224 0 0 1))) [] = .error r) ∧
      (∃ front, "::/96".toList = front ++ "/96".toList ∧
        (fun _ => some 0 : Text → Option Ipv6Addr) front = some ((0 : BitVec 96) ++ 0#32)) ∧
      (dial exampleUpstream (fun _ => none) [] rebound).opened =
        [{ ip := .v4 (v4From 1 1 1 1), port := 443 }] ∧
      ∀ peer ∈ (dial exampleUpstream (fun _ => none) [] rebound).opened,
        publicOnly.check peer.ip [] = .ok () := by
  have metadata : publicOnly.check (.v4 (v4From 169 254 169 254)) [] =
      .error (.range .linkLocal) := by rfl
  have inside : v4In (v4From 224 0 0 1) (v4From 224 0 0 0) 4 = true := by decide
  have multicast : InRow (.v4 (v4From 224 0 0 1)) .multicastReserved :=
    .v4 (by decide) inside
  refine ⟨metadata, ?_, ?_, ?_, ?_, ?_, by rfl, ?_⟩
  · exact ((addresses_guarded publicOnly []).1 (.local48 0 0) _ (by simp [Embedding.Known])
      (by decide)).1 _ metadata
  · exact ((addresses_guarded publicOnly []).1 .mapped _ trivial (by decide)).2 rfl (by decide)
  · exact (addresses_guarded publicOnly []).2.1 _ _ multicast
  · exact (addresses_guarded publicOnly []).2.2.1 .siit _ _ trivial multicast rfl
  · exact (addresses_guarded publicOnly []).2.2.2.1 _ _ _ (by rfl)
  · exact ((addresses_guarded publicOnly []).2.2.2.2 exampleUpstream _ rebound rfl).1

/-- A prefix declared below `64:ff9b:1::/48` decides alone: the /64 reading of this address is in
`169.254.0.0/16`, and the declared one is public. -/
theorem declaredPrefix_overrides_layout :
    let nat64 : Nat64Prefixes := [localUse ++ (0x000000a9fea9 : BitVec 48)]
    let a := v4From 169 254 169 8
    publicOnly.check (.v4 a) nat64 = .error (.range .linkLocal) ∧
      publicOnly.check (.v6 ((Embedding.local64 0 0 0).embed a)) nat64 = .ok () := by
  exact ⟨by rfl, by rfl⟩

end FerroEngine.HttpDial
