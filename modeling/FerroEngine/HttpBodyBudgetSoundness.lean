import FerroEngine.HttpBodyBudget

set_option autoImplicit false

/-! # The accounts of the body budgets

In every interleaving an account holds what its unreleased charges and the calls in progress have
taken from it, and each charge is released once, by the first drop of a holder.
-/

namespace FerroEngine.HttpBodyBudgetSoundness

open LabelledRuns TableWeights HttpBodyBudget

/-! ## What is held -/

def holds : Phase → Bool
  | .tookUpstream | .undoing => true
  | _ => false

def beforeUpstream : Release → Bool
  | .no | .upstream => true
  | _ => false

def beforeDaemon : Release → Bool
  | .done => false
  | _ => true

def callHeld (upstream : String) (k : Call) : Nat :=
  if k.upstream = upstream ∧ holds k.phase = true then k.n else 0

def chargeHeld (upstream : String) (c : ChargeInner) : Nat :=
  if c.upstream = upstream ∧ beforeUpstream c.release = true then c.n else 0

def chargeHeldDaemon (c : ChargeInner) : Nat :=
  if beforeDaemon c.release then c.n else 0

/-- The calls in progress and the unreleased charges of an upstream. -/
def held (s : Budgets) (upstream : String) : Nat :=
  weigh (callHeld upstream) s.calls + weigh (chargeHeld upstream) s.charges

def heldDaemon (s : Budgets) : Nat :=
  weigh chargeHeldDaemon s.charges

structure Accounted (s : Budgets) : Prop where
  upstream : ∀ upstream, s.inUse upstream = held s upstream
  daemon : s.daemonInUse = heldDaemon s

/-! ## The accounts -/

theorem tryTake_some {a b : Account} {n : Nat} (taken : a.tryTake n = some b) :
    b.limit = a.limit ∧ b.used = a.used + n ∧ b.used ≤ a.limit ∧ b.used < u64 := by
  rw [Account.tryTake] at taken
  split at taken
  · rename_i fits
    cases taken
    exact ⟨rfl, rfl, fits.2, fits.1⟩
  · cases taken

theorem give_used {a : Account} {n : Nat} (covered : n ≤ a.used) (small : a.used < u64) :
    (a.give n).used = a.used - n := by
  have moved : a.used + u64 - n = a.used - n + u64 := by omega
  have less : a.used - n < u64 := by omega
  rw [Account.give, moved, Nat.add_mod_right, Nat.mod_eq_of_lt less]

theorem give_limit (a : Account) (n : Nat) : (a.give n).limit = a.limit := by
  rw [Account.give]

@[simp] theorem moves_inUse (s : Budgets) (i : Nat) (k : Call) (phase : Phase)
    (upstream : String) : (s.moves i k phase).inUse upstream = s.inUse upstream := rfl

@[simp] theorem keeps_inUse (s : Budgets) (i : Nat) (c : ChargeInner) (upstream : String) :
    (s.keeps i c).inUse upstream = s.inUse upstream := rfl

@[simp] theorem logs_inUse (s : Budgets) (e : Event) (upstream : String) :
    (s.logs e).inUse upstream = s.inUse upstream := rfl

theorem account_inUse (s : Budgets) (upstream other : String) (a : Account) :
    (s.account upstream a).inUse other = if other = upstream then a.used else s.inUse other := by
  rw [Budgets.inUse, Budgets.account]
  dsimp only
  split
  · rfl
  · rfl

theorem inUse_of_some {s : Budgets} {upstream : String} {a : Account}
    (found : s.upstreams upstream = some a) : s.inUse upstream = a.used := by
  rw [Budgets.inUse, found]
  rfl

theorem gives_inUse {s : Budgets} {upstream : String} {n : Nat}
    (covered : n ≤ s.inUse upstream) (small : s.inUse upstream < u64) (other : String) :
    (s.gives upstream n).inUse other =
      if other = upstream then s.inUse upstream - n else s.inUse other := by
  rw [Budgets.gives]
  split
  · rename_i a found
    have used := inUse_of_some found
    rw [used] at covered small ⊢
    rw [account_inUse, give_used covered small]
  · rename_i missing
    split
    · rename_i same
      have empty : s.inUse upstream = 0 := by
        rw [Budgets.inUse, missing]
        rfl
      rw [same]
      omega
    · rfl

theorem account_limits {s : Budgets} {upstream : String} {a b : Account}
    (found : s.upstreams upstream = some a) (same : b.limit = a.limit) (other : String) :
    ((s.account upstream b).upstreams other).map Account.limit =
      (s.upstreams other).map Account.limit := by
  rw [Budgets.account]
  dsimp only
  split
  · rename_i this
    rw [this, found, Option.map_some, Option.map_some, same]
  · rfl

theorem gives_limits (s : Budgets) (upstream : String) (n : Nat) (other : String) :
    ((s.gives upstream n).upstreams other).map Account.limit =
      (s.upstreams other).map Account.limit := by
  rw [Budgets.gives]
  split
  · rename_i a found
    exact account_limits found (give_limit a n) other
  · rfl

theorem gives_calls (s : Budgets) (upstream : String) (n : Nat) :
    (s.gives upstream n).calls = s.calls := by
  rw [Budgets.gives]
  split <;> rfl

theorem gives_charges (s : Budgets) (upstream : String) (n : Nat) :
    (s.gives upstream n).charges = s.charges := by
  rw [Budgets.gives]
  split <;> rfl

theorem gives_log (s : Budgets) (upstream : String) (n : Nat) :
    (s.gives upstream n).log = s.log := by
  rw [Budgets.gives]
  split <;> rfl

theorem gives_daemon (s : Budgets) (upstream : String) (n : Nat) :
    (s.gives upstream n).daemon = s.daemon := by
  rw [Budgets.gives]
  split <;> rfl

theorem daemonGives_inUse (s : Budgets) (n : Nat) (upstream : String) :
    (s.daemonGives n).inUse upstream = s.inUse upstream := by
  rw [Budgets.inUse, Budgets.daemonGives, Budgets.inUse]

theorem daemonGives_daemonInUse (s : Budgets) (n : Nat) :
    (s.daemonGives n).daemonInUse = (s.daemon.give n).used := by
  rw [Budgets.daemonInUse, Budgets.daemonGives]

theorem daemonGives_charges (s : Budgets) (n : Nat) :
    (s.daemonGives n).charges = s.charges := by
  rw [Budgets.daemonGives]

theorem daemonGives_log (s : Budgets) (n : Nat) : (s.daemonGives n).log = s.log := by
  rw [Budgets.daemonGives]

/-! ## What a step moves -/

theorem held_moves {s : Budgets} {i : Nat} {k : Call} (found : s.calls[i]? = some k)
    (phase : Phase) (upstream : String) :
    held (s.moves i k phase) upstream + callHeld upstream k =
      held s upstream + callHeld upstream { k with phase := phase } := by
  have moved := weigh_set (callHeld upstream) { k with phase := phase } found
  rw [held, held, Budgets.moves]
  dsimp only
  omega

theorem held_keeps {s : Budgets} {i : Nat} {c : ChargeInner} (found : s.charges[i]? = some c)
    (next : ChargeInner) (upstream : String) :
    held (s.keeps i next) upstream + chargeHeld upstream c =
      held s upstream + chargeHeld upstream next := by
  have moved := weigh_set (chargeHeld upstream) next found
  rw [held, held, Budgets.keeps]
  dsimp only
  omega

theorem heldDaemon_keeps {s : Budgets} {i : Nat} {c : ChargeInner}
    (found : s.charges[i]? = some c) (next : ChargeInner) :
    heldDaemon (s.keeps i next) + chargeHeldDaemon c =
      heldDaemon s + chargeHeldDaemon next :=
  weigh_set chargeHeldDaemon next found

theorem held_gives (s : Budgets) (upstream other : String) (n : Nat) :
    held (s.gives upstream n) other = held s other := by
  rw [held, gives_calls, gives_charges, held]

theorem held_daemonGives (s : Budgets) (upstream : String) (n : Nat) :
    held (s.daemonGives n) upstream = held s upstream := by
  rw [held, Budgets.daemonGives, held]

theorem heldDaemon_daemonGives (s : Budgets) (n : Nat) :
    heldDaemon (s.daemonGives n) = heldDaemon s := by
  rw [heldDaemon, Budgets.daemonGives, heldDaemon]

theorem callHeld_eq {k : Call} (busy : holds k.phase = true) (upstream : String) :
    callHeld upstream k = if k.upstream = upstream then k.n else 0 := by
  rw [callHeld, busy]
  simp only [and_true]

theorem callHeld_idle {k : Call} (idle : holds k.phase = false) (upstream : String) :
    callHeld upstream k = 0 := by
  rw [callHeld, idle]
  simp only [Bool.false_eq_true, and_false, if_false]

/-! ## The limits -/

/-- An account within its limit and its counter, whose bytes are the ones held. -/
structure Fits (limit used held : Nat) : Prop where
  within : used ≤ limit
  small : used < u64
  accounted : used = held

structure Balanced (limit : Nat) (limits : String → Option Nat) (s : Budgets) : Prop where
  daemonLimit : s.daemon.limit = limit
  upstreamLimits : ∀ upstream, (s.upstreams upstream).map Account.limit = limits upstream
  daemon : Fits limit s.daemonInUse (heldDaemon s)
  upstream : ∀ upstream, Fits ((limits upstream).getD 0) (s.inUse upstream) (held s upstream)

variable {limit : Nat} {limits : String → Option Nat}

theorem fits_of_eq {limit used used' held held' : Nat} (fits : Fits limit used held)
    (same : used' = used) (sameHeld : held' = held) : Fits limit used' held' := by
  rw [same, sameHeld]
  exact fits

theorem balanced_start : Balanced limit limits (Budgets.new limit limits) := by
  have positive : 0 < u64 := by decide
  refine ⟨rfl, ?_, ⟨Nat.zero_le _, positive, rfl⟩, ?_⟩
  · intro upstream
    rw [Budgets.new, Option.map_map]
    exact congrFun Option.map_id _
  · intro upstream
    have empty : (Budgets.new limit limits).inUse upstream = 0 := by
      rw [Budgets.inUse, Budgets.new, Option.map_map]
      cases limits upstream with
      | none => rfl
      | some limit => rfl
    rw [empty]
    exact ⟨Nat.zero_le _, positive, rfl⟩

/-- A step that leaves the accounts alone has to leave what is held alone. -/
theorem balanced_still {s t : Budgets} (balanced : Balanced limit limits s)
    (daemon : t.daemon = s.daemon) (upstreams : t.upstreams = s.upstreams)
    (same : ∀ upstream, held t upstream = held s upstream)
    (sameDaemon : heldDaemon t = heldDaemon s) : Balanced limit limits t := by
  refine ⟨daemon ▸ balanced.daemonLimit, upstreams ▸ balanced.upstreamLimits, ?_, ?_⟩
  · exact fits_of_eq balanced.daemon (congrArg Account.used daemon) sameDaemon
  · intro upstream
    have inUse : t.inUse upstream = s.inUse upstream := by
      rw [Budgets.inUse, upstreams, Budgets.inUse]
    exact fits_of_eq (balanced.upstream upstream) inUse (same upstream)

/-- A call that holds nothing before or after moves no account. -/
theorem balanced_idle {s : Budgets} {i : Nat} {k : Call} {phase : Phase}
    (balanced : Balanced limit limits s) (found : s.calls[i]? = some k)
    (same : holds phase = holds k.phase) : Balanced limit limits (s.moves i k phase) := by
  apply balanced_still balanced
  · rfl
  · rfl
  · intro upstream
    have moved := held_moves found phase upstream
    have equal : callHeld upstream { k with phase := phase } = callHeld upstream k := by
      rw [callHeld, callHeld, same]
    omega
  · rfl

theorem balanced_takeUpstream {s : Budgets} {i : Nat} {k : Call}
    (balanced : Balanced limit limits s) (found : s.calls[i]? = some k)
    (entered : k.phase = .entered) : Balanced limit limits (takeUpstream s i k) := by
  have idle : holds k.phase = false := by
    rw [entered]
    rfl
  rw [takeUpstream]
  split
  · exact balanced_idle balanced found idle.symm
  · rename_i a known
    split
    · exact balanced_idle balanced found idle.symm
    · rename_i b taken
      obtain ⟨sameLimit, used, within, small⟩ := tryTake_some taken
      refine ⟨balanced.daemonLimit, ?_, balanced.daemon, ?_⟩
      · intro upstream
        rw [account_limits (s := s.moves i k .tookUpstream) known sameLimit]
        exact balanced.upstreamLimits upstream
      · intro upstream
        have before := balanced.upstream upstream
        have moved := held_moves found .tookUpstream upstream
        rw [callHeld_idle idle, callHeld_eq (k := { k with phase := .tookUpstream }) rfl] at moved
        have next : held ((s.moves i k .tookUpstream).account k.upstream b) upstream =
            held (s.moves i k .tookUpstream) upstream := rfl
        rw [account_inUse, next]
        by_cases this : upstream = k.upstream
        · subst this
          rw [if_pos rfl] at moved ⊢
          dsimp only at moved
          have sum := before.accounted
          rw [inUse_of_some known] at sum
          have limited : (limits k.upstream).getD 0 = a.limit := by
            rw [← balanced.upstreamLimits, known]
            rfl
          exact ⟨by omega, small, by omega⟩
        · rw [if_neg (Ne.symm this)] at moved
          rw [if_neg this]
          exact fits_of_eq before rfl (by omega)

theorem balanced_takeDaemon {s : Budgets} {i : Nat} {k : Call}
    (balanced : Balanced limit limits s) (found : s.calls[i]? = some k)
    (took : k.phase = .tookUpstream) : Balanced limit limits (takeDaemon s i k) := by
  have busy : holds k.phase = true := by
    rw [took]
    rfl
  rw [takeDaemon]
  split
  · exact balanced_idle balanced found busy.symm
  · rename_i daemon taken
    obtain ⟨sameLimit, used, within, small⟩ := tryTake_some taken
    refine ⟨sameLimit.trans balanced.daemonLimit, balanced.upstreamLimits, ?_, ?_⟩
    · have sum := balanced.daemon.accounted
      rw [Budgets.daemonInUse, heldDaemon] at sum
      have limited := balanced.daemonLimit
      refine ⟨?_, small, ?_⟩
      · rw [Budgets.daemonInUse]
        dsimp only
        omega
      · rw [Budgets.daemonInUse, heldDaemon]
        dsimp only
        rw [weigh_push, used, sum]
        rfl
    · intro upstream
      apply fits_of_eq (balanced.upstream upstream) rfl
      have moved := held_moves found .charged upstream
      rw [callHeld_eq busy, callHeld_idle (k := { k with phase := .charged }) rfl] at moved
      have charged : chargeHeld upstream ⟨k.n, false, k.upstream, 1, .no⟩ =
          if k.upstream = upstream then k.n else 0 := by
        rw [chargeHeld]
        simp only [beforeUpstream, and_true]
      rw [held, Budgets.moves] at moved
      rw [held, Budgets.moves]
      dsimp only at moved ⊢
      rw [weigh_push, charged]
      omega

/-- What a holder has taken from the account of its upstream is there to be given back. -/
theorem balanced_gives {s t : Budgets} (balanced : Balanced limit limits s) {upstream : String}
    {n : Nat} (daemon : t.daemon = s.daemon) (upstreams : t.upstreams = s.upstreams)
    (gone : ∀ other, held t other + (if upstream = other then n else 0) = held s other)
    (sameDaemon : heldDaemon t = heldDaemon s) :
    Balanced limit limits (t.gives upstream n) := by
  have inUse : ∀ other, t.inUse other = s.inUse other := by
    intro other
    rw [Budgets.inUse, upstreams, Budgets.inUse]
  have there := gone upstream
  have before := balanced.upstream upstream
  rw [if_pos rfl, ← before.accounted, ← inUse] at there
  have covered : n ≤ t.inUse upstream := by omega
  have small : t.inUse upstream < u64 := by
    rw [inUse]
    exact before.small
  refine ⟨?_, ?_, ?_, ?_⟩
  · rw [gives_daemon, daemon]
    exact balanced.daemonLimit
  · intro other
    rw [gives_limits, upstreams]
    exact balanced.upstreamLimits other
  · apply fits_of_eq balanced.daemon
    · rw [Budgets.daemonInUse, gives_daemon, daemon, Budgets.daemonInUse]
    · rw [heldDaemon, gives_charges]
      exact sameDaemon
  · intro other
    have left := gone other
    have fits := balanced.upstream other
    rw [gives_inUse covered small, held_gives]
    by_cases this : other = upstream
    · subst this
      rw [if_pos rfl] at left ⊢
      have within := fits.within
      have accounted := fits.accounted
      rw [inUse] at small ⊢
      exact ⟨by omega, by omega, by omega⟩
    · rw [if_neg (Ne.symm this)] at left
      rw [if_neg this]
      exact fits_of_eq fits (inUse other) (by omega)

theorem balanced_undoes {s : Budgets} {i : Nat} {k : Call} (balanced : Balanced limit limits s)
    (found : s.calls[i]? = some k) (undoing : k.phase = .undoing) :
    Balanced limit limits ((s.moves i k .refused).gives k.upstream k.n) := by
  have busy : holds k.phase = true := by
    rw [undoing]
    rfl
  apply balanced_gives balanced
  · rfl
  · rfl
  · intro other
    have moved := held_moves found .refused other
    rw [callHeld_eq busy, callHeld_idle (k := { k with phase := .refused }) rfl] at moved
    exact moved
  · rfl

/-! ## The charges -/

/-- The record of a charge: its holders' drops and what its release has given back. -/
structure Once (log : List Event) (i : Nat) (c : ChargeInner) : Prop where
  first : c.released = true ↔ 0 < log.count (.dropped i)
  begun : c.released = true ↔ c.release ≠ .no
  upstream : log.count (.gaveUpstream i) = if beforeUpstream c.release then 0 else 1
  daemon : log.count (.gaveDaemon i) = if beforeDaemon c.release then 0 else 1

def charge : Event → Nat
  | .dropped i | .gaveUpstream i | .gaveDaemon i => i

structure Recorded (s : Budgets) : Prop where
  once : ∀ i c, s.charges[i]? = some c → Once s.log i c
  known : ∀ e ∈ s.log, charge e < s.charges.length

theorem once_other {log : List Event} {e : Event} {i : Nat} {c : ChargeInner}
    (once : Once log i c) (other : charge e ≠ i) : Once (e :: log) i c := by
  have dropped : e ≠ .dropped i := by
    rintro rfl
    exact other rfl
  have gaveUpstream : e ≠ .gaveUpstream i := by
    rintro rfl
    exact other rfl
  have gaveDaemon : e ≠ .gaveDaemon i := by
    rintro rfl
    exact other rfl
  refine ⟨?_, once.begun, ?_, ?_⟩
  · rw [List.count_cons_of_ne dropped]
    exact once.first
  · rw [List.count_cons_of_ne gaveUpstream]
    exact once.upstream
  · rw [List.count_cons_of_ne gaveDaemon]
    exact once.daemon

/-- A step of one charge that is recorded. -/
theorem recorded_logs {s t : Budgets} {i : Nat} {c next : ChargeInner} {e : Event}
    (recorded : Recorded s) (found : s.charges[i]? = some c)
    (charges : t.charges = s.charges.set i next) (log : t.log = e :: s.log) (about : charge e = i)
    (once : Once (e :: s.log) i next) : Recorded t := by
  obtain ⟨inside, -⟩ := List.getElem?_eq_some_iff.mp found
  constructor
  · intro j c' found'
    rw [charges, List.getElem?_set] at found'
    rw [log]
    split at found'
    · rename_i same
      subst same
      cases found'
      exact once
    · rename_i other
      exact once_other (recorded.once j c' found') (about ▸ other)
  · intro e' member
    rw [charges, List.length_set]
    rw [log] at member
    rcases List.mem_cons.mp member with rfl | member
    · rw [about]
      exact inside
    · exact recorded.known e' member

theorem recorded_same {s t : Budgets} (recorded : Recorded s) (charges : t.charges = s.charges)
    (log : t.log = s.log) : Recorded t := by
  constructor
  · rw [charges, log]
    exact recorded.once
  · rw [charges, log]
    exact recorded.known

theorem recorded_takeUpstream {s : Budgets} {i : Nat} {k : Call} (recorded : Recorded s) :
    Recorded (takeUpstream s i k) := by
  rw [takeUpstream]
  split
  · exact recorded_same recorded rfl rfl
  · split
    · exact recorded_same recorded rfl rfl
    · exact recorded_same recorded rfl rfl

theorem once_new {s : Budgets} (recorded : Recorded s) (upstream : String) (n : Nat) :
    Once s.log s.charges.length ⟨n, false, upstream, 1, .no⟩ := by
  have unheard : ∀ e, charge e = s.charges.length → s.log.count e = 0 := by
    intro e about
    rw [List.count_eq_zero]
    intro member
    have less := recorded.known e member
    omega
  refine ⟨?_, ?_, ?_, ?_⟩
  · rw [unheard (.dropped s.charges.length) rfl]
    exact ⟨nofun, fun dropped => absurd dropped (Nat.lt_irrefl 0)⟩
  · exact ⟨nofun, fun begun => absurd rfl begun⟩
  · exact unheard (.gaveUpstream s.charges.length) rfl
  · exact unheard (.gaveDaemon s.charges.length) rfl

theorem recorded_takeDaemon {s : Budgets} {i : Nat} {k : Call} (recorded : Recorded s) :
    Recorded (takeDaemon s i k) := by
  rw [takeDaemon]
  split
  · exact recorded_same recorded rfl rfl
  · constructor
    · intro j c found
      dsimp only at found ⊢
      by_cases old : j < s.charges.length
      · rw [List.getElem?_append_left old] at found
        exact recorded.once j c found
      · rw [List.getElem?_append_right (Nat.le_of_not_lt old)] at found
        obtain ⟨last, same⟩ := List.getElem?_eq_some_iff.mp found
        rw [List.length_singleton] at last
        have here : j = s.charges.length := by omega
        subst here
        rw [List.getElem_singleton] at same
        subst same
        exact once_new recorded k.upstream k.n
    · intro e member
      have less := recorded.known e member
      dsimp only
      rw [List.length_append]
      omega

theorem recorded_wraps {s : Budgets} {i : Nat} {c : ChargeInner} (recorded : Recorded s)
    (found : s.charges[i]? = some c) :
    Recorded (s.keeps i { c with holders := c.holders + 1 }) := by
  obtain ⟨inside, -⟩ := List.getElem?_eq_some_iff.mp found
  constructor
  · intro j c' found'
    rw [Budgets.keeps] at found' ⊢
    dsimp only at found' ⊢
    rw [List.getElem?_set] at found'
    split at found'
    · rename_i same
      subst same
      cases found'
      have once := recorded.once i c found
      exact ⟨once.first, once.begun, once.upstream, once.daemon⟩
    · exact recorded.once j c' found'
  · intro e member
    rw [Budgets.keeps]
    dsimp only
    rw [List.length_set]
    exact recorded.known e member

/-- The first drop only begins the release. -/
theorem before_dropped {log : List Event} {i : Nat} {c : ChargeInner} (once : Once log i c) :
    beforeUpstream (dropHolder c).release = beforeUpstream c.release ∧
      beforeDaemon (dropHolder c).release = beforeDaemon c.release := by
  rw [dropHolder]
  dsimp only
  split
  · exact ⟨rfl, rfl⟩
  · rename_i unreleased
    have no : c.release = .no := by
      by_contra begun
      exact unreleased (once.begun.mpr begun)
    rw [no]
    exact ⟨rfl, rfl⟩

theorem once_dropped {log : List Event} {i : Nat} {c : ChargeInner} (once : Once log i c) :
    Once (.dropped i :: log) i (dropHolder c) := by
  obtain ⟨upstream, daemon⟩ := before_dropped once
  refine ⟨?_, ?_, ?_, ?_⟩
  · rw [List.count_cons_self]
    exact ⟨fun _ => Nat.succ_pos _, fun _ => rfl⟩
  · refine ⟨fun _ => ?_, fun _ => rfl⟩
    rw [dropHolder]
    dsimp only
    split
    · rename_i released
      exact once.begun.mp released
    · nofun
  · rw [List.count_cons_of_ne (a := Event.gaveUpstream i) (b := Event.dropped i) nofun, upstream]
    exact once.upstream
  · rw [List.count_cons_of_ne (a := Event.gaveDaemon i) (b := Event.dropped i) nofun, daemon]
    exact once.daemon

theorem once_gaveUpstream {log : List Event} {i : Nat} {c : ChargeInner} (once : Once log i c)
    (next : c.release = .upstream) :
    Once (.gaveUpstream i :: log) i { c with release := .daemon } := by
  have released : c.released = true := once.begun.mpr (by rw [next]; nofun)
  have upstream := once.upstream
  have daemon := once.daemon
  rw [next] at upstream daemon
  refine ⟨?_, ⟨fun _ => nofun, fun _ => released⟩, ?_, ?_⟩
  · rw [List.count_cons_of_ne (a := Event.dropped i) (b := Event.gaveUpstream i) nofun]
    exact once.first
  · rw [List.count_cons_self, upstream]
    rfl
  · rw [List.count_cons_of_ne (a := Event.gaveDaemon i) (b := Event.gaveUpstream i) nofun, daemon]
    rfl

theorem once_gaveDaemon {log : List Event} {i : Nat} {c : ChargeInner} (once : Once log i c)
    (next : c.release = .daemon) :
    Once (.gaveDaemon i :: log) i { c with release := .done } := by
  have released : c.released = true := once.begun.mpr (by rw [next]; nofun)
  have upstream := once.upstream
  have daemon := once.daemon
  rw [next] at upstream daemon
  refine ⟨?_, ⟨fun _ => nofun, fun _ => released⟩, ?_, ?_⟩
  · rw [List.count_cons_of_ne (a := Event.dropped i) (b := Event.gaveDaemon i) nofun]
    exact once.first
  · rw [List.count_cons_of_ne (a := Event.gaveUpstream i) (b := Event.gaveDaemon i) nofun, upstream]
    rfl
  · rw [List.count_cons_self, daemon]
    rfl

/-! ## The steps -/

/-- A charge that is only looked at, or whose release only begins, moves no account. -/
theorem balanced_keeps {s : Budgets} {i : Nat} {c next : ChargeInner}
    (balanced : Balanced limit limits s) (found : s.charges[i]? = some c)
    (n : next.n = c.n) (upstream : next.upstream = c.upstream)
    (before : beforeUpstream next.release = beforeUpstream c.release ∧
      beforeDaemon next.release = beforeDaemon c.release) :
    Balanced limit limits (s.keeps i next) := by
  apply balanced_still balanced
  · rfl
  · rfl
  · intro other
    have moved := held_keeps found next other
    have same : chargeHeld other next = chargeHeld other c := by
      rw [chargeHeld, chargeHeld, upstream, n, before.1]
    omega
  · have moved := heldDaemon_keeps found next
    have same : chargeHeldDaemon next = chargeHeldDaemon c := by
      rw [chargeHeldDaemon, chargeHeldDaemon, n, before.2]
    omega

theorem balanced_logs {s : Budgets} (balanced : Balanced limit limits s) (e : Event) :
    Balanced limit limits (s.logs e) :=
  balanced_still balanced rfl rfl (fun _ => rfl) rfl

theorem balanced_givesUpstream {s : Budgets} {i : Nat} {c : ChargeInner}
    (balanced : Balanced limit limits s) (found : s.charges[i]? = some c)
    (next : c.release = .upstream) :
    Balanced limit limits ((s.keeps i { c with release := .daemon }).gives c.upstream c.n) := by
  apply balanced_gives balanced
  · rfl
  · rfl
  · intro other
    have moved := held_keeps found { c with release := .daemon } other
    rw [chargeHeld, chargeHeld, next] at moved
    simp only [beforeUpstream, Bool.false_eq_true, and_false, if_false, and_true] at moved
    exact moved
  · have moved := heldDaemon_keeps found { c with release := .daemon }
    rw [chargeHeldDaemon, chargeHeldDaemon, next] at moved
    exact Nat.add_right_cancel moved

theorem balanced_givesDaemon {s : Budgets} {i : Nat} {c : ChargeInner}
    (balanced : Balanced limit limits s) (found : s.charges[i]? = some c)
    (next : c.release = .daemon) :
    Balanced limit limits ((s.keeps i { c with release := .done }).daemonGives c.n) := by
  have fits := balanced.daemon
  have moved := heldDaemon_keeps found { c with release := .done }
  rw [chargeHeldDaemon, chargeHeldDaemon, next, ← fits.accounted] at moved
  simp only [beforeDaemon, Bool.false_eq_true, if_true, if_false] at moved
  have within := fits.within
  have small := fits.small
  rw [Budgets.daemonInUse] at moved within small
  have given := give_used (a := s.daemon) (n := c.n) (by omega) small
  refine ⟨?_, balanced.upstreamLimits, ?_, ?_⟩
  · rw [Budgets.daemonGives]
    dsimp only
    rw [give_limit]
    exact balanced.daemonLimit
  · rw [daemonGives_daemonInUse, heldDaemon_daemonGives, Budgets.keeps]
    dsimp only
    rw [given]
    rw [Budgets.keeps] at moved
    exact ⟨by omega, by omega, by omega⟩
  · intro other
    rw [daemonGives_inUse, held_daemonGives]
    apply fits_of_eq (balanced.upstream other) rfl
    have moved := held_keeps found { c with release := .done } other
    rw [chargeHeld, chargeHeld, next] at moved
    simp only [beforeUpstream, Bool.false_eq_true, and_false, if_false] at moved
    exact moved

structure Kept (limit : Nat) (limits : String → Option Nat) (s : Budgets) : Prop where
  balanced : Balanced limit limits s
  recorded : Recorded s

theorem kept_call {s t : Budgets} {i : Nat} {phase : Phase} {next : Call → Budgets}
    (taken : (s.calls[i]?.bind fun k => if k.phase = phase then some (next k) else none) = some t)
    (keeps : ∀ k, s.calls[i]? = some k → k.phase = phase → Kept limit limits (next k)) :
    Kept limit limits t := by
  obtain ⟨k, found, taken⟩ := Option.bind_eq_some_iff.mp taken
  split at taken
  · rename_i here
    cases taken
    exact keeps k found here
  · cases taken

theorem kept_charge {s t : Budgets} {i : Nat} {ready : ChargeInner → Prop} [DecidablePred ready]
    {next : ChargeInner → Budgets}
    (taken : (s.charges[i]?.bind fun c => if ready c then some (next c) else none) = some t)
    (keeps : ∀ c, s.charges[i]? = some c → ready c → Kept limit limits (next c)) :
    Kept limit limits t := by
  obtain ⟨c, found, taken⟩ := Option.bind_eq_some_iff.mp taken
  split at taken
  · rename_i here
    cases taken
    exact keeps c found here
  · cases taken

theorem step_kept {s t : Budgets} {a : Label} (kept : Kept limit limits s)
    (taken : step s a = some t) : Kept limit limits t := by
  obtain ⟨balanced, recorded⟩ := kept
  cases a with
  | calls upstream n =>
    cases taken
    refine ⟨balanced_still balanced rfl rfl ?_ rfl, recorded_same recorded rfl rfl⟩
    intro other
    have idle : callHeld other ⟨upstream, n, if n = 0 then .nothing else .entered⟩ = 0 := by
      apply callHeld_idle
      dsimp only
      split <;> rfl
    rw [held, held]
    dsimp only
    rw [weigh_push, idle, Nat.add_zero]
  | takesUpstream i =>
    refine kept_call taken ?_
    intro k found entered
    exact ⟨balanced_takeUpstream balanced found entered, recorded_takeUpstream recorded⟩
  | takesDaemon i =>
    refine kept_call taken ?_
    intro k found took
    exact ⟨balanced_takeDaemon balanced found took, recorded_takeDaemon recorded⟩
  | undoes i =>
    refine kept_call taken ?_
    intro k found undoing
    exact ⟨balanced_undoes balanced found undoing,
      recorded_same recorded (gives_charges _ _ _) (gives_log _ _ _)⟩
  | wraps i =>
    refine kept_charge taken ?_
    intro c found _
    exact ⟨balanced_keeps balanced found rfl rfl ⟨rfl, rfl⟩, recorded_wraps recorded found⟩
  | drops i =>
    refine kept_charge taken ?_
    intro c found _
    have once := recorded.once i c found
    have same : (dropHolder c).n = c.n ∧ (dropHolder c).upstream = c.upstream := ⟨rfl, rfl⟩
    have dropped := balanced_keeps balanced found same.1 same.2 (before_dropped once)
    refine ⟨balanced_logs dropped _, ?_⟩
    exact recorded_logs recorded found rfl rfl rfl (once_dropped once)
  | givesUpstream i =>
    refine kept_charge taken ?_
    intro c found next
    have once := recorded.once i c found
    refine ⟨balanced_logs (balanced_givesUpstream balanced found next) _, ?_⟩
    exact recorded_logs recorded found (gives_charges _ _ _)
      (congrArg (Event.gaveUpstream i :: ·) (gives_log _ _ _)) rfl (once_gaveUpstream once next)
  | givesDaemon i =>
    refine kept_charge taken ?_
    intro c found next
    have once := recorded.once i c found
    refine ⟨balanced_logs (balanced_givesDaemon balanced found next) _, ?_⟩
    have charges := daemonGives_charges (s.keeps i { c with release := .done }) c.n
    have log := daemonGives_log (s.keeps i { c with release := .done }) c.n
    exact recorded_logs recorded found charges (congrArg (Event.gaveDaemon i :: ·) log) rfl
      (once_gaveDaemon once next)

/-! ## Every run -/

theorem accounted_of_balanced {s : Budgets} (balanced : Balanced limit limits s) :
    Accounted s :=
  ⟨fun upstream => (balanced.upstream upstream).accounted, balanced.daemon.accounted⟩

/-- A refused call weighs nothing in the accounts. -/
theorem accounted_without {s : Budgets} {i : Nat} {k : Call} (accounted : Accounted s)
    (found : s.calls[i]? = some k) (refused : k.phase = .refused) :
    Accounted { s with calls := s.calls.eraseIdx i } := by
  refine ⟨?_, accounted.daemon⟩
  intro upstream
  have idle : callHeld upstream k = 0 := by
    apply callHeld_idle
    rw [refused]
    rfl
  have erased := weigh_eraseIdx (callHeld upstream) found
  rw [idle, Nat.add_zero] at erased
  rw [held]
  dsimp only
  rw [erased]
  exact accounted.upstream upstream

theorem call_covered {s : Budgets} {k : Call} (accounted : Accounted s) (member : k ∈ s.calls)
    (busy : holds k.phase = true) : k.n ≤ s.inUse k.upstream := by
  have part := weight_le (callHeld k.upstream) member
  rw [callHeld_eq busy, if_pos rfl] at part
  rw [accounted.upstream, held]
  omega

theorem charge_covered {s : Budgets} {c : ChargeInner} (accounted : Accounted s)
    (member : c ∈ s.charges) (unreleased : beforeUpstream c.release = true) :
    c.n ≤ s.inUse c.upstream := by
  have part := weight_le (chargeHeld c.upstream) member
  rw [chargeHeld, if_pos ⟨rfl, unreleased⟩] at part
  rw [accounted.upstream, held]
  omega

theorem daemon_covered {s : Budgets} {c : ChargeInner} (accounted : Accounted s)
    (member : c ∈ s.charges) (unreleased : beforeDaemon c.release = true) :
    c.n ≤ s.daemonInUse := by
  have part := weight_le chargeHeldDaemon member
  rw [chargeHeldDaemon, if_pos unreleased] at part
  rw [accounted.daemon]
  exact part

/-- Both accounts have their bytes back. -/
def GivenBack (i : Nat) (s : Budgets) : Prop :=
  s.log.count (.gaveUpstream i) = 1 ∧ s.log.count (.gaveDaemon i) = 1

theorem finishes_done {s : Budgets} {i : Nat} {c : ChargeInner} (kept : Kept limit limits s)
    (found : s.charges[i]? = some c) (done : c.release = .done) :
    CanReach step (GivenBack i) s := by
  have once := kept.recorded.once i c found
  have upstream := once.upstream
  have daemon := once.daemon
  rw [done] at upstream daemon
  exact .here ⟨upstream, daemon⟩

theorem finishes_daemon {s : Budgets} {i : Nat} {c : ChargeInner} (kept : Kept limit limits s)
    (found : s.charges[i]? = some c) (next : c.release = .daemon) :
    CanReach step (GivenBack i) s := by
  obtain ⟨inside, -⟩ := List.getElem?_eq_some_iff.mp found
  have taken : step s (.givesDaemon i) =
      some (((s.keeps i { c with release := .done }).daemonGives c.n).logs (.gaveDaemon i)) := by
    rw [step, found, Option.bind_some, if_pos next]
  refine .next taken (finishes_done (c := { c with release := .done }) (step_kept kept taken) ?_ rfl)
  rw [Budgets.logs]
  dsimp only
  rw [daemonGives_charges]
  exact List.getElem?_set_self inside

theorem finishes_upstream {s : Budgets} {i : Nat} {c : ChargeInner} (kept : Kept limit limits s)
    (found : s.charges[i]? = some c) (next : c.release = .upstream) :
    CanReach step (GivenBack i) s := by
  obtain ⟨inside, -⟩ := List.getElem?_eq_some_iff.mp found
  have taken : step s (.givesUpstream i) =
      some (((s.keeps i { c with release := .daemon }).gives c.upstream c.n).logs
        (.gaveUpstream i)) := by
    rw [step, found, Option.bind_some, if_pos next]
  refine .next taken (finishes_daemon (c := { c with release := .daemon }) (step_kept kept taken)
    ?_ rfl)
  rw [Budgets.logs]
  dsimp only
  rw [gives_charges]
  exact List.getElem?_set_self inside

theorem finishes {s : Budgets} {i : Nat} {c : ChargeInner} (kept : Kept limit limits s)
    (found : s.charges[i]? = some c) (released : c.released = true) :
    CanReach step (GivenBack i) s := by
  have begun := (kept.recorded.once i c found).begun.mp released
  cases stage : c.release with
  | no => exact absurd stage begun
  | upstream => exact finishes_upstream kept found stage
  | daemon => exact finishes_daemon kept found stage
  | done => exact finishes_done kept found stage

structure Sound (limit : Nat) (limits : String → Option Nat) (s : Budgets) : Prop where
  within : s.daemonInUse ≤ limit ∧ ∀ upstream, s.inUse upstream ≤ (limits upstream).getD 0
  /-- What is going to be subtracted is there. -/
  calls : ∀ k ∈ s.calls, holds k.phase = true → k.n ≤ s.inUse k.upstream
  charges : ∀ c ∈ s.charges, (beforeUpstream c.release = true → c.n ≤ s.inUse c.upstream) ∧
    (beforeDaemon c.release = true → c.n ≤ s.daemonInUse)
  accounted : Accounted s
  refused : ∀ i k, s.calls[i]? = some k → k.phase = .refused →
    Accounted { s with calls := s.calls.eraseIdx i }
  once : ∀ i c, s.charges[i]? = some c → Once s.log i c
  finishes : ∀ i c, s.charges[i]? = some c → c.released = true → CanReach step (GivenBack i) s

theorem run_kept {labels : List Label} {s : Budgets}
    (reached : run step (Budgets.new limit limits) labels = some s) : Kept limit limits s := by
  refine run_always step step_kept ⟨balanced_start, ?_, ?_⟩ reached
  · intro i c found
    cases found
  · intro e member
    cases member

theorem budgets_sound {labels : List Label} {s : Budgets}
    (reached : run step (Budgets.new limit limits) labels = some s) : Sound limit limits s := by
  have kept := run_kept reached
  have accounted := accounted_of_balanced kept.balanced
  constructor
  · exact ⟨kept.balanced.daemon.within, fun upstream => (kept.balanced.upstream upstream).within⟩
  · intro k member busy
    exact call_covered accounted member busy
  · intro c member
    exact ⟨charge_covered accounted member, daemon_covered accounted member⟩
  · exact accounted
  · intro i k found refused
    exact accounted_without accounted found refused
  · exact kept.recorded.once
  · intro i c found released
    exact finishes kept found released

/-- A charge whose two holders are dropped, and a call over the daemon's budget. -/
def contended : List Label :=
  [.calls "api" 4, .calls "api" 8, .takesUpstream 1, .takesUpstream 0, .takesDaemon 0, .wraps 0,
    .takesDaemon 1, .drops 0, .drops 0, .undoes 1, .givesUpstream 0]

theorem budgets_sound_contended :
    ∃ s, run step (Budgets.new 10 fun _ => some 16) contended = some s ∧
      Sound 10 (fun _ => some 16) s ∧ s.inUse "api" = 0 ∧ s.daemonInUse = 4 := by
  have ran : ((run step (Budgets.new 10 fun _ => some 16) contended).map fun s =>
      (s.inUse "api", s.daemonInUse)) = some (0, 4) := by decide +kernel
  obtain ⟨s, reached, used⟩ := Option.map_eq_some_iff.mp ran
  exact ⟨s, reached, budgets_sound reached, (Prod.mk.inj used).1, (Prod.mk.inj used).2⟩

end FerroEngine.HttpBodyBudgetSoundness
