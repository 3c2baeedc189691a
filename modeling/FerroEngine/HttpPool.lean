import Mathlib.Data.List.Perm.Basic
import FerroEngine.LabelledRuns

set_option autoImplicit false

/-! # The connection pool of an HTTP upstream

One sub-pool of `engine/pool.rs`: `Pools::take` with the steps of `decide` under the lock, the dials,
the returns, and the drops of `ConnSlot` and `Dialing`. The two counters are read and written outside
the lock too, so each access is a step of its own; a drop subtracts and wakes the waiters in two
steps. Instants are counted from the start of the engine.
-/

namespace FerroEngine.HttpPool

open LabelledRuns

structure Caps where
  maxConnections : Nat
  maxDials : Nat
  deriving DecidableEq, Repr

structure ReusePolicy where
  maxLifetime : Nat
  idempotent : Bool
  unsafeReuseMaxIdle : Nat
  deriving DecidableEq, Repr

structure HttpConn where
  /-- The `ConnSlot`. -/
  slot : Nat
  created : Nat
  idleSince : Nat
  idleLimit : Nat
  /-- The sender is closed or the connection task has finished. -/
  closed : Bool
  deriving DecidableEq, Repr

namespace HttpConn

def unusable (c : HttpConn) (policy : ReusePolicy) (now : Nat) : Bool :=
  c.closed || decide (policy.maxLifetime ≤ now - c.created) ||
    decide (c.idleLimit ≤ now - c.idleSince)

/-- Too idle for a request that is not idempotent. -/
def tooIdle (c : HttpConn) (policy : ReusePolicy) (now : Nat) : Bool :=
  !policy.idempotent && decide (policy.unsafeReuseMaxIdle < now - c.idleSince)

def usable (c : HttpConn) (policy : ReusePolicy) (now : Nat) : Bool :=
  !c.unusable policy now && !c.tooIdle policy now

end HttpConn

/-- What a drop gives back: a `ConnSlot` or a `Dialing`. -/
inductive Guard where
  | conn (slot : Nat)
  | dialing (slot : Nat)
  deriving DecidableEq, Repr

inductive Phase where
  /-- At the head of the loop. -/
  | arriving
  /-- `notified()` remembers how often `notify_waiters` had been called. -/
  | locking (seen : Nat)
  | deciding
  | waiting (seen : Nat)
  /-- The take has returned, or its future was dropped. -/
  | gone
  deriving DecidableEq, Repr

structure Taker where
  policy : ReusePolicy
  phase : Phase
  deriving DecidableEq, Repr

inductive Stage where
  | pops
  | readsLive
  | readsDialing
  | addsLive
  | addsDialing
  | rereadsLive
  deriving DecidableEq, Repr

/-- The local state of the `decide` that holds the lock. -/
structure Decision where
  taker : Nat
  policy : ReusePolicy
  seen : Nat
  now : Nat
  closed : List HttpConn
  stage : Stage
  deriving DecidableEq, Repr

structure State where
  caps : Caps
  live : Nat
  dialing : Nat
  /-- The calls of `notify_waiters`. -/
  generation : Nat
  /-- Guards that have subtracted and not yet woken the waiters. -/
  notifying : Nat
  lock : Option Decision
  /-- The idle stack, its top first. -/
  idle : List HttpConn
  takers : List Taker
  /-- The slots of the dials in progress. -/
  dials : List Nat
  /-- The connections that requests hold. -/
  used : List HttpConn
  /-- The connections on their way into `put_back`. -/
  returning : List HttpConn
  /-- Guards whose drop has begun. -/
  dropping : List Guard
  released : List Guard
  /-- The slots reserved so far. -/
  next : Nat
  now : Nat
  deriving DecidableEq, Repr

def State.start (caps : Caps) : State :=
  { caps := caps, live := 0, dialing := 0, generation := 0, notifying := 0, lock := none,
    idle := [], takers := [], dials := [], used := [], returning := [], dropping := [],
    released := [], next := 0, now := 0 }

inductive Label where
  /-- A request calls `take`. -/
  | calls (policy : ReusePolicy)
  | registers (i : Nat)
  | locks (i : Nat)
  /-- The next step of the decision under the lock. -/
  | decides
  | wakes (i : Nat)
  /-- The future of a waiting take is dropped. -/
  | cancels (i : Nat)
  | connects (k idleLimit : Nat)
  /-- A dial fails, or its future is dropped. -/
  | fails (k : Nat)
  /-- The response clamps the idle limit. -/
  | clamps (k idleLimit : Nat)
  | checkin (k : Nat)
  | returnUnused (k : Nat)
  | putBack (k maxIdle : Nat)
  /-- A connection in use is discarded, or dropped with its exchange. -/
  | discards (k : Nat)
  /-- A connection is closed by its peer or fails. -/
  | closes (slot : Nat)
  | ticks
  | subtracts (k : Nat)
  | notifies
  deriving DecidableEq, Repr

/-- The connection slots of a list of connections. -/
def guards (conns : List HttpConn) : List Guard :=
  conns.map fun c => .conn c.slot

/-- The two guards of a `DialSlot`. -/
def dialSlot (slot : Nat) : List Guard := [.conn slot, .dialing slot]

def closing (slot : Nat) (conns : List HttpConn) : List HttpConn :=
  conns.map fun c => if c.slot = slot then { c with closed := true } else c

namespace State

def put (s : State) (i : Nat) (policy : ReusePolicy) (phase : Phase) : State :=
  { s with takers := s.takers.set i ⟨policy, phase⟩ }

def drops (s : State) (gone : List Guard) : State :=
  { s with dropping := gone ++ s.dropping }

/-- The decision goes on under the lock. -/
def goes (s : State) (d : Decision) (stage : Stage) : State :=
  { s with lock := some { d with stage := stage } }

/-- The decision is made: the lock is free, and what it closed is dropped. -/
def leaves (s : State) (d : Decision) (phase : Phase) : State :=
  ({ s with lock := none }.put d.taker d.policy phase).drops (guards d.closed)

/-- The end of the loop of `pop`: what was closed has to be dropped first. -/
def looked (s : State) (d : Decision) : State :=
  if d.closed = [] then s.goes d .readsLive else s.leaves d .arriving

end State

def popStep (s : State) (d : Decision) : State :=
  match s.idle with
  | [] => s.looked d
  | c :: below =>
    if c.unusable d.policy d.now then
      { s with
        idle := below
        lock := some { d with closed := d.closed ++ [c] } }
    -- Pushed back: the code takes every connection below to be idler still.
    else if c.tooIdle d.policy d.now then s.looked d
    else
      { s.leaves d .gone with
        idle := below
        used := c :: s.used }

def decideStep (s : State) (d : Decision) : State :=
  match d.stage with
  | .pops => popStep s d
  | .readsLive =>
    s.goes d (if s.live < s.caps.maxConnections then .readsDialing else .rereadsLive)
  | .readsDialing => s.goes d (if s.dialing < s.caps.maxDials then .addsLive else .rereadsLive)
  | .addsLive => { s.goes d .addsDialing with live := s.live + 1 }
  | .addsDialing =>
    { s.leaves d .gone with
      dialing := s.dialing + 1
      dials := s.next :: s.dials
      next := s.next + 1 }
  | .rereadsLive =>
    match s.idle.getLast? with
    | some idlest =>
      if s.caps.maxConnections ≤ s.live then
        { s with idle := s.idle.dropLast }.leaves { d with closed := d.closed ++ [idlest] } .arriving
      else s.leaves d (.waiting d.seen)
    | none => s.leaves d (.waiting d.seen)

def step (s : State) : Label → Option State
  | .calls policy => some { s with takers := s.takers ++ [⟨policy, .arriving⟩] }
  | .registers i =>
    s.takers[i]?.bind fun t =>
      match t.phase with
      | .arriving => some (s.put i t.policy (.locking s.generation))
      | _ => none
  | .locks i =>
    s.takers[i]?.bind fun t =>
      match t.phase, s.lock with
      | .locking seen, none =>
        some { s.put i t.policy .deciding with lock := some ⟨i, t.policy, seen, s.now, [], .pops⟩ }
      | _, _ => none
  | .decides => s.lock.map (decideStep s)
  | .wakes i =>
    s.takers[i]?.bind fun t =>
      match t.phase with
      | .waiting seen => if seen < s.generation then some (s.put i t.policy .arriving) else none
      | _ => none
  | .cancels i =>
    s.takers[i]?.bind fun t =>
      match t.phase with
      | .waiting _ => some (s.put i t.policy .gone)
      | _ => none
  | .connects k idleLimit =>
    s.dials[k]?.map fun slot =>
      { s with
        dials := s.dials.eraseIdx k
        used := ⟨slot, s.now, s.now, idleLimit, false⟩ :: s.used }.drops [.dialing slot]
  | .fails k =>
    s.dials[k]?.map fun slot => { s with dials := s.dials.eraseIdx k }.drops (dialSlot slot)
  | .clamps k idleLimit =>
    s.used[k]?.map fun c => { s with used := s.used.set k { c with idleLimit := idleLimit } }
  | .checkin k =>
    s.used[k]?.map fun c =>
      { s with
        used := s.used.eraseIdx k
        returning := { c with idleSince := s.now } :: s.returning }
  | .returnUnused k =>
    s.used[k]?.map fun c =>
      { s with
        used := s.used.eraseIdx k
        returning := c :: s.returning }
  | .putBack k maxIdle =>
    match s.returning[k]?, s.lock with
    | some c, none =>
      let s := { s with returning := s.returning.eraseIdx k }
      if maxIdle ≤ s.idle.length then some (s.drops (guards [c]))
      else
        some { s with
          idle := c :: s.idle
          generation := s.generation + 1 }
    | _, _ => none
  | .discards k =>
    s.used[k]?.map fun c => { s with used := s.used.eraseIdx k }.drops (guards [c])
  | .closes slot =>
    some { s with
      idle := closing slot s.idle
      used := closing slot s.used
      returning := closing slot s.returning }
  | .ticks => some { s with now := s.now + 1 }
  | .subtracts k =>
    s.dropping[k]?.map fun g =>
      let s := { s with
        dropping := s.dropping.eraseIdx k
        released := g :: s.released
        notifying := s.notifying + 1 }
      match g with
      | .conn _ => { s with live := s.live - 1 }
      | .dialing _ => { s with dialing := s.dialing - 1 }
  | .notifies =>
    if 0 < s.notifying then
      some { s with notifying := s.notifying - 1, generation := s.generation + 1 }
    else none

end FerroEngine.HttpPool
