import FerroEngine.LabelledRuns
import FerroEngine.PoolStatements

set_option autoImplicit false

/-! # The pool

`Pool::checkout_declared`, the drop of a `Checkout` and the passes of the liveness reaper, as tasks
that share the semaphore and the idle stack. Every await is a phase of its own; the answers of the
backend and of the clock are in the labels.
-/

namespace FerroEngine.PoolCheckout

open LabelledRuns PoolStatements

structure IdleConn where
  conn : Conn
  txOpen : Bool
  tainted : Bool
  deriving DecidableEq, Repr

/-- A permit is the number under which the semaphore gave it out. -/
inductive Phase where
  /-- Waits for a permit. -/
  | waiting
  | popping (permit : Nat)
  | dialling (permit : Nat)
  | armingFresh (permit : Nat) (conn : Conn)
  | inspecting (permit : Nat) (popped : IdleConn)
  | rollingBack (permit : Nat) (popped : IdleConn) (profile : Option ResetProfile)
  | resetting (permit : Nat) (popped : IdleConn) (profile : ResetProfile)
  | arming (permit : Nat) (popped : IdleConn)
  /-- The caller has the guard. -/
  | guarded (permit : Nat) (co : Checkout)
  /-- No connection any more; the permit is still to be dropped. -/
  | leaving (permit : Nat)
  | finished
  /-- The reaper, between two passes. -/
  | sleeping
  /-- The head of the reaper's loop. -/
  | reaping (budget : Nat)
  | reapPopping (permit budget : Nat)
  | reapInspecting (permit : Nat) (popped : IdleConn) (budget : Nat)
  | pinging (permit : Nat) (popped : IdleConn) (budget : Nat)
  /-- `evicted` lives to the end of the loop's body, after the drop of the permit. -/
  | reapLeaving (permit : Nat) (evicted : Option IdleConn) (budget : Nat)
  | reapStopping (permit : Nat)
  | evicting (evicted : IdleConn) (budget : Nat)
  deriving DecidableEq, Repr

structure State where
  available : Nat
  /-- The top of the stack first. -/
  idle : List IdleConn
  tasks : List Phase
  /-- The permits given out so far. -/
  next : Nat
  returned : List Nat
  /-- The connections dialled so far. -/
  dialled : Nat
  /-- The connections that the pool has let go. -/
  dropped : List Conn
  deriving DecidableEq, Repr

def State.start (cfg : Config) (reaper : Bool) : State :=
  { available := cfg.maxSize, idle := [], tasks := if reaper then [.sleeping] else [], next := 0,
    returned := [], dialled := 0, dropped := [] }

inductive Step where
  | acquires
  | timesOut
  /-- The future is dropped at an await. -/
  | cancelled
  | pops
  | dials (ok : Bool)
  | inspects (tooOld closed : Bool)
  | rollsBack (ok : Bool)
  | resets (ok : Bool)
  | arms (ok : Bool)
  | uses (op : Op)
  | drops (closed : Bool)
  | returnsPermit
  /-- The reaper reads its budget. -/
  | ticks
  | tries
  | pings (ok : Bool)
  | evicts
  deriving DecidableEq, Repr

inductive Label where
  /-- Someone calls `checkout`. -/
  | checksOut
  | task (i : Nat) (e : Step)
  deriving DecidableEq, Repr

namespace State

def put (s : State) (i : Nat) (phase : Phase) : State :=
  { s with tasks := s.tasks.set i phase }

def takesPermit (s : State) : State :=
  { s with
    available := s.available - 1
    next := s.next + 1 }

def givesBack (s : State) (permit : Nat) : State :=
  { s with
    available := s.available + 1
    returned := permit :: s.returned }

def pushes (s : State) (conn : IdleConn) : State :=
  { s with idle := conn :: s.idle }

def lets (s : State) (conn : Conn) : State :=
  { s with dropped := conn :: s.dropped }

end State

/-- The reset of a recycled connection. -/
def profileOf (cfg : Config) (popped : IdleConn) : Option ResetProfile :=
  if popped.tainted then some .full else cfg.cleanResetProfile

/-- The reset that is left after the ROLLBACK. -/
def afterRollback (permit : Nat) (popped : IdleConn) : Option ResetProfile → Phase
  | some profile => .resetting permit popped profile
  | none => .arming permit popped

def cleanup (cfg : Config) (permit : Nat) (popped : IdleConn) : Phase :=
  if popped.txOpen then .rollingBack permit popped (profileOf cfg popped)
  else afterRollback permit popped (profileOf cfg popped)

def IdleConn.logs (popped : IdleConn) (event : Event) : IdleConn :=
  { popped with conn := popped.conn.logs event }

/-- `Checkout::new`. -/
def handsOut (permit : Nat) (conn : Conn) : Phase :=
  .guarded permit (.new (conn.logs .handedOut))

def checkoutStep (cfg : Config) (s : State) (i : Nat) : Phase → Step → Option State
  | .waiting, .acquires =>
    if 0 < s.available then some (s.takesPermit.put i (.popping s.next)) else none
  | .waiting, .timesOut | .waiting, .cancelled => some (s.put i .finished)
  | .popping permit, .pops =>
    match s.idle with
    | popped :: idle => some ({ s with idle := idle }.put i (.inspecting permit popped))
    | [] => some (s.put i (.dialling permit))
  | .dialling permit, .dials true =>
    some ({ s with dialled := s.dialled + 1 }.put i (.armingFresh permit ⟨s.dialled, []⟩))
  | .dialling permit, .dials false | .dialling permit, .timesOut | .dialling permit, .cancelled =>
    some (s.put i (.leaving permit))
  | .armingFresh permit conn, .arms true => some (s.put i (handsOut permit conn))
  | .armingFresh permit conn, .arms false | .armingFresh permit conn, .cancelled =>
    some ((s.lets conn).put i (.leaving permit))
  | .inspecting permit popped, .inspects tooOld closed =>
    some (if tooOld || closed then (s.lets popped.conn).put i (.popping permit)
      else s.put i (cleanup cfg permit popped))
  | .rollingBack permit popped profile, .rollsBack true =>
    some (s.put i
      (afterRollback permit { popped.logs (.rolledBack true) with txOpen := false } profile))
  | .resetting permit popped profile, .resets true =>
    some (s.put i (.arming permit { popped.logs (.reset profile true) with tainted := false }))
  -- The cleanup runs under one bound; a connection that is not clean in time is evicted.
  | .rollingBack permit popped _, .rollsBack false | .rollingBack permit popped _, .timesOut =>
    some ((s.lets (popped.conn.logs (.rolledBack false))).put i (.popping permit))
  | .resetting permit popped profile, .resets false
  | .resetting permit popped profile, .timesOut =>
    some ((s.lets (popped.conn.logs (.reset profile false))).put i (.popping permit))
  | .rollingBack permit popped _, .cancelled | .resetting permit popped _, .cancelled
  | .arming permit popped, .cancelled =>
    some ((s.lets popped.conn).put i (.leaving permit))
  | .arming permit popped, .arms true => some (s.put i (handsOut permit popped.conn))
  | .arming permit popped, .arms false =>
    some ((s.lets popped.conn).put i (.popping permit))
  | .guarded permit co, .uses op => (co.apply cfg op).map fun co => s.put i (.guarded permit co)
  | .guarded permit co, .drops closed =>
    if co.handle.isSome then none
    else if co.discard || closed then some ((s.lets co.conn).put i (.leaving permit))
    else some ((s.pushes ⟨co.conn, co.txOpen, co.tainted⟩).put i (.leaving permit))
  | .leaving permit, .returnsPermit => some ((s.givesBack permit).put i .finished)
  | _, _ => none

def reaperStep (s : State) (i : Nat) : Phase → Step → Option State
  | .sleeping, .ticks => some (s.put i (.reaping s.idle.length))
  | .reaping 0, .tries => some (s.put i .sleeping)
  | .reaping (budget + 1), .tries =>
    if 0 < s.available then some (s.takesPermit.put i (.reapPopping s.next budget))
    else some (s.put i .sleeping)
  | .reapPopping permit budget, .pops =>
    match s.idle with
    | popped :: idle => some ({ s with idle := idle }.put i (.reapInspecting permit popped budget))
    | [] => some (s.put i (.reapStopping permit))
  | .reapInspecting permit popped budget, .inspects tooOld closed =>
    some (s.put i (if tooOld || closed then .reapLeaving permit (some popped) budget
      else .pinging permit popped budget))
  | .pinging permit popped budget, .pings true =>
    some ((s.pushes popped).put i (.reapLeaving permit none budget))
  | .pinging permit popped budget, .pings false =>
    some (s.put i (.reapLeaving permit (some popped) budget))
  | .reapLeaving permit (some evicted) budget, .returnsPermit =>
    some ((s.givesBack permit).put i (.evicting evicted budget))
  | .reapLeaving permit none budget, .returnsPermit =>
    some ((s.givesBack permit).put i (.reaping budget))
  | .reapStopping permit, .returnsPermit => some ((s.givesBack permit).put i .sleeping)
  | .evicting evicted budget, .evicts => some ((s.lets evicted.conn).put i (.reaping budget))
  | _, _ => none

def Phase.reaper : Phase → Bool
  | .sleeping | .reaping _ | .reapPopping _ _ | .reapInspecting _ _ _ | .pinging _ _ _
  | .reapLeaving _ _ _ | .reapStopping _ | .evicting _ _ => true
  | _ => false

def step (cfg : Config) (s : State) : Label → Option State
  | .checksOut => some { s with tasks := s.tasks ++ [.waiting] }
  | .task i e =>
    match s.tasks[i]? with
    | some phase =>
      if phase.reaper then reaperStep s i phase e else checkoutStep cfg s i phase e
    | none => none

end FerroEngine.PoolCheckout
