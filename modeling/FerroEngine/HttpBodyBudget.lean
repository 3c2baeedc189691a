import FerroEngine.LabelledRuns
import FerroEngine.TableWeights

set_option autoImplicit false

/-! # The body budgets of the HTTP engine

`Budgets` of `engine/budget.rs`: a body is charged to the account of its upstream and to the
daemon's. Each access to a counter is a step of its own, of a call of `charge` or of the drop that
has won the swap of `released`.
-/

namespace FerroEngine.HttpBodyBudget

open LabelledRuns TableWeights

structure Account where
  limit : Nat
  used : Nat
  deriving DecidableEq, Repr

/-- The counters are `u64`: 2 ^ 64 wraps to zero. -/
def u64 : Nat := 18446744073709551616

namespace Account

def tryTake (a : Account) (n : Nat) : Option Account :=
  if a.used + n < u64 ∧ a.used + n ≤ a.limit then some { a with used := a.used + n } else none

/-- `fetch_sub` wraps. -/
def give (a : Account) (n : Nat) : Account :=
  { a with used := (a.used + u64 - n) % u64 }

end Account

inductive Phase where
  | entered
  | tookUpstream
  /-- Over the daemon's budget: the upstream's account has to get its bytes back. -/
  | undoing
  | refused
  | charged
  /-- There was nothing to charge. -/
  | nothing
  deriving DecidableEq, Repr

/-- A call of `charge`. -/
structure Call where
  upstream : String
  n : Nat
  phase : Phase
  deriving DecidableEq, Repr

/-- How far the one release of a charge has come: the account that gets its bytes back next. -/
inductive Release where
  | no
  | upstream
  | daemon
  | done
  deriving DecidableEq, Repr

structure ChargeInner where
  n : Nat
  released : Bool
  upstream : String
  /-- The holders alive: the request's and those of wrapped bodies. -/
  holders : Nat
  release : Release
  deriving DecidableEq, Repr

inductive Event where
  | dropped (charge : Nat)
  | gaveUpstream (charge : Nat)
  | gaveDaemon (charge : Nat)
  deriving DecidableEq, Repr

structure Budgets where
  daemon : Account
  upstreams : String → Option Account
  calls : List Call
  charges : List ChargeInner
  /-- The drops and what they gave back, the last first. -/
  log : List Event

namespace Budgets

def new (limit : Nat) (limits : String → Option Nat) : Budgets :=
  { daemon := ⟨limit, 0⟩
    upstreams := fun upstream => (limits upstream).map fun limit => ⟨limit, 0⟩
    calls := [], charges := [], log := [] }

def inUse (s : Budgets) (upstream : String) : Nat :=
  ((s.upstreams upstream).map Account.used).getD 0

def daemonInUse (s : Budgets) : Nat :=
  s.daemon.used

def moves (s : Budgets) (i : Nat) (k : Call) (phase : Phase) : Budgets :=
  { s with calls := s.calls.set i { k with phase := phase } }

def account (s : Budgets) (upstream : String) (a : Account) : Budgets :=
  { s with upstreams := fun other => if other = upstream then some a else s.upstreams other }

def gives (s : Budgets) (upstream : String) (n : Nat) : Budgets :=
  match s.upstreams upstream with
  | some a => s.account upstream (a.give n)
  | none => s

def daemonGives (s : Budgets) (n : Nat) : Budgets :=
  { s with daemon := s.daemon.give n }

def keeps (s : Budgets) (i : Nat) (c : ChargeInner) : Budgets :=
  { s with charges := s.charges.set i c }

def logs (s : Budgets) (e : Event) : Budgets :=
  { s with log := e :: s.log }

end Budgets

inductive Label where
  | calls (upstream : String) (n : Nat)
  | takesUpstream (i : Nat)
  | takesDaemon (i : Nat)
  | undoes (i : Nat)
  /-- `wrap_body` makes another holder. -/
  | wraps (i : Nat)
  /-- A holder is dropped: the swap of `released`. -/
  | drops (i : Nat)
  | givesUpstream (i : Nat)
  | givesDaemon (i : Nat)
  deriving DecidableEq, Repr

def takeUpstream (s : Budgets) (i : Nat) (k : Call) : Budgets :=
  match s.upstreams k.upstream with
  | none => s.moves i k .refused
  | some a =>
    match a.tryTake k.n with
    | none => s.moves i k .refused
    | some a => (s.moves i k .tookUpstream).account k.upstream a

def takeDaemon (s : Budgets) (i : Nat) (k : Call) : Budgets :=
  match s.daemon.tryTake k.n with
  | none => s.moves i k .undoing
  | some daemon =>
    { s.moves i k .charged with
      daemon := daemon
      charges := s.charges ++ [⟨k.n, false, k.upstream, 1, .no⟩] }

/-- The drop of a holder: the first one starts the release. -/
def dropHolder (c : ChargeInner) : ChargeInner :=
  { c with
    released := true
    holders := c.holders - 1
    release := if c.released then c.release else .upstream }

def step (s : Budgets) : Label → Option Budgets
  | .calls upstream n =>
    some { s with calls := s.calls ++ [⟨upstream, n, if n = 0 then .nothing else .entered⟩] }
  | .takesUpstream i =>
    s.calls[i]?.bind fun k => if k.phase = .entered then some (takeUpstream s i k) else none
  | .takesDaemon i =>
    s.calls[i]?.bind fun k => if k.phase = .tookUpstream then some (takeDaemon s i k) else none
  | .undoes i =>
    s.calls[i]?.bind fun k =>
      if k.phase = .undoing then some ((s.moves i k .refused).gives k.upstream k.n) else none
  | .wraps i =>
    s.charges[i]?.bind fun c =>
      if 0 < c.holders then some (s.keeps i { c with holders := c.holders + 1 }) else none
  | .drops i =>
    s.charges[i]?.bind fun c =>
      if 0 < c.holders then some ((s.keeps i (dropHolder c)).logs (.dropped i)) else none
  | .givesUpstream i =>
    s.charges[i]?.bind fun c =>
      if c.release = .upstream then
        some (((s.keeps i { c with release := .daemon }).gives c.upstream c.n).logs
          (.gaveUpstream i))
      else none
  | .givesDaemon i =>
    s.charges[i]?.bind fun c =>
      if c.release = .daemon then
        some (((s.keeps i { c with release := .done }).daemonGives c.n).logs (.gaveDaemon i))
      else none

end FerroEngine.HttpBodyBudget
