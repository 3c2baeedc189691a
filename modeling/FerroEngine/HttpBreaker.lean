import Mathlib.Algebra.Ring.Nat
import FerroEngine.LabelledRuns

set_option autoImplicit false

/-! # The circuit breaker

`Breaker` and `BreakerTicket` of `ferro-http/src/engine/limits.rs`. Times are nanoseconds; each
call of the breaker is one step, since it holds the breaker's lock.
-/

namespace FerroEngine.HttpBreaker

inductive Outcome where
  | success
  | counted
  | other
  deriving DecidableEq, Repr

inductive Refusal where
  | opened (retryAfterMs : Nat)
  | probeBusy
  deriving DecidableEq, Repr

inductive St where
  | closed (failures : Nat)
  | opened (deadline : Nat)
  | halfOpen (probing : Bool)
  deriving DecidableEq, Repr

/-- `BreakerInner`. -/
structure Breaker where
  st : St
  generation : Nat
  deriving DecidableEq, Repr

inductive TicketKind where
  | closed (generation : Nat)
  | probe
  deriving DecidableEq, Repr

/-- `TicketInner`, with the number of its handles. -/
structure Ticket where
  probe : Bool
  generation : Nat
  recorded : Bool
  handles : Nat
  deriving DecidableEq, Repr

structure Config where
  failures : Nat
  openMs : Nat

/-- The failures that open the breaker. -/
def Config.limit (cfg : Config) : Nat :=
  max cfg.failures 1

def Config.openFor (cfg : Config) : Nat :=
  cfg.openMs * 1000000

def ceilMs (nanos : Nat) : Nat :=
  min (max ((nanos + 999999) / 1000000) 1) (2 ^ 32 - 1)

def msUntil (deadline now : Nat) : Nat :=
  ceilMs (deadline - now)

/-- The breaker and every ticket it has issued, by the order of issue. -/
structure State where
  breaker : Breaker
  tickets : List Ticket
  deriving DecidableEq, Repr

def init : State :=
  { breaker :=
      { st := .closed 0
        generation := 0 }
    tickets := [] }

def Ticket.issue (kind : TicketKind) : Ticket :=
  match kind with
  | .probe =>
    { probe := true
      generation := 0
      recorded := false
      handles := 1 }
  | .closed generation =>
    { probe := false
      generation := generation
      recorded := false
      handles := 1 }

/-- `Breaker::admit`: the refusal or the kind of the ticket, and the breaker. -/
def Breaker.admitAt (b : Breaker) (now : Nat) : Except Refusal TicketKind × Breaker :=
  match b.st with
  | .opened deadline =>
    if now < deadline then (.error (.opened (msUntil deadline now)), b)
    else (.ok .probe, { b with st := .halfOpen true })
  | .closed _ => (.ok (.closed b.generation), b)
  | .halfOpen true => (.error .probeBusy, b)
  | .halfOpen false => (.ok .probe, { b with st := .halfOpen true })

def Breaker.settle (cfg : Config) (b : Breaker) (kind : TicketKind) (outcome : Outcome)
    (now : Nat) : Breaker :=
  match kind with
  | .closed generation =>
    if generation ≠ b.generation then b
    else
      match b.st with
      | .closed failures =>
        match outcome with
        | .success => { b with st := .closed 0 }
        | .other => b
        | .counted =>
          if cfg.limit ≤ failures + 1 then
            { st := .opened (now + cfg.openFor)
              generation := b.generation + 1 }
          else { b with st := .closed (failures + 1) }
      | _ => b
  | .probe =>
    match outcome with
    | .success => { b with st := .closed 0 }
    | .counted => { b with st := .opened (now + cfg.openFor) }
    | .other => { b with st := .halfOpen false }

def Ticket.kind (k : Ticket) : TicketKind :=
  if k.probe then .probe else .closed k.generation

/-- `TicketInner::record_at`; the ticket has been looked up. -/
def recordAt (cfg : Config) (s : State) (t : Nat) (k : Ticket) (outcome : Outcome) (now : Nat) :
    State :=
  if k.recorded then s
  else
    { breaker := s.breaker.settle cfg k.kind outcome now
      tickets := s.tickets.set t { k with recorded := true } }

/-- `BreakerTicket::recheck`. -/
def recheck (s : State) (t : Nat) (k : Ticket) (now : Nat) : Except Refusal Unit × State :=
  if k.probe then (.ok (), s)
  else
    match s.breaker.st with
    | .closed _ =>
      (.ok (), { s with tickets := s.tickets.set t { k with generation := s.breaker.generation } })
    | .opened deadline =>
      if now < deadline then (.error (.opened (msUntil deadline now)), s)
      else (.error (.opened 1), s)
    | .halfOpen true => (.error .probeBusy, s)
    | .halfOpen false => (.error (.opened 1), s)

/-! ## Calls -/

inductive Event where
  | admitAt (now : Nat)
  | clone (t : Nat)
  | record (t : Nat) (outcome : Outcome) (now : Nat)
  | release (t now : Nat)
  | recheck (t now : Nat)
  deriving DecidableEq, Repr

inductive Reply where
  | admitted (t : Nat)
  | refused (r : Refusal)
  | passed
  | done
  deriving DecidableEq, Repr

/-- The handle of a ticket that a call is made through. -/
def held (s : State) (t : Nat) : Option Ticket :=
  (s.tickets[t]?).filter fun k => 0 < k.handles

/-- A call needs a handle; the last handle's drop records `other`. -/
def step (cfg : Config) (s : State) (e : Event) : Option (State × Reply) :=
  match e with
  | .admitAt now =>
    match s.breaker.admitAt now with
    | (.error r, b) => some ({ s with breaker := b }, .refused r)
    | (.ok kind, b) =>
      some
        ({ breaker := b
           tickets := s.tickets ++ [Ticket.issue kind] },
          .admitted s.tickets.length)
  | .clone t =>
    (held s t).map fun k =>
      ({ s with tickets := s.tickets.set t { k with handles := k.handles + 1 } }, .done)
  | .record t outcome now => (held s t).map fun k => (recordAt cfg s t k outcome now, .done)
  | .release t now =>
    (held s t).map fun k =>
      let left := { k with handles := k.handles - 1 }
      let s := { s with tickets := s.tickets.set t left }
      (if left.handles = 0 then recordAt cfg s t left .other now else s, .done)
  | .recheck t now =>
    (held s t).map fun k =>
      match recheck s t k now with
      | (.ok (), s) => (s, .passed)
      | (.error r, s) => (s, .refused r)

end FerroEngine.HttpBreaker
