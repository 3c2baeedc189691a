import FerroEngine.QueueIdentifiers
import FerroEngine.QueueTable

set_option autoImplicit false

/-! # The clock of a queue store

The statements of `pg.rs` at times in microseconds, with the delay check of `checks.rs`. A store has
one lease and one payload bound; the history keeps when a row was written, and when it was last
reserved or extended.
-/

namespace FerroEngine.QueueClock

open QueueIdentifiers QueueTable

/-- `floor(extract(epoch FROM statement_timestamp()))`. -/
def second (clock : Int) : Int := clock / 1000000

/-! ## The delay check -/

def timeColumnMax : Dialect → Int
  | .postgres => 2147483647
  | .mysql => 4294967295

def delayClockMarginS : Int := 86400

/-- `delay`; the refusal holds the largest delay that is accepted. -/
def delay (delayS : Nat) (engineNow : Int) (dialect : Dialect) : Except Int Unit :=
  if delayS = 0 then .ok ()
  else
    let largest := timeColumnMax dialect - engineNow - 1 - delayClockMarginS
    if largest < delayS then .error (max largest 0) else .ok ()

/-! ## Runs -/

structure StoreConfig where
  leaseS : Nat
  maxPayloadBytes : Nat
  deriving DecidableEq, Repr

structure Timed where
  store : Store
  /-- The database's clock. -/
  clock : Int
  /-- When a row was written, and with what delay. -/
  entered : JobId → Int
  delayS : JobId → Nat
  /-- When a row was last reserved or extended, and the deadline that this reported. -/
  held : JobId → Int
  deadline : JobId → Int

inductive Verb where
  | wait (micros : Nat)
  | enqueue (jobs : List (EnqueueJob × JobId))
  | reserve (queue : SourceText.Text) (limit : Nat) (locked : List JobId)
  | deliver (n : Nat)
  | ack (id : JobId) (token : Token)
  | release (id : JobId) (token : Token) (delay : Nat) (newId : JobId)
  | extend (id : JobId) (token : Token)
  | clear (queue : SourceText.Text)
  | unreserve (ns : List Nat)

/-- The step of the table. -/
def event (cfg : StoreConfig) (s : Timed) : Verb → Event
  | .wait micros => .tick (second (s.clock + micros) - second s.clock).toNat
  | .enqueue jobs => .enqueue jobs
  | .reserve queue limit locked => .reserve queue cfg.leaseS cfg.maxPayloadBytes limit locked
  | .deliver n => .deliver n
  | .ack id token => .ack id token
  | .release id token delay newId => .release id token delay newId
  | .extend id token => .extend id token cfg.leaseS
  | .clear queue => .clear queue
  | .unreserve ns => .unreserve ns

/-- The rows that RESERVE reports. -/
def noteReserved (s : Timed) (jobs : List Reserved) : Timed :=
  { s with
    held := fun id => if id ∈ jobs.map (·.id) then s.clock else s.held id
    deadline := fun id =>
      match jobs.find? fun job => job.id == id with
      | some job => job.leaseDeadline
      | none => s.deadline id }

def noteExtended (s : Timed) (id : JobId) (reported : Int) : Timed :=
  { s with
    held := Function.update s.held id s.clock
    deadline := Function.update s.deadline id reported }

/-- The history after a verb, from what its statement answers. -/
def note (cfg : StoreConfig) (s : Timed) : Verb → Timed
  | .wait micros => { s with clock := s.clock + micros }
  | .enqueue jobs =>
    { s with
      entered := fun id => if id ∈ jobs.map Prod.snd then s.clock else s.entered id
      delayS := fun id =>
        match jobs.find? fun job => job.2 == id with
        | some job => job.1.delayS
        | none => s.delayS id }
  | .release _ _ delay newId =>
    { s with
      entered := Function.update s.entered newId s.clock
      delayS := Function.update s.delayS newId delay }
  | .reserve queue limit locked =>
    match reserve s.store.now s.store.rows queue cfg.leaseS cfg.maxPayloadBytes limit locked with
    | some (_, jobs) => noteReserved s jobs
    | none => s
  | .extend id token =>
    match extend s.store.now s.store.rows id token cfg.leaseS with
    | some (_, some reported) => noteExtended s id reported
    | _ => s
  | _ => s

def step (cfg : StoreConfig) (s : Timed) (verb : Verb) : Option Timed :=
  (QueueTable.step s.store (event cfg s verb)).map fun store =>
    { note cfg s verb with store := store }

def start (clock : Int) : Timed :=
  { store := init (second clock)
    clock := clock
    entered := fun _ => clock
    delayS := fun _ => 0
    held := fun _ => clock
    deadline := fun _ => 0 }

def run (cfg : StoreConfig) (s : Timed) (verbs : List Verb) : Option Timed :=
  LabelledRuns.run (step cfg) s verbs

/-- A RESERVE at this time may take the row. -/
def takeable (cfg : StoreConfig) (row : Row) (clock : Int) : Bool :=
  reservable (second clock) row.queue cfg.leaseS cfg.maxPayloadBytes row

end FerroEngine.QueueClock
