import Mathlib.Data.List.Sort
import Mathlib.Logic.Function.Basic
import FerroEngine.SourceText
import FerroEngine.LabelledRuns

set_option autoImplicit false

/-! # The table of a queue store

The statements of `pg.rs` on the rows of a queue's table, each one atomic step, and the runs of
any number of clients. Statement time is the database's clock in whole seconds.
-/

namespace FerroEngine.QueueTable

open SourceText

/-! ## Ids and tokens -/

/-- A row's id. -/
abbrev JobId := Int

structure Token where
  createdAt : BitVec 32
  attempts : BitVec 16
  deriving DecidableEq, Repr

namespace Token

def fromPg (createdAt attempts : Int) : Token :=
  { createdAt := BitVec.ofInt 32 createdAt, attempts := BitVec.ofInt 16 attempts }

def pgCreatedAt (self : Token) : Int :=
  self.createdAt.toInt

def pgAttempts (self : Token) : Int :=
  self.attempts.toInt

/-- Eight bytes, the first one in front. -/
def encode (self : Token) : List (BitVec 8) :=
  let bits : BitVec 64 := 0#16 ++ (self.createdAt ++ self.attempts)
  (List.range 8).map fun i => bits.extractLsb' (8 * (7 - i)) 8

def decode : List (BitVec 8) → Option Token
  | [a, b, c, d, e, f, g, h] =>
    if a ≠ 0 ∨ b ≠ 0 then none
    else some { createdAt := c ++ d ++ e ++ f, attempts := g ++ h }
  | _ => none

end Token

/-! ## Rows -/

structure Row where
  id : JobId
  queue : Text
  payload : Text
  attempts : Int
  reservedAt : Option Int
  availableAt : Int
  createdAt : Int
  deriving DecidableEq, Repr

abbrev Table := List Row

/-- `i16::MAX`. -/
def attemptsCeiling : Int := 32767

/-- The range of an `integer` column. -/
def fitsInteger (n : Int) : Bool :=
  decide (-2 ^ 31 ≤ n ∧ n < 2 ^ 31)

def availableAt (now delay : Int) : Int :=
  if delay = 0 then now else now + 1 + delay

def fence (id : JobId) (token : Token) (row : Row) : Bool :=
  row.id == id && row.attempts == token.pgAttempts && row.createdAt == token.pgCreatedAt

inductive NoMatch where
  | gone
  | leaseLost
  deriving DecidableEq, Repr

def probe (rows : Table) (id : JobId) : Option Token :=
  (rows.find? fun row => row.id == id).map fun row => Token.fromPg row.createdAt row.attempts

def probeVerdict (found : Option Token) (token : Token) : NoMatch :=
  match found with
  | none => .gone
  | some current => if current = token then .gone else .leaseLost

/-! ## Statements

A statement that would write a time outside its column fails and changes nothing. -/

structure EnqueueJob where
  queue : Text
  payload : Text
  delayS : Nat
  deriving DecidableEq, Repr

def newRow (now : Int) (id : JobId) (queue payload : Text) (attempts delay : Int) : Row :=
  { id := id
    queue := queue
    payload := payload
    attempts := attempts
    reservedAt := none
    availableAt := availableAt now delay
    createdAt := now }

def Row.fits (row : Row) : Bool :=
  fitsInteger row.availableAt && fitsInteger row.createdAt

def enqueue (now : Int) (rows : Table) (jobs : List (EnqueueJob × JobId)) : Option Table :=
  let new := jobs.map fun job => newRow now job.2 job.1.queue job.1.payload 0 job.1.delayS
  if new.all Row.fits then some (rows ++ new) else none

structure Reserved where
  id : JobId
  token : Token
  attempts : Int
  queue : Text
  payload : Text
  createdAt : Int
  leaseDeadline : Int
  deriving DecidableEq, Repr

/-- What an unreserve statement fences on. -/
structure Unreserve where
  id : JobId
  token : Token
  reservedAt : Int
  deriving DecidableEq, Repr

namespace Reserved

def reservedAt (self : Reserved) (lease : Nat) : Int :=
  self.leaseDeadline - lease - 1

def unreserve (self : Reserved) (lease : Nat) : Unreserve :=
  { id := self.id, token := self.token, reservedAt := self.reservedAt lease }

end Reserved

def reservable (now : Int) (queue : Text) (lease maxPayload : Nat) (row : Row) : Bool :=
  row.queue == queue && decide (row.attempts < attemptsCeiling) &&
    decide (byteLen row.payload ≤ maxPayload) &&
    match row.reservedAt with
    | none => decide (row.availableAt ≤ now)
    | some r => decide (r < now - lease)

/-- The rows that a RESERVE locks: the first ones by id, without those that are locked by others. -/
def lockRows (now : Int) (rows : Table) (queue : Text) (lease maxPayload limit : Nat)
    (locked : List JobId) : Table :=
  ((rows.filter fun row => reservable now queue lease maxPayload row && !locked.contains row.id)
    |>.insertionSort fun a b => a.id ≤ b.id).take limit

def Row.reserve (now : Int) (row : Row) : Row :=
  { row with reservedAt := some now, attempts := row.attempts + 1 }

/-- A row of the answer to RESERVE, decoded. -/
def Row.reserved (now : Int) (lease : Nat) (row : Row) : Reserved :=
  { id := row.id
    token := Token.fromPg row.createdAt row.attempts
    attempts := row.attempts
    queue := row.queue
    payload := row.payload
    createdAt := row.createdAt
    leaseDeadline := now + lease + 1 }

/-- The jobs come sorted by id. -/
def reserve (now : Int) (rows : Table) (queue : Text) (lease maxPayload limit : Nat)
    (locked : List JobId) : Option (Table × List Reserved) :=
  let chosen := lockRows now rows queue lease maxPayload limit locked
  if chosen ≠ [] ∧ fitsInteger now = false then none
  else
    some (rows.map (fun row => if row ∈ chosen then row.reserve now else row),
      chosen.map fun row => (row.reserve now).reserved now lease)

def ack (rows : Table) (id : JobId) (token : Token) : Table × Except NoMatch Unit :=
  if rows.any (fence id token) then (rows.filter fun row => !fence id token row, .ok ())
  else (rows, .error (probeVerdict (probe rows id) token))

/-- RELEASE, with the row that it inserts. -/
def release (now : Int) (rows : Table) (id : JobId) (token : Token) (delay : Nat)
    (newId : JobId) : Option (Table × Except NoMatch Row) :=
  match rows.find? (fence id token) with
  | some row =>
    let new := newRow now newId row.queue row.payload row.attempts delay
    if new.fits then some (rows.filter (fun row => !fence id token row) ++ [new], .ok new)
    else none
  | none => some (rows, .error (probeVerdict (probe rows id) token))

/-- EXTEND: also a row with the right token must have a lease. -/
def extendable (id : JobId) (token : Token) (row : Row) : Bool :=
  fence id token row && row.reservedAt.isSome

def extend (now : Int) (rows : Table) (id : JobId) (token : Token) (lease : Nat) :
    Option (Table × Option Int) :=
  if rows.any (extendable id token) then
    if fitsInteger now then
      some (rows.map (fun row =>
          if extendable id token row then { row with reservedAt := some now } else row),
        some (now + lease + 1))
    else none
  else some (rows, none)

def clear (rows : Table) (queue : Text) : Table :=
  rows.filter fun row => row.queue != queue

def Unreserve.names (key : Unreserve) (row : Row) : Bool :=
  fence key.id key.token row && row.reservedAt == some key.reservedAt

def unreserve (rows : Table) (keys : List Unreserve) : Table :=
  rows.map fun row =>
    if keys.any (·.names row) then { row with reservedAt := none, attempts := row.attempts - 1 }
    else row

/-! ## Runs -/

/-- A reservation with what became of it: delivered to a client, its unreserve statement run, the
row restored by that statement. -/
structure Reservation where
  reserved : Reserved
  key : Unreserve
  delivered : Bool
  asked : Bool
  undone : Bool
  deriving DecidableEq, Repr

inductive Removal where
  | acked
  | cleared
  deriving DecidableEq, Repr

/-- The table and the clock, with the history: all ids, the job behind each id, the number of jobs,
the jobs removed, the reservations in order and how many there were before each row. -/
structure Store where
  rows : Table
  now : Int
  used : List JobId
  job : JobId → Nat
  enqueued : Nat
  removed : List (Nat × Removal)
  reservations : List Reservation
  before : JobId → Nat

namespace Store

def enter (st : Store) (rows : Table) (jobs : List (EnqueueJob × JobId)) : Store :=
  { st with
    rows := rows
    used := st.used ++ jobs.map Prod.snd
    job := fun id =>
      match (jobs.map Prod.snd).idxOf? id with
      | some i => st.enqueued + i
      | none => st.job id
    enqueued := st.enqueued + jobs.length
    before := fun id =>
      if id ∈ jobs.map Prod.snd then st.reservations.length else st.before id }

/-- The rows go out of the table, each one's job with them. -/
def remove (st : Store) (gone : Row → Bool) (how : Removal) : Store :=
  { st with
    rows := st.rows.filter fun row => !gone row
    removed := st.removed ++ (st.rows.filter gone).map fun row => (st.job row.id, how) }

def markDelivered (st : Store) (n : Nat) : Store :=
  { st with reservations := st.reservations.modify n fun r => { r with delivered := true } }

/-- The unreserve statement of the given reservations. -/
def giveBack (st : Store) (ns : List Nat) : Store :=
  let keys := ns.filterMap fun n => (st.reservations[n]?).map (·.key)
  { st with
    rows := unreserve st.rows keys
    reservations := st.reservations.mapIdx fun n r =>
      if n ∈ ns then { r with asked := true, undone := st.rows.any r.key.names } else r }

end Store

inductive Event where
  | tick (seconds : Nat)
  | enqueue (jobs : List (EnqueueJob × JobId))
  | reserve (queue : Text) (lease maxPayload limit : Nat) (locked : List JobId)
  | deliver (n : Nat)
  | ack (id : JobId) (token : Token)
  | release (id : JobId) (token : Token) (delay : Nat) (newId : JobId)
  | extend (id : JobId) (token : Token) (lease : Nat)
  | clear (queue : Text)
  | unreserve (ns : List Nat)

/-- Neither delivered nor given back so far. -/
def open' (st : Store) (n : Nat) : Bool :=
  match st.reservations[n]? with
  | some r => !r.delivered && !r.asked
  | none => false

/-- Ids are new; a reservation is delivered or given back, and that once. -/
def step (st : Store) : Event → Option Store
  | .tick seconds => some { st with now := st.now + seconds }
  | .enqueue jobs =>
    if (st.used ++ jobs.map Prod.snd).Nodup then
      (enqueue st.now st.rows jobs).map fun rows => st.enter rows jobs
    else none
  | .reserve queue lease maxPayload limit locked =>
    (reserve st.now st.rows queue lease maxPayload limit locked).map fun (rows, jobs) =>
      { st with
        rows := rows
        reservations := st.reservations ++ jobs.map fun reserved =>
          { reserved := reserved
            key := reserved.unreserve lease
            delivered := false
            asked := false
            undone := false } }
  | .deliver n => if open' st n then some (st.markDelivered n) else none
  | .ack id token =>
    match ack st.rows id token with
    | (_, .ok ()) => some (st.remove (fence id token) .acked)
    | (_, .error _) => some st
  | .release id token delay newId =>
    if newId ∉ st.used then
      (release st.now st.rows id token delay newId).map fun
        | (rows, .ok _) =>
          { st with
            rows := rows
            used := st.used ++ [newId]
            job := Function.update st.job newId (st.job id)
            before := Function.update st.before newId st.reservations.length }
        | (_, .error _) => st
    else none
  | .extend id token lease =>
    (extend st.now st.rows id token lease).map fun (rows, _) => { st with rows := rows }
  | .clear queue => some (st.remove (fun row => row.queue == queue) .cleared)
  | .unreserve ns => if ns.Nodup ∧ ns.all (open' st) then some (st.giveBack ns) else none

def init (now : Int) : Store :=
  { rows := []
    now := now
    used := []
    job := fun _ => 0
    enqueued := 0
    removed := []
    reservations := []
    before := fun _ => 0 }

def run (st : Store) (events : List Event) : Option Store :=
  LabelledRuns.run step st events

end FerroEngine.QueueTable
