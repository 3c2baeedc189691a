import Mathlib.Data.List.Sort
import Mathlib.Logic.Function.Basic
import FerroEngine.SourceText
import FerroEngine.LabelledRuns

set_option autoImplicit false

/-! # The waker of a queue store

`queue_waker.rs`. Everything that takes the waker's lock runs alone, but the handlers of waiting
requests take only their own slot's lock: what they do between two slot locks of the waker is part
of the schedule.
-/

namespace FerroEngine.QueueWaker

open SourceText

abbrev Queue := Text

inductive Trigger where
  | arrival
  | hint
  | interval
  | refill
  deriving DecidableEq, Repr

inductive Ended where
  | offered
  | deadline
  | cancelled
  | teardown
  | drained
  deriving DecidableEq, Repr

inductive UnreserveCause where
  | cancel
  | teardown
  | deadline
  deriving DecidableEq, Repr

def Ended.unreserveCause : Ended → UnreserveCause
  | .cancelled => .cancel
  | .teardown => .teardown
  | .offered | .deadline | .drained => .deadline

inductive Offer (Job Err : Type) where
  | jobs (mine : List Job)
  | failed (error : Err)
  | empty
  deriving DecidableEq, Repr

inductive WaitOutcome (Job Err : Type) where
  | offer (offer : Offer Job Err)
  | expired
  | cancelled
  | teardown
  | drained
  deriving DecidableEq, Repr

structure Slot (Job Err : Type) where
  arrival : Nat
  busy : Bool
  ended : Option Ended
  offer : Option (Offer Job Err)
  deriving DecidableEq, Repr

structure Waiter where
  queues : List Queue
  clamp : Nat
  waitEnd : Nat
  deriving DecidableEq, Repr

/-- Where the request's handler is: in `wait`, back from it, past its guard, or done. -/
inductive Handler (Job Err : Type) where
  | waiting (hardEnd : Nat)
  | returned (outcome : WaitOutcome Job Err)
  | leaving (outcome : WaitOutcome Job Err)
  | gone
  deriving DecidableEq, Repr

variable {Job Err : Type}

namespace Waiter

def owed (self : Waiter) (s : Slot Job Err) (queue : Queue) (now : Nat) : Bool :=
  s.ended.isNone && decide (now < self.waitEnd) &&
    (decide (self.queues.length ≤ s.arrival) || self.queues[s.arrival]? == some queue)

def eligible (self : Waiter) (s : Slot Job Err) (queue : Queue) (now : Nat) : Bool :=
  !s.busy && self.owed s queue now

end Waiter

/-! ## Slots and their handlers -/

/-- What happens outside the waker's lock: time passes, or a handler looks at its slot. -/
inductive Nudge where
  | advance (by' : Nat)
  | look (id : Nat) (cancelled live draining : Bool)
  deriving DecidableEq, Repr

/-- The waiters with their slots and handlers, the clock, what is to happen at the next slot locks
of the waker, and every finished waiter in order. -/
structure Hall (Job Err : Type) where
  waiter : Nat → Waiter
  slot : Nat → Slot Job Err
  handler : Nat → Handler Job Err
  now : Nat
  bursts : List (List Nudge)
  finished : List (Nat × Ended)

namespace Hall

def setSlot (h : Hall Job Err) (id : Nat) (s : Slot Job Err) : Hall Job Err :=
  { h with slot := Function.update h.slot id s }

/-- `Waiter::offer`. -/
def offer (h : Hall Job Err) (id : Nat) (o : Offer Job Err) : Hall Job Err :=
  let s := h.slot id
  if s.ended.isSome then h
  else
    { h.setSlot id { s with ended := some .offered, offer := some o } with
      finished := h.finished ++ [(id, .offered)] }

/-- How the handler finishes its waiter when it looks at the slot and finds no offer. -/
def finish (w : Waiter) (s : Slot Job Err) (now hardEnd : Nat) (cancelled live draining : Bool) :
    Option (Ended × WaitOutcome Job Err) :=
  if cancelled then
    some (if live then (.cancelled, .cancelled) else (.teardown, .teardown))
  else if hardEnd ≤ now ∨ (s.busy = false ∧ w.waitEnd ≤ now) then some (.deadline, .expired)
  else if s.busy = false ∧ draining = true then some (.drained, .drained)
  else none

/-- One turn of the loop in `Waiter::wait`. -/
def look (h : Hall Job Err) (id : Nat) (cancelled live draining : Bool) : Hall Job Err :=
  match h.handler id with
  | .waiting hardEnd =>
    let s := h.slot id
    match s.offer with
    | some o =>
      { h.setSlot id { s with offer := none } with
        handler := Function.update h.handler id (.returned (.offer o)) }
    | none =>
      match finish (h.waiter id) s h.now hardEnd cancelled live draining with
      | some (ended, outcome) =>
        { h.setSlot id { s with ended := some ended } with
          handler := Function.update h.handler id (.returned outcome)
          finished := h.finished ++ [(id, ended)] }
      | none => h
  | .returned _ | .leaving _ | .gone => h

def nudge (h : Hall Job Err) : Nudge → Hall Job Err
  | .advance by' => { h with now := h.now + by' }
  | .look id cancelled live draining => h.look id cancelled live draining

/-- The waker is about to take a slot's lock. -/
def lock (h : Hall Job Err) : Hall Job Err :=
  match h.bursts with
  | [] => h
  | burst :: later => burst.foldl nudge { h with bursts := later }

end Hall

/-! ## The waker -/

structure QueueState where
  fifo : List Nat
  inFlight : Bool
  pending : Option Trigger
  deriving DecidableEq, Repr

/-- A statement that runs, with the waiters that it serves. -/
structure Sweep where
  number : Nat
  queue : Queue
  batch : List Nat
  k : Nat
  deriving DecidableEq, Repr

/-- How a sweep's statement came out: with the jobs that it reserved, or with an error and jobs
that it reserved without saying so. -/
inductive SweepOutcome (Job Err : Type) where
  | answered (jobs : List Job)
  | failed (reserved : List Job) (error : Err)

def SweepOutcome.reserved : SweepOutcome Job Err → List Job
  | .answered jobs => jobs
  | .failed reserved _ => reserved

/-- What a completed sweep did with its jobs. -/
structure Completion (Job Err : Type) where
  sweep : Sweep
  outcome : SweepOutcome Job Err
  offers : List (Nat × List Job)
  leftovers : List Job

/-- The waker with every sweep it started, every completed one, the jobs that it unreserved and
what the handlers did with the jobs they were offered. -/
structure Waker (Job Err : Type) where
  bound : Bool
  nextId : Nat
  registered : Nat → Bool
  queues : Queue → Option QueueState
  hall : Hall Job Err
  sweeps : List Sweep
  started : List Queue
  completed : List (Completion Job Err)
  unreserved : List (UnreserveCause × List Job)
  delivered : List (Nat × List Job)
  handedBack : List (Nat × List Job)

namespace Waker

def setQueue (st : Waker Job Err) (queue : Queue) (qs : QueueState) : Waker Job Err :=
  { st with queues := Function.update st.queues queue (some qs) }

def setHall (st : Waker Job Err) (h : Hall Job Err) : Waker Job Err :=
  { st with hall := h }

/-- The FIFO prefix that a sweep serves: the waiters, their summed clamps and whether a busy one
is owed the sweep. -/
def collect (cap : Nat) (registered : Nat → Bool) (queue : Queue) (now : Nat) :
    List Nat → Hall Job Err → List Nat → Nat → Bool → Hall Job Err × List Nat × Nat × Bool
  | [], h, batch, k, owed => (h, batch, k, owed)
  | id :: rest, h, batch, k, owed =>
    if registered id then
      let h := h.lock
      let s := h.slot id
      let w := h.waiter id
      if w.eligible s queue now then
        if batch ≠ [] ∧ cap < k + w.clamp then (h, batch, k, owed)
        else
          collect cap registered queue now rest (h.setSlot id { s with busy := true })
            (batch ++ [id]) (k + w.clamp) owed
      else
        collect cap registered queue now rest h batch k (owed || (s.busy && w.owed s queue now))
    else collect cap registered queue now rest h batch k owed

def startSweep (cap : Nat) (st : Waker Job Err) (queue : Queue) (trigger : Trigger) :
    Waker Job Err :=
  if st.bound then
    match st.queues queue with
    | none => st
    | some qs =>
      let (h, batch, k, owed) :=
        collect cap st.registered queue st.hall.now qs.fifo st.hall [] 0 false
      if batch = [] then
        (st.setHall h).setQueue queue
          { qs with pending := if owed then some trigger else none }
      else
        { (st.setHall h).setQueue queue { qs with pending := none, inFlight := true } with
          sweeps := st.sweeps ++
            [{ number := st.started.length, queue := queue, batch := batch, k := min k 65535 }]
          started := st.started ++ [queue] }
  else st

def triggerLocked (cap : Nat) (st : Waker Job Err) (queue : Queue) (trigger : Trigger) :
    Waker Job Err :=
  match st.queues queue with
  | none => st
  | some qs =>
    if qs.inFlight then
      st.setQueue queue { qs with pending := qs.pending <|> some trigger }
    else startSweep cap st queue trigger

def register (cap : Nat) (st : Waker Job Err) (queues : List Queue) (clamp waitEnd hardEnd : Nat) :
    Waker Job Err :=
  let ordered := queues.eraseDups
  let id := st.nextId
  let enter := fun (qs : Option QueueState) =>
    let known := qs.getD { fifo := [], inFlight := false, pending := none }
    { known with fifo := known.fifo ++ [id] }
  let entered : Waker Job Err :=
    { st with
      nextId := id + 1
      registered := Function.update st.registered id true
      queues := fun q => if q ∈ ordered then some (enter (st.queues q)) else st.queues q
      hall :=
        { st.hall with
          waiter := Function.update st.hall.waiter id
            { queues := ordered, clamp := max clamp 1, waitEnd := waitEnd }
          slot := Function.update st.hall.slot id
            { arrival := 0, busy := false, ended := none, offer := none }
          handler := Function.update st.hall.handler id (.waiting hardEnd) } }
  match ordered with
  | [] => entered
  | first :: _ => triggerLocked cap entered first .arrival

def deregister (st : Waker Job Err) (id : Nat) : Waker Job Err :=
  let retain := fun (qs : QueueState) =>
    if qs.fifo ≠ [] ∨ qs.inFlight = true then some qs else none
  let leave := fun (q : Queue) (qs : QueueState) =>
    if st.registered id = true ∧ q ∈ (st.hall.waiter id).queues then
      { qs with fifo := qs.fifo.filter (· ≠ id) }
    else qs
  { st with
    registered := Function.update st.registered id false
    queues := fun q => (st.queues q).bind fun qs => retain (leave q qs) }

/-! ## Completing a sweep -/

/-- What a loop over waiters of `complete` carries. -/
structure Serving (Job Err : Type) where
  hall : Hall Job Err
  jobs : List Job
  cause : Option Ended
  nextArrivals : List Queue
  freed : List Queue
  offers : List (Nat × List Job)

/-- The turn of a waiter that takes jobs. -/
def Serving.give (r : Serving Job Err) (id : Nat) : Serving Job Err :=
  let n := min (r.hall.waiter id).clamp r.jobs.length
  { r with
    hall := r.hall.offer id (.jobs (r.jobs.take n))
    jobs := r.jobs.drop n
    offers := r.offers ++ [(id, r.jobs.take n)] }

/-- The turn of one waiter of the batch. -/
def serveOne (queue : Queue) (r : Serving Job Err) (id : Nat) : Serving Job Err :=
  let h := r.hall.lock
  let w := h.waiter id
  let s := { h.slot id with busy := false }
  match s.ended with
  | some e => { r with hall := h.setSlot id s, cause := r.cause <|> some e }
  | none =>
    if 0 < min w.clamp r.jobs.length then
      Serving.give { r with hall := h.setSlot id s } id
    else
      let here := s.arrival < w.queues.length ∧ w.queues[s.arrival]? = some queue
      { r with
        hall := h.setSlot id (if here then { s with arrival := s.arrival + 1 } else s)
        nextArrivals :=
          r.nextArrivals ++ (if here then (w.queues[s.arrival + 1]?).toList else [])
        freed := r.freed ++ w.queues.filter (· ≠ queue) }

/-- Jobs that no waiter of the batch took, offered to the other waiters of the queue. -/
def reoffer (registered : Nat → Bool) (queue : Queue) (now : Nat) :
    List Nat → Serving Job Err → Serving Job Err
  | [], r => r
  | id :: rest, r =>
    if r.jobs = [] then r
    else if registered id then
      let h := r.hall.lock
      if (h.waiter id).eligible (h.slot id) queue now then
        reoffer registered queue now rest (Serving.give { r with hall := h } id)
      else reoffer registered queue now rest { r with hall := h }
    else reoffer registered queue now rest r

/-- The turn of one waiter of a batch whose sweep failed. -/
def failOne (error : Err) (h : Hall Job Err) (id : Nat) : Hall Job Err :=
  let h := h.lock
  (h.setSlot id { h.slot id with busy := false }).offer id (.failed error)

/-- The turn of one waiter of the queue whose sweep failed. -/
def dismissOne (registered : Nat → Bool) (h : Hall Job Err) (id : Nat) : Hall Job Err :=
  if registered id then
    let h := h.lock
    if (h.slot id).busy then h else h.offer id .empty
  else h

/-- Queue names in order, each once. -/
def sortDedup (queues : List Queue) : List Queue :=
  (queues.insertionSort fun a b => ¬ b < a).eraseDups

/-- The pending trigger of a queue that a freed waiter is owed. -/
def runDeferred (cap : Nat) (st : Waker Job Err) (queue : Queue) : Waker Job Err :=
  match st.queues queue with
  | some { fifo, inFlight := false, pending := some t } =>
    startSweep cap (st.setQueue queue { fifo := fifo, inFlight := false, pending := none }) queue t
  | _ => st

/-- The end of `complete`: the follow-up of the queue, the next arrivals and the freed waiters. -/
def followUp (cap : Nat) (st : Waker Job Err) (queue : Queue) (nextArrivals freed : List Queue) :
    Waker Job Err :=
  let st :=
    match st.queues queue with
    | some { fifo, inFlight, pending := some t } =>
      startSweep cap (st.setQueue queue { fifo := fifo, inFlight := inFlight, pending := none })
        queue t
    | _ => st
  let st := nextArrivals.foldl (fun st q => triggerLocked cap st q .arrival) st
  let st := (sortDedup freed).foldl (runDeferred cap) st
  match st.queues queue with
  | some { fifo := [], inFlight := false, .. } =>
    { st with queues := Function.update st.queues queue none }
  | _ => st

/-- The jobs of a sweep handed out to its batch, then to the rest of the queue. -/
def handOut (st : Waker Job Err) (sweep : Sweep) (jobs : List Job) (read : Nat) :
    Serving Job Err :=
  let served := sweep.batch.foldl (serveOne sweep.queue)
    { hall := st.hall
      jobs := jobs
      cause := none
      nextArrivals := []
      freed := []
      offers := [] }
  match st.queues sweep.queue with
  | some qs => reoffer st.registered sweep.queue read qs.fifo served
  | none => served

/-- The sweep is through: the queue is free again, with what `pending` becomes. -/
def land (st : Waker Job Err) (queue : Queue) (pending : Option Trigger → Option Trigger) :
    Waker Job Err :=
  match st.queues queue with
  | some qs => st.setQueue queue { qs with inFlight := false, pending := pending qs.pending }
  | none => st

def unreserve (st : Waker Job Err) (jobs : List Job) (cause : UnreserveCause) : Waker Job Err :=
  if jobs.isEmpty then st else { st with unreserved := st.unreserved ++ [(cause, jobs)] }

/-- The waiters that a failed sweep ends. -/
def dismiss (st : Waker Job Err) (sweep : Sweep) (error : Err) : Hall Job Err :=
  let failed := sweep.batch.foldl (failOne error) st.hall
  match st.queues sweep.queue with
  | some qs => qs.fifo.foldl (dismissOne st.registered) failed
  | none => failed

def complete (cap : Nat) (st : Waker Job Err) (sweep : Sweep) (read : Nat)
    (outcome : SweepOutcome Job Err) : Waker Job Err :=
  let st := { st with sweeps := st.sweeps.filter (· ≠ sweep) }
  match outcome with
  | .answered jobs =>
    let full := decide (sweep.k ≤ jobs.length)
    let r := handOut st sweep jobs read
    let landed := (st.setHall r.hall).land sweep.queue
      fun pending => if full then pending <|> some .refill else pending
    let followed := landed.followUp cap sweep.queue r.nextArrivals r.freed
    let settled := followed.unreserve r.jobs
      (match r.cause with
        | some e => e.unreserveCause
        | none => .deadline)
    { settled with
      completed := settled.completed ++
        [{ sweep := sweep, outcome := outcome, offers := r.offers, leftovers := r.jobs }] }
  | .failed _ error =>
    let landed := (st.setHall (st.dismiss sweep error)).land sweep.queue fun _ => none
    let followed := landed.followUp cap sweep.queue [] []
    { followed with
      completed := followed.completed ++
        [{ sweep := sweep, outcome := outcome, offers := [], leftovers := [] }] }

/-! ## Polling -/

/-- Whether a waiter of the queue is eligible, as `poll_all` looks for one. -/
def anyEligible (registered : Nat → Bool) (queue : Queue) (now : Nat) :
    List Nat → Hall Job Err → Hall Job Err × Bool
  | [], h => (h, false)
  | id :: rest, h =>
    if registered id then
      let h := h.lock
      if (h.waiter id).eligible (h.slot id) queue now then (h, true)
      else anyEligible registered queue now rest h
    else anyEligible registered queue now rest h

/-- One queue of the walk that collects the queues to poll. -/
def pollOne (now : Nat) (r : Waker Job Err × List Queue) (queue : Queue) :
    Waker Job Err × List Queue :=
  match r.1.queues queue with
  | some { fifo, inFlight := false, .. } =>
    let (h, found) := anyEligible r.1.registered queue now fifo r.1.hall
    (r.1.setHall h, if found then r.2 ++ [queue] else r.2)
  | _ => r

def pollAll (cap : Nat) (st : Waker Job Err) (now : Nat) (order : List Queue) : Waker Job Err :=
  let (st, due) := order.foldl (pollOne now) (st, [])
  due.foldl (fun st q => startSweep cap st q .interval) st

/-! ## Runs -/

inductive Event (Job Err : Type) where
  | bind
  | register (queues : List Queue) (clamp waitEnd hardEnd : Nat)
  | hint (queue : Queue)
  | poll (read : Nat) (order : List Queue)
  | complete (sweep : Sweep) (read : Nat) (outcome : SweepOutcome Job Err)
  | nudge (nudge : Nudge)
  | deregister (id : Nat)
  | handOff (id : Nat) (live : Bool)

/-- The map of queues is walked in some order: each of its queues once. -/
def Walk (st : Waker Job Err) (order : List Queue) : Prop :=
  order.Nodup ∧ (∀ q ∈ order, (st.queues q).isSome) ∧
    ∀ id < st.nextId, ∀ q ∈ (st.hall.waiter id).queues, (st.queues q).isSome → q ∈ order

instance (st : Waker Job Err) (order : List Queue) : Decidable (st.Walk order) := by
  unfold Walk
  infer_instance

/-- A handler that is past its guard answers its request: jobs go to a live session or back. -/
def answer (st : Waker Job Err) (id : Nat) (live : Bool) : WaitOutcome Job Err → Waker Job Err
  | .offer (.jobs mine) =>
    if live then { st with delivered := st.delivered ++ [(id, mine)] }
    else { st.unreserve mine .teardown with handedBack := st.handedBack ++ [(id, mine)] }
  | .offer (.failed _) | .offer .empty | .expired | .cancelled | .teardown | .drained => st

/-- A clock that was read before the waker's lock was taken may be behind. -/
def step (cap : Nat) (before : Waker Job Err) (label : List (List Nudge) × Event Job Err) :
    Option (Waker Job Err) :=
  let st := before.setHall { before.hall with bursts := label.1 }
  match label.2 with
  | .bind => some { st with bound := true }
  | .register queues clamp waitEnd hardEnd =>
    if st.bound then some (st.register cap queues clamp waitEnd hardEnd) else none
  | .hint queue => some (st.triggerLocked cap queue .hint)
  | .poll read order =>
    if read ≤ st.hall.now ∧ st.Walk order then some (st.pollAll cap read order) else none
  | .complete sweep read outcome =>
    if read ≤ st.hall.now ∧ sweep ∈ st.sweeps then some (st.complete cap sweep read outcome)
    else none
  | .nudge nudge => some (st.setHall (st.hall.nudge nudge))
  | .deregister id =>
    match st.hall.handler id with
    | .returned outcome =>
      let left := st.deregister id
      some (left.setHall
        { left.hall with handler := Function.update left.hall.handler id (.leaving outcome) })
    | .waiting _ | .leaving _ | .gone => none
  | .handOff id live =>
    match st.hall.handler id with
    | .leaving outcome =>
      let done := st.setHall
        { st.hall with handler := Function.update st.hall.handler id .gone }
      some (done.answer id live outcome)
    | .waiting _ | .returned _ | .gone => none

def init : Waker Job Err :=
  { bound := false
    nextId := 1
    registered := fun _ => false
    queues := fun _ => none
    hall :=
      { waiter := fun _ => { queues := [], clamp := 1, waitEnd := 0 }
        slot := fun _ => { arrival := 0, busy := false, ended := none, offer := none }
        handler := fun _ => .gone
        now := 0
        bursts := []
        finished := [] }
    sweeps := []
    started := []
    completed := []
    unreserved := []
    delivered := []
    handedBack := [] }

def run (cap : Nat) (st : Waker Job Err) (labels : List (List (List Nudge) × Event Job Err)) :
    Option (Waker Job Err) :=
  LabelledRuns.run (step cap) st labels

end Waker

end FerroEngine.QueueWaker
