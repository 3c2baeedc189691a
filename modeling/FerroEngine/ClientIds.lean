import FerroEngine.LabelledRuns

set_option autoImplicit false

/-! # The request ids of the PHP session

`RequestIdAllocator.php` and the maps of `Session.php` that an id moves between: `inFlight`,
`inbox`, `discarded` and `probeRid`. A destructor or another Fiber may act between any two steps, so the
steps come in any order; which frames arrive is up to the run.
-/

namespace FerroEngine.ClientIds

/-! ## The allocator -/

/-- `RequestIdAllocator::next`, the id and the new `last` at once. -/
def nextId (last : Int) : Nat :=
  let masked := ((last + 1) % 4294967296).toNat
  if masked = 0 then 1 else masked

/-- How many ids there are. -/
def idCount : Nat := 4294967295

/-! ## The session -/

structure Frame where
  requestId : Nat
  isEnd : Bool
  /-- The service is CORE and the method PONG. -/
  isPong : Bool
  deriving DecidableEq, Repr

/-- What a frame with a fresh id asks for. -/
inductive Kind where
  | request
  | ping
  /-- The PING of `onSilence`. -/
  | probe
  deriving DecidableEq, Repr

/-- The frame that is being written. -/
inductive Writing where
  | fresh (id : Nat) (kind : Kind)
  /-- WINDOW_UPDATE, CANCEL, GOODBYE or data, under an id that was there before. -/
  | control
  deriving DecidableEq, Repr

structure Session where
  last : Int
  maxInFlight : Nat
  inFlight : List Nat
  /-- `$this->inbox[$id] ?? []`; an empty list is unset. -/
  inbox : Nat → List Frame
  discarded : List Nat
  probeRid : Option Nat
  writing : Option Writing
  poisoned : Bool
  fatal : Bool
  /-- The calls of `ping` that wait for their PONG. -/
  pings : List Nat

/-- `unset($map[$id])`. -/
def unset (map : List Nat) (id : Nat) : List Nat := map.filter fun other => other ≠ id

namespace Session

def start (last : Int) (maxInFlight : Nat) : Session :=
  { last := last
    maxInFlight := maxInFlight
    inFlight := []
    inbox := fun _ => []
    discarded := []
    probeRid := none
    writing := none
    poisoned := false
    fatal := false
    pings := [] }

def dead (s : Session) : Bool := s.poisoned || s.fatal

def poison (s : Session) : Session := { s with poisoned := true }

def isPending (s : Session) (id : Nat) : Bool :=
  (s.inFlight.contains id || !(s.inbox id).isEmpty) && !s.discarded.contains id

/-- The condition of the loop of `nextFreeId`. -/
def taken (s : Session) (id : Nat) : Bool := s.isPending id || s.probeRid == some id

def search (s : Session) : Nat → Int → Option Nat
  | 0, _ => none
  | fuel + 1, last =>
    let id := nextId last
    if s.taken id then s.search fuel id else some id

/-- `nextFreeId`; with every id taken its loop goes round for ever. -/
def nextFreeId (s : Session) : Option Nat := s.search idCount s.last

/-- `$this->inbox[$id] = $queue`. -/
def setInbox (s : Session) (id : Nat) (queue : List Frame) : Session :=
  { s with inbox := fun other => if other = id then queue else s.inbox other }

def route (s : Session) (f : Frame) : Session :=
  if s.probeRid = some f.requestId then
    if f.isPong ∧ ¬f.isEnd then { s with probeRid := none } else s.poison
  else if f.requestId = 0 then { s with fatal := true }
  else if s.discarded.contains f.requestId then
    if f.isEnd then
      { s with
        discarded := unset s.discarded f.requestId
        inFlight := unset s.inFlight f.requestId }
    else s
  else if s.inFlight.contains f.requestId then
    let s := if f.isEnd then { s with inFlight := unset s.inFlight f.requestId } else s
    s.setInbox f.requestId (s.inbox f.requestId ++ [f])
  else s.poison

def discard (s : Session) (id : Nat) : Session :=
  let s := s.setInbox id []
  if s.inFlight.contains id then { s with discarded := id :: s.discarded } else s

/-- `writeFrame` with a fresh id, up to the write. -/
def begins (s : Session) (id : Nat) (kind : Kind) : Session :=
  let s := { s with last := id }
  if s.dead || s.writing.isSome then s else { s with writing := some (.fresh id kind) }

/-- The write is over: the id is recorded. -/
def completes (s : Session) : Writing → Session
  | .control => { s with writing := none }
  | .fresh id .request =>
    { s with
      writing := none
      inFlight := id :: s.inFlight }
  | .fresh id .ping =>
    { s with
      writing := none
      inFlight := id :: s.inFlight
      pings := id :: s.pings }
  | .fresh id .probe =>
    { s with
      writing := none
      probeRid := some id }

end Session

/-! ## The requests that are not over -/

/-- The session and, beside it, what the ids stand for. -/
structure World where
  session : Session
  /-- The frames that were written whole and whose final frame has not been read. -/
  unread : List (Nat × Kind)
  /-- Those whose final frame was read and waits for its awaiter. -/
  unclaimed : List (Nat × Kind)
  /-- The ids that their awaiter gave up. -/
  abandoned : List Nat

def World.start (last : Int) (maxInFlight : Nat) : World :=
  { session := .start last maxInFlight
    unread := []
    unclaimed := []
    abandoned := [] }

/-- A terminal, or the PONG of a PING. -/
def Kind.final (kind : Kind) (f : Frame) : Bool := f.isEnd || (kind != .request && f.isPong)

namespace World

/-- The final frame under the id has not been read or not been consumed. -/
def Outstanding (w : World) (id : Nat) : Prop :=
  ∃ kind, (id, kind) ∈ w.unread ∨ (id, kind) ∈ w.unclaimed

/-- Whether the frame is the final one of the request. -/
def ends (f : Frame) (p : Nat × Kind) : Bool := p.1 = f.requestId && p.2.final f

/-- A frame was read. A probe has no awaiter. -/
def reads (w : World) (f : Frame) : World :=
  { w with
    unread := w.unread.filter fun p => !ends f p
    unclaimed := (w.unread.filter fun p => ends f p && p.2 != .probe &&
      !w.abandoned.contains p.1) ++ w.unclaimed }

/-- The awaiter took a frame. -/
def takes (w : World) (f : Frame) : World :=
  { w with unclaimed := w.unclaimed.filter fun p => !ends f p }

/-- The awaiter was told that the final frame is lost with the session. -/
def loses (w : World) (id : Nat) : World :=
  { w with unread := w.unread.filter fun p => p.1 ≠ id }

def givesUp (w : World) (id : Nat) : World :=
  { w with
    unclaimed := w.unclaimed.filter fun p => p.1 ≠ id
    abandoned := id :: w.abandoned }

def writes (w : World) : Writing → World
  | .control => w
  | .fresh id kind =>
    { w with
      unread := (id, kind) :: w.unread
      abandoned := unset w.abandoned id }

end World

/-! ## The steps -/

inductive Label where
  /-- `submitFrame` with a free slot. -/
  | submits
  /-- `ping`. -/
  | pings
  /-- `onSilence`; `late` when the PING before was not answered in time. -/
  | silence (late : Bool)
  | controls
  /-- The frame was written to its last byte. -/
  | written
  | received (f : Frame)
  /-- `nextFrameFor`, for `awaitTerminal` or for the frames of a stream. -/
  | awaits (id : Nat) (terminal : Bool)
  /-- `nextFrameFor` inside `ping`. -/
  | pongs (id : Nat)
  | discards (id : Nat)
  /-- A failure of the transport, a desync or a deadline. -/
  | fails
  | closes
  deriving DecidableEq, Repr

open World in
/-- `nextFrameFor` and what the caller does with the session; `none` while it has to read. -/
def nextFrameFor (w : World) (id : Nat) (after : Session → Frame → Session) : Option World :=
  let s := w.session
  match s.inbox id with
  | f :: queue => some { w.takes f with session := after (s.setInbox id queue) f }
  | [] =>
    if s.inFlight.contains id then
      if s.poisoned then
        some { w.loses id with session := { s with inFlight := unset s.inFlight id } }
      else none
    else some w

def World.ids (w : World) (session : Session) : World := { w with session := session }

def step (w : World) : Label → Option World :=
  let s := w.session
  fun
  | .submits =>
    if s.dead then some w
    else if s.inFlight.length < s.maxInFlight then
      s.nextFreeId.map fun id => w.ids (s.begins id .request)
    else none
  | .pings => s.nextFreeId.map fun id => w.ids (s.begins id .ping)
  | .silence late =>
    if s.writing.isSome then some w
    else if s.fatal then some (w.ids s.poison)
    else if s.probeRid.isSome then some (w.ids (if late then s.poison else s))
    else s.nextFreeId.map fun id => w.ids (s.begins id .probe)
  | .controls =>
    if s.dead || s.writing.isSome then some w
    else some (w.ids { s with writing := some .control })
  | .written =>
    if s.poisoned then none
    else s.writing.map fun frame => (w.writes frame).ids (s.completes frame)
  | .received f => if s.poisoned then none else some ((w.reads f).ids (s.route f))
  | .awaits id terminal =>
    -- The id of a PING never leaves `ping`.
    if s.pings.contains id then none
    else nextFrameFor w id fun s f => if terminal ∧ ¬f.isEnd then s.poison else s
  | .pongs id =>
    if s.pings.contains id then
      (nextFrameFor w id fun s _ => { s with inFlight := unset s.inFlight id }).map fun w =>
        w.ids { w.session with pings := unset w.session.pings id }
    else none
  | .discards id =>
    if s.pings.contains id then none else some ((w.givesUp id).ids (s.discard id))
  | .fails => some (w.ids { s.poison with writing := none })
  | .closes => some (w.ids { s.poison with last := nextId s.last })

end FerroEngine.ClientIds
