import Mathlib.Algebra.Ring.Nat
import Mathlib.Data.List.Perm.Basic
import FerroEngine.LabelledRuns

set_option autoImplicit false

/-! # The byte cap of a session

`SessionCap` and `CapReserve` of `session/flow.rs` with the path of a reservation: a producer of
`send_stream_frame` reserves, the guard travels in a `ControlMsg` through the channel, and the
writer drops it after the write. The drop of a guard subtracts its bytes and wakes every waiter in
two steps.
-/

namespace FerroEngine.SessionCap

open LabelledRuns

/-- A live `CapReserve`. -/
structure Reservation where
  id : Nat
  bytes : Nat
  deriving DecidableEq, Repr

inductive Phase where
  | idle
  | checking (bytes : Nat)
  | registering (bytes : Nat)
  /-- `notified()` remembers how often `notify_waiters` had been called. -/
  | rechecking (bytes seen : Nat)
  | waiting (bytes seen : Nat)
  /-- The message waits for room in the channel. -/
  | sending (r : Reservation)
  deriving DecidableEq, Repr

structure Producer where
  phase : Phase
  cancelled : Bool
  expired : Bool
  deriving DecidableEq, Repr

structure State where
  cap : Nat
  used : Nat
  /-- The calls of `notify_waiters`. -/
  generation : Nat
  /-- Guards that have subtracted their bytes and not yet woken the waiters. -/
  notifying : Nat
  tasks : List Producer
  /-- The control channel; a control frame carries no reservation. -/
  queue : List (Option Reservation)
  slots : Nat
  closed : Bool
  /-- The message that the writer is writing. -/
  writing : Option (Option Reservation)
  /-- Guards whose drop has begun. -/
  dropping : List Reservation
  /-- The reservations made so far. -/
  next : Nat
  released : List Nat
  deriving DecidableEq, Repr

def State.start (cap slots : Nat) : State :=
  { cap := cap, used := 0, generation := 0, notifying := 0, tasks := [], queue := [],
    slots := slots, closed := false, writing := none, dropping := [], next := 0, released := [] }

inductive Label where
  | spawns
  | calls (i bytes : Nat)
  /-- The next step of a producer. -/
  | runs (i : Nat)
  /-- A task is aborted at an await. -/
  | aborts (i : Nat)
  | cancels (i : Nat)
  | expires (i : Nat)
  /-- A control frame is enqueued. -/
  | enqueues
  | takes
  | writes (ok : Bool)
  /-- The writer task is gone. -/
  | stops
  | subtracts (j : Nat)
  | notifies
  deriving DecidableEq, Repr

def u64Bound : Nat := 2 ^ 64

def checkedAdd (a b : Nat) : Option Nat :=
  if a + b < u64Bound then some (a + b) else none

namespace State

def put (s : State) (i : Nat) (t : Producer) : State :=
  { s with tasks := s.tasks.set i t }

/-- `try_reserve`, and where the loop goes when it fails. -/
def reserves (s : State) (i : Nat) (t : Producer) (bytes : Nat) (otherwise : Phase) : State :=
  match checkedAdd s.used bytes with
  | some total =>
    if total ≤ s.cap then
      { s.put i { t with phase := .sending ⟨s.next, bytes⟩ } with
        used := total
        next := s.next + 1 }
    else s.put i { t with phase := otherwise }
  | none => s.put i { t with phase := otherwise }

def drops (s : State) (guards : List Reservation) : State :=
  { s with dropping := guards ++ s.dropping }

/-- The receiver goes, and with it every message in the channel. -/
def closes (s : State) : State :=
  { s with queue := [], closed := true }.drops (s.queue.filterMap id)

end State

def taskStep (s : State) (i : Nat) (t : Producer) : State :=
  match t.phase with
  | .idle => s
  | .checking bytes => s.reserves i t bytes (.registering bytes)
  | .registering bytes => s.put i { t with phase := .rechecking bytes s.generation }
  | .rechecking bytes seen => s.reserves i t bytes (.waiting bytes seen)
  | .waiting bytes seen =>
    -- The two ways to abort win over the notification.
    if t.cancelled || t.expired then s.put i { t with phase := .idle }
    else if seen < s.generation then s.put i { t with phase := .checking bytes }
    else s
  | .sending r =>
    if t.cancelled || t.expired || s.closed then (s.put i { t with phase := .idle }).drops [r]
    else if s.queue.length < s.slots then
      { s.put i { t with phase := .idle } with queue := s.queue ++ [some r] }
    else s

def abortStep (s : State) (i : Nat) (t : Producer) : Option State :=
  match t.phase with
  | .idle | .waiting _ _ => some (s.put i { t with phase := .idle })
  | .sending r => some ((s.put i { t with phase := .idle }).drops [r])
  | _ => none

def step (s : State) : Label → Option State
  | .spawns => some { s with tasks := s.tasks ++ [⟨.idle, false, false⟩] }
  | .calls i bytes =>
    match s.tasks[i]? with
    | some t => if t.phase = .idle then some (s.put i { t with phase := .checking bytes }) else none
    | none => none
  | .runs i => s.tasks[i]?.map (taskStep s i)
  | .aborts i => s.tasks[i]?.bind (abortStep s i)
  | .cancels i => s.tasks[i]?.map fun t => s.put i { t with cancelled := true }
  | .expires i => s.tasks[i]?.map fun t => s.put i { t with expired := true }
  | .enqueues =>
    if !s.closed && decide (s.queue.length < s.slots) then some { s with queue := s.queue ++ [none] }
    else none
  | .takes =>
    match s.queue, s.writing with
    | msg :: rest, none => some { s with queue := rest, writing := some msg }
    | _, _ => none
  | .writes ok =>
    match s.writing with
    | some msg =>
      let s := { s with writing := none }.drops msg.toList
      some (if ok then s else s.closes)
    | none => none
  | .stops => some ({ s with writing := none }.drops (s.writing.bind id).toList).closes
  | .subtracts j =>
    match s.dropping[j]? with
    | some r =>
      some { s with
        used := s.used - r.bytes
        dropping := s.dropping.eraseIdx j
        released := r.id :: s.released
        notifying := s.notifying + 1 }
    | none => none
  | .notifies =>
    if 0 < s.notifying then
      some { s with notifying := s.notifying - 1, generation := s.generation + 1 }
    else none

/-! ## The reservations that are alive -/

def Phase.held : Phase → List Reservation
  | .sending r => [r]
  | _ => []

def heldByTasks (tasks : List Producer) : List Reservation :=
  tasks.flatMap fun t => t.phase.held

/-- Everything outside the tasks. -/
def State.travelling (s : State) : List Reservation :=
  s.queue.filterMap id ++ ((s.writing.bind id).toList ++ s.dropping)

def State.alive (s : State) : List Reservation :=
  heldByTasks s.tasks ++ s.travelling

/-- A task's guards and all the others. -/
theorem heldByTasks_split {tasks : List Producer} {i : Nat} {t : Producer}
    (found : tasks[i]? = some t) :
    ∃ others, (heldByTasks tasks).Perm (t.phase.held ++ others) ∧
      ∀ t' : Producer, (heldByTasks (tasks.set i t')).Perm (t'.phase.held ++ others) := by
  have inside : i < tasks.length := (List.getElem?_eq_some_iff.mp found).1
  have here : tasks[i] = t := (List.getElem?_eq_some_iff.mp found).2
  refine ⟨heldByTasks (tasks.take i) ++ heldByTasks (tasks.drop (i + 1)), ?_, ?_⟩
  · have split : tasks = tasks.take i ++ t :: tasks.drop (i + 1) := by
      rw [← here, List.getElem_cons_drop, List.take_append_drop]
    have whole : heldByTasks tasks =
        heldByTasks (tasks.take i) ++ (t.phase.held ++ heldByTasks (tasks.drop (i + 1))) := by
      conv => lhs; rw [split]
      rw [heldByTasks, List.flatMap_append, List.flatMap_cons]
      rfl
    rw [whole, ← List.append_assoc, ← List.append_assoc]
    exact List.Perm.append_right _ List.perm_append_comm
  · intro t'
    have whole : heldByTasks (tasks.set i t') =
        heldByTasks (tasks.take i) ++ (t'.phase.held ++ heldByTasks (tasks.drop (i + 1))) := by
      rw [List.set_eq_take_append_cons_drop, if_pos inside, heldByTasks, List.flatMap_append,
        List.flatMap_cons]
      rfl
    rw [whole, ← List.append_assoc, ← List.append_assoc]
    exact List.Perm.append_right _ List.perm_append_comm

theorem alive_count (s : State) (r : Reservation) :
    s.alive.count r = (heldByTasks s.tasks).count r + ((s.queue.filterMap id).count r +
      ((s.writing.bind id).toList.count r + s.dropping.count r)) := by
  rw [State.alive, State.travelling, List.count_append, List.count_append, List.count_append]

/-! ## Steps -/

/-- Reservations only change their place. -/
structure Moved (s t : State) : Prop where
  cap : t.cap = s.cap
  used : t.used = s.used
  next : t.next = s.next
  released : t.released = s.released
  alive : ∀ r, t.alive.count r = s.alive.count r

/-- A reservation is made. -/
structure Made (s t : State) (bytes : Nat) : Prop where
  cap : t.cap = s.cap
  fits : s.used + bytes ≤ s.cap
  used : t.used = s.used + bytes
  next : t.next = s.next + 1
  released : t.released = s.released
  alive : ∀ r, t.alive.count r = [⟨s.next, bytes⟩].count r + s.alive.count r

/-- A reservation is given back. -/
structure Freed (s t : State) (freed : Reservation) : Prop where
  cap : t.cap = s.cap
  used : t.used = s.used - freed.bytes
  next : t.next = s.next
  released : t.released = freed.id :: s.released
  alive : ∀ r, s.alive.count r = [freed].count r + t.alive.count r

theorem heldByTasks_count {tasks : List Producer} {i : Nat} {t : Producer}
    (found : tasks[i]? = some t) (t' : Producer) (r : Reservation) :
    (heldByTasks (tasks.set i t')).count r + t.phase.held.count r =
      (heldByTasks tasks).count r + t'.phase.held.count r := by
  obtain ⟨others, before, after⟩ := heldByTasks_split found
  have first := before.count_eq r
  have second := (after t').count_eq r
  rw [List.count_append] at first second
  omega

theorem moved_put {s : State} {i : Nat} {t : Producer} (found : s.tasks[i]? = some t) {t' : Producer}
    (same : t'.phase.held = t.phase.held) : Moved s (s.put i t') := by
  refine ⟨rfl, rfl, rfl, rfl, ?_⟩
  intro r
  have held := heldByTasks_count found t' r
  rw [same] at held
  rw [alive_count, alive_count]
  dsimp only [State.put]
  omega

/-- A guard goes from its task into the channel or into its drop. -/
theorem moved_leaves {s : State} {i : Nat} {t : Producer} {guard : Reservation}
    (found : s.tasks[i]? = some t) (sending : t.phase = .sending guard)
    (queue : List (Option Reservation)) (dropping : List Reservation)
    (moved : ∀ r, (queue.filterMap id).count r + dropping.count r =
      [guard].count r + ((s.queue.filterMap id).count r + s.dropping.count r)) :
    Moved s { s.put i { t with phase := .idle } with queue := queue, dropping := dropping } := by
  refine ⟨rfl, rfl, rfl, rfl, ?_⟩
  intro r
  have held := heldByTasks_count found { t with phase := .idle } r
  have here := moved r
  rw [sending] at held
  dsimp only [Phase.held] at held
  rw [List.count_nil] at held
  rw [alive_count, alive_count]
  dsimp only [State.put]
  omega

theorem reserves_effect {s : State} {i : Nat} {t : Producer} (found : s.tasks[i]? = some t)
    (free : t.phase.held = []) (bytes : Nat) (otherwise : Phase) (empty : otherwise.held = []) :
    Made s (s.reserves i t bytes otherwise) bytes ∨
      (s.reserves i t bytes otherwise = s.put i { t with phase := otherwise } ∧
        Moved s (s.reserves i t bytes otherwise)) := by
  have moved : Moved s (s.put i { t with phase := otherwise }) :=
    moved_put found (by rw [free]; exact empty)
  rw [State.reserves]
  split
  · rename_i total sum
    have exact' : total = s.used + bytes := by
      rw [checkedAdd] at sum
      split at sum
      · cases sum
        rfl
      · cases sum
    split
    · rename_i fits
      left
      refine ⟨rfl, exact' ▸ fits, exact', rfl, rfl, ?_⟩
      intro r
      have held := heldByTasks_count found { t with phase := .sending ⟨s.next, bytes⟩ } r
      rw [free] at held
      dsimp only [Phase.held] at held
      rw [List.count_nil] at held
      rw [alive_count, alive_count]
      dsimp only [State.put]
      omega
    · exact .inr ⟨rfl, moved⟩
  · exact .inr ⟨rfl, moved⟩

theorem moved_refl (s : State) : Moved s s :=
  ⟨rfl, rfl, rfl, rfl, fun _ => rfl⟩

theorem taskStep_effect {s : State} {i : Nat} {t : Producer} (found : s.tasks[i]? = some t) :
    Moved s (taskStep s i t) ∨ ∃ bytes, Made s (taskStep s i t) bytes := by
  rw [taskStep]
  split
  · exact .inl (moved_refl s)
  · rename_i bytes checking
    have free : t.phase.held = [] := by rw [checking]; rfl
    rcases reserves_effect found free bytes (.registering bytes) rfl with made | ⟨-, moved⟩
    · exact .inr ⟨bytes, made⟩
    · exact .inl moved
  · rename_i bytes registering
    exact .inl (moved_put found (by rw [registering]; rfl))
  · rename_i bytes seen rechecking
    have free : t.phase.held = [] := by rw [rechecking]; rfl
    rcases reserves_effect found free bytes (.waiting bytes seen) rfl with made | ⟨-, moved⟩
    · exact .inr ⟨bytes, made⟩
    · exact .inl moved
  · rename_i bytes seen waiting
    left
    split
    · exact moved_put found (by rw [waiting]; rfl)
    split
    · exact moved_put found (by rw [waiting]; rfl)
    · exact moved_refl s
  · rename_i guard sending
    left
    split
    · refine moved_leaves found sending s.queue ([guard] ++ s.dropping) ?_
      intro r
      rw [List.count_append]
      omega
    split
    · refine moved_leaves found sending (s.queue ++ [some guard]) s.dropping ?_
      intro r
      rw [List.filterMap_append, List.count_append]
      have single : [some guard].filterMap id = [guard] := rfl
      rw [single]
      omega
    · exact moved_refl s

theorem abortStep_moved {s u : State} {i : Nat} {t : Producer} (found : s.tasks[i]? = some t)
    (taken : abortStep s i t = some u) : Moved s u := by
  rw [abortStep] at taken
  split at taken
  · rename_i idle
    cases taken
    exact moved_put found (by rw [idle])
  · rename_i waiting
    cases taken
    exact moved_put found (by rw [waiting]; rfl)
  · rename_i guard sending
    cases taken
    refine moved_leaves found sending s.queue ([guard] ++ s.dropping) ?_
    intro r
    rw [List.count_append]
    omega
  · cases taken

/-- The channel, the writer and the drops exchange guards. -/
theorem moved_travels {s : State} (queue : List (Option Reservation))
    (writing : Option (Option Reservation)) (dropping : List Reservation) (closed : Bool)
    (moved : ∀ r, (queue.filterMap id).count r +
        ((writing.bind id).toList.count r + dropping.count r) =
      (s.queue.filterMap id).count r +
        ((s.writing.bind id).toList.count r + s.dropping.count r)) :
    Moved s
      { s with
        queue := queue
        writing := writing
        dropping := dropping
        closed := closed } := by
  refine ⟨rfl, rfl, rfl, rfl, ?_⟩
  intro r
  rw [alive_count, alive_count, ← moved r]

theorem filterMap_cons_count (msg : Option Reservation) (rest : List (Option Reservation))
    (r : Reservation) :
    ((msg :: rest).filterMap id).count r = msg.toList.count r + (rest.filterMap id).count r := by
  cases msg with
  | none => simp
  | some guard =>
    have first : (some guard :: rest).filterMap id = [guard] ++ rest.filterMap id := rfl
    rw [first, List.count_append]
    rfl

/-- Everything that a step can do to the reservations. -/
theorem step_effect {s t : State} {a : Label} (taken : step s a = some t) :
    Moved s t ∨ (∃ bytes, Made s t bytes) ∨ ∃ r, Freed s t r := by
  cases a with
  | spawns =>
    cases taken
    refine .inl ⟨rfl, rfl, rfl, rfl, ?_⟩
    intro r
    have held : heldByTasks (s.tasks ++ [⟨.idle, false, false⟩]) = heldByTasks s.tasks := by
      simp [heldByTasks, Phase.held]
    rw [alive_count, alive_count, held]
  | calls i bytes =>
    rw [step] at taken
    split at taken
    · rename_i task found
      split at taken
      · rename_i idle
        cases taken
        exact .inl (moved_put found (by rw [idle]; rfl))
      · cases taken
    · cases taken
  | runs i =>
    obtain ⟨task, found, rfl⟩ := Option.map_eq_some_iff.mp taken
    rcases taskStep_effect found with moved | made
    · exact .inl moved
    · exact .inr (.inl made)
  | aborts i =>
    obtain ⟨task, found, taken⟩ := Option.bind_eq_some_iff.mp taken
    exact .inl (abortStep_moved found taken)
  | cancels i =>
    obtain ⟨task, found, rfl⟩ := Option.map_eq_some_iff.mp taken
    exact .inl (moved_put found rfl)
  | expires i =>
    obtain ⟨task, found, rfl⟩ := Option.map_eq_some_iff.mp taken
    exact .inl (moved_put found rfl)
  | enqueues =>
    rw [step] at taken
    split at taken
    · cases taken
      refine .inl (moved_travels (s.queue ++ [none]) s.writing s.dropping s.closed ?_)
      intro r
      rw [List.filterMap_append, List.filterMap_cons_none rfl, List.filterMap_nil, List.append_nil]
    · cases taken
  | takes =>
    rw [step] at taken
    split at taken
    · rename_i msg rest queue writing
      cases taken
      refine .inl (moved_travels rest (some msg) s.dropping s.closed ?_)
      intro r
      rw [queue, writing, filterMap_cons_count]
      dsimp only [Option.bind_some, Option.bind_none, id, Option.toList]
      rw [List.count_nil]
      omega
    · cases taken
  | writes ok =>
    rw [step] at taken
    split at taken
    · rename_i msg writing
      cases taken
      left
      cases ok with
      | true =>
        refine moved_travels s.queue none (msg.toList ++ s.dropping) s.closed ?_
        intro r
        rw [writing, List.count_append]
        dsimp only [Option.bind_some, Option.bind_none, id, Option.toList]
        rw [List.count_nil]
        omega
      | false =>
        refine moved_travels [] none (s.queue.filterMap id ++ (msg.toList ++ s.dropping)) true ?_
        intro r
        rw [writing, List.count_append, List.count_append]
        dsimp only [Option.bind_some, Option.bind_none, id, Option.toList, List.filterMap_nil]
        rw [List.count_nil]
        omega
    · cases taken
  | stops =>
    cases taken
    refine .inl (moved_travels [] none
      (s.queue.filterMap id ++ ((s.writing.bind id).toList ++ s.dropping)) true ?_)
    intro r
    rw [List.count_append, List.count_append]
    dsimp only [Option.bind_none, Option.toList, List.filterMap_nil]
    rw [List.count_nil]
    omega
  | subtracts j =>
    rw [step] at taken
    split at taken
    · rename_i guard found
      cases taken
      refine .inr (.inr ⟨guard, rfl, rfl, rfl, rfl, ?_⟩)
      intro r
      have inside := (List.getElem?_eq_some_iff.mp found).1
      have here := (List.getElem?_eq_some_iff.mp found).2
      have erased := (List.getElem_cons_eraseIdx_perm inside).count_eq r
      rw [here, ← List.singleton_append, List.count_append] at erased
      rw [alive_count, alive_count]
      dsimp only
      omega
    · cases taken
  | notifies =>
    rw [step] at taken
    split at taken
    · cases taken
      exact .inl ⟨rfl, rfl, rfl, rfl, fun _ => rfl⟩
    · cases taken

/-! ## The ledger -/

/-- The counter is what is alive, and every reservation ever made is alive or released, once. -/
structure Ledger (s : State) : Prop where
  used : s.used = (s.alive.map Reservation.bytes).sum
  capped : s.used ≤ s.cap
  once : (s.alive.map Reservation.id ++ s.released).Perm (List.range s.next)

theorem perm_of_count {l l' : List Reservation} (same : ∀ r, l.count r = l'.count r) :
    l.Perm l' :=
  List.perm_iff_count.mpr same

theorem step_ledger {s t : State} {a : Label} (inv : Ledger s) (taken : step s a = some t) :
    Ledger t := by
  obtain ⟨used, capped, once⟩ := inv
  rcases step_effect taken with moved | ⟨bytes, made⟩ | ⟨r, freed⟩
  · have perm := perm_of_count moved.alive
    refine ⟨?_, ?_, ?_⟩
    · rw [moved.used, used, (perm.map Reservation.bytes).sum_nat]
    · rw [moved.used, moved.cap]
      exact capped
    · rw [moved.released, moved.next]
      exact ((perm.map Reservation.id).append_right s.released).trans once
  · have perm : t.alive.Perm (⟨s.next, bytes⟩ :: s.alive) := by
      apply perm_of_count
      intro r
      rw [made.alive, ← List.count_append]
      rfl
    refine ⟨?_, ?_, ?_⟩
    · rw [made.used, used, (perm.map Reservation.bytes).sum_nat, List.map_cons, List.sum_cons]
      exact Nat.add_comm _ _
    · rw [made.used, made.cap]
      exact made.fits
    · rw [made.released, made.next, List.range_succ]
      have ids := (perm.map Reservation.id).append_right s.released
      rw [List.map_cons, List.cons_append] at ids
      exact ids.trans ((once.cons s.next).trans (List.perm_append_singleton _ _).symm)
  · have perm : s.alive.Perm (r :: t.alive) := by
      apply perm_of_count
      intro r'
      rw [freed.alive, ← List.count_append]
      rfl
    have sum := (perm.map Reservation.bytes).sum_nat
    rw [List.map_cons, List.sum_cons] at sum
    refine ⟨?_, ?_, ?_⟩
    · rw [freed.used, used, sum]
      omega
    · rw [freed.used, freed.cap]
      omega
    · rw [freed.released, freed.next]
      have ids := (perm.map Reservation.id).append_right s.released
      rw [List.map_cons, List.cons_append] at ids
      exact List.perm_middle.trans (ids.symm.trans once)

/-! ## No lost wake-up -/

/-- A waiter whose request fits has been woken or has a wake-up coming. -/
def PhaseAwake (s : State) : Phase → Prop
  | .rechecking _ seen => seen ≤ s.generation
  | .waiting bytes seen =>
    seen ≤ s.generation ∧ (s.used + bytes ≤ s.cap → seen < s.generation ∨ 0 < s.notifying)
  | _ => True

def Awake (s : State) : Prop :=
  s.cap < u64Bound ∧ ∀ t ∈ s.tasks, PhaseAwake s t.phase

/-- Reserving more keeps every waiter's guarantee. -/
theorem awake_keeps {s t : State} (inv : Awake s) (cap : t.cap = s.cap)
    (generation : t.generation = s.generation) (notifying : t.notifying = s.notifying)
    (used : s.used ≤ t.used) (tasks : ∀ x ∈ t.tasks, x ∈ s.tasks ∨ PhaseAwake t x.phase) :
    Awake t := by
  refine ⟨cap ▸ inv.1, ?_⟩
  intro x member
  rcases tasks x member with old | new
  · have before := inv.2 x old
    cases phase : x.phase with
    | rechecking bytes seen =>
      rw [phase] at before
      rw [PhaseAwake, generation]
      exact before
    | waiting bytes seen =>
      rw [phase] at before
      refine ⟨generation ▸ before.1, ?_⟩
      intro fits
      rw [generation, notifying]
      exact before.2 (by omega)
    | _ => trivial
  · exact new

theorem awake_put {s : State} (inv : Awake s) (i : Nat) {t : Producer}
    (new : PhaseAwake s t.phase) : Awake (s.put i t) := by
  refine awake_keeps inv rfl rfl rfl (Nat.le_refl _) ?_
  intro x member
  rcases List.mem_or_eq_of_mem_set member with old | rfl
  · exact .inl old
  · exact .inr new

theorem checkedAdd_fits {s : State} {bytes : Nat} (width : s.cap < u64Bound)
    (fits : s.used + bytes ≤ s.cap) : checkedAdd s.used bytes = some (s.used + bytes) := by
  rw [checkedAdd, if_pos (by omega)]

theorem awake_reserves {s : State} (inv : Awake s) (i : Nat) (t : Producer) (bytes : Nat)
    (otherwise : Phase)
    (fails : ¬ s.used + bytes ≤ s.cap → PhaseAwake s otherwise) :
    Awake (s.reserves i t bytes otherwise) := by
  by_cases fits : s.used + bytes ≤ s.cap
  · rw [State.reserves, checkedAdd_fits inv.1 fits]
    dsimp only
    rw [if_pos fits]
    refine awake_keeps inv rfl rfl rfl (Nat.le_add_right _ _) ?_
    intro x member
    rcases List.mem_or_eq_of_mem_set member with old | rfl
    · exact .inl old
    · exact .inr trivial
  · have waits : s.reserves i t bytes otherwise = s.put i { t with phase := otherwise } := by
      rw [State.reserves]
      split
      · rename_i total sum
        rw [checkedAdd] at sum
        split at sum
        · cases sum
          rw [if_neg fits]
        · cases sum
      · rfl
    rw [waits]
    exact awake_put inv i (fails fits)

theorem taskStep_awake {s : State} {i : Nat} {t : Producer} (inv : Awake s)
    (found : s.tasks[i]? = some t) : Awake (taskStep s i t) := by
  have here := inv.2 t (List.mem_of_getElem? found)
  rw [taskStep]
  split
  · exact inv
  · exact awake_reserves inv i t _ _ fun _ => trivial
  · exact awake_put inv i (Nat.le_refl _)
  · rename_i bytes seen rechecking
    rw [rechecking] at here
    exact awake_reserves inv i t _ _ fun full => ⟨here, fun fits => absurd fits full⟩
  · split
    · exact awake_put inv i trivial
    split
    · exact awake_put inv i trivial
    · exact inv
  · split
    · exact awake_put inv i trivial
    split
    · exact awake_put inv i trivial
    · exact inv

theorem step_awake {s t : State} {a : Label} (inv : Awake s) (taken : step s a = some t) :
    Awake t := by
  have same : ∀ {u : State}, u.cap = s.cap → u.generation = s.generation →
      u.notifying = s.notifying → u.used = s.used → u.tasks = s.tasks → Awake u := by
    intro u cap generation notifying used tasks
    refine awake_keeps inv cap generation notifying (Nat.le_of_eq used.symm) ?_
    intro x member
    exact .inl (tasks ▸ member)
  cases a with
  | spawns =>
    cases taken
    refine awake_keeps inv rfl rfl rfl (Nat.le_refl _) ?_
    intro x member
    rcases List.mem_append.mp member with old | new
    · exact .inl old
    · rw [List.mem_singleton.mp new]
      exact .inr trivial
  | calls i bytes =>
    rw [step] at taken
    split at taken
    · split at taken
      · cases taken
        exact awake_put inv i trivial
      · cases taken
    · cases taken
  | runs i =>
    obtain ⟨task, found, rfl⟩ := Option.map_eq_some_iff.mp taken
    exact taskStep_awake inv found
  | aborts i =>
    obtain ⟨task, found, taken⟩ := Option.bind_eq_some_iff.mp taken
    rw [abortStep] at taken
    split at taken
    · cases taken
      exact awake_put inv i trivial
    · cases taken
      exact awake_put inv i trivial
    · cases taken
      exact awake_put inv i trivial
    · cases taken
  | cancels i =>
    obtain ⟨task, found, rfl⟩ := Option.map_eq_some_iff.mp taken
    exact awake_put inv i (inv.2 task (List.mem_of_getElem? found))
  | expires i =>
    obtain ⟨task, found, rfl⟩ := Option.map_eq_some_iff.mp taken
    exact awake_put inv i (inv.2 task (List.mem_of_getElem? found))
  | enqueues =>
    rw [step] at taken
    split at taken
    · cases taken
      exact same rfl rfl rfl rfl rfl
    · cases taken
  | takes =>
    rw [step] at taken
    split at taken
    · cases taken
      exact same rfl rfl rfl rfl rfl
    · cases taken
  | writes ok =>
    rw [step] at taken
    split at taken
    · cases taken
      cases ok
      · exact same rfl rfl rfl rfl rfl
      · exact same rfl rfl rfl rfl rfl
    · cases taken
  | stops =>
    cases taken
    exact same rfl rfl rfl rfl rfl
  | subtracts j =>
    rw [step] at taken
    split at taken
    · cases taken
      refine ⟨inv.1, ?_⟩
      intro x member
      have before := inv.2 x member
      cases phase : x.phase with
      | rechecking bytes seen =>
        rw [phase] at before
        exact before
      | waiting bytes seen =>
        rw [phase] at before
        exact ⟨before.1, fun _ => .inr (Nat.succ_pos _)⟩
      | _ => trivial
    · cases taken
  | notifies =>
    rw [step] at taken
    split at taken
    · cases taken
      refine ⟨inv.1, ?_⟩
      intro x member
      have before := inv.2 x member
      cases phase : x.phase with
      | rechecking bytes seen =>
        rw [phase] at before
        exact Nat.le_succ_of_le before
      | waiting bytes seen =>
        rw [phase] at before
        exact ⟨Nat.le_succ_of_le before.1, fun _ => .inl (Nat.lt_succ_of_le before.1)⟩
      | _ => trivial
    · cases taken

/-! ## Runs -/

/-- The counter is the sum of the live reservations and within the cap, every reservation is alive
or was released exactly once, and a waiter whose request fits has a wake-up coming. -/
theorem sessionCap_safe {cap slots : Nat} {labels : List Label} {s : State}
    (width : cap < u64Bound) (reached : run step (.start cap slots) labels = some s) :
    Ledger s ∧ ∀ (i : Nat) (t : Producer) (bytes seen : Nat), s.tasks[i]? = some t →
      t.phase = .waiting bytes seen → s.used + bytes ≤ s.cap →
        seen < s.generation ∨ 0 < s.notifying := by
  have ledger : Ledger s := by
    refine run_always step (fun inv taken => step_ledger inv taken) ?_ reached
    exact ⟨rfl, Nat.zero_le _, .refl _⟩
  have awake : Awake s := by
    refine run_always step (fun inv taken => step_awake inv taken) ?_ reached
    exact ⟨width, fun t member => absurd member List.not_mem_nil⟩
  refine ⟨ledger, ?_⟩
  intro i t bytes seen found waiting fits
  have here := awake.2 t (List.mem_of_getElem? found)
  rw [waiting] at here
  exact here.2 fits

/-- One stream holds the whole cap in the channel, another waits, and the writer has just freed
it. -/
def handover : List Label :=
  [.spawns, .spawns, .calls 0 4, .runs 0, .runs 0, .calls 1 3, .runs 1, .runs 1, .runs 1, .takes,
    .writes true, .subtracts 0]

def handedOver : State :=
  { State.start 4 1 with
    notifying := 1
    tasks := [⟨.idle, false, false⟩, ⟨.waiting 3 0, false, false⟩]
    next := 1
    released := [0] }

theorem sessionCap_safe_handover :
    run step (.start 4 1) handover = some handedOver ∧ Ledger handedOver ∧
      (0 < handedOver.generation ∨ 0 < handedOver.notifying) := by
  have width : 4 < u64Bound := by decide
  have reached : run step (.start 4 1) handover = some handedOver := by decide
  obtain ⟨ledger, coming⟩ := sessionCap_safe width reached
  exact ⟨reached, ledger, coming 1 ⟨.waiting 3 0, false, false⟩ 3 0 rfl rfl (by decide)⟩

end FerroEngine.SessionCap
