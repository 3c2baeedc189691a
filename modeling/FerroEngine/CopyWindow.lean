import FerroEngine.CopyFate
import FerroEngine.LabelledRuns

set_option autoImplicit false

/-! # The receive window of a COPY

The handler of `services/copy.rs` with a client that sends only within its credit. A grant is in
the engine's books before its `WINDOW_UPDATE` is on the wire; frames of both directions are under
way for a while.
-/

namespace FerroEngine.CopyWindow

open LabelledRuns InboundChannel CopyIn

structure System where
  engine : CopyIn.State
  /-- In the engine's books and not yet on the wire. -/
  owed : Credit
  /-- Grants under way to the client, oldest first. -/
  wire : List Credit
  /-- What the client may still send. -/
  client : Credit
  started : Bool
  /-- The client has sent its COPY_DONE. -/
  finished : Bool
  /-- Frames under way to the engine, oldest first. -/
  inFlight : List Inbound

def System.start (req : CopyRequests.CopyRequest) (window : Credit) : System :=
  { engine := .start req window, owed := ⟨0, 0⟩, wire := [], client := ⟨0, 0⟩, started := false,
    finished := false, inFlight := [] }

inductive Label where
  | handler (label : CopyIn.Label)
  /-- The reader loop routes the client's next frame. -/
  | arrives
  /-- The client reads the next grant. -/
  | hears
  | sends (chunk : List UInt8)
  | sendsDone

/-- The grant that a step of the handler has entered into the books. -/
def due (before after : CopyIn.State) : Credit :=
  match before.point, after.point with
  | .opening _, .granting => before.window
  | .sending chunk, .regranting =>
    match (before.regrant.consumed chunk.length).2 with
    | some (frames, bytes) => ⟨frames, bytes⟩
    | none => ⟨0, 0⟩
  | _, _ => ⟨0, 0⟩

def sent : CopyIn.Label → Credit → List Credit
  | .grants true, owed => [owed]
  | _, _ => []

def step (s : System) : Label → Option System
  | .handler label =>
    (handlerStep s.engine label).map fun e =>
      { s with engine := e, owed := due s.engine e, wire := s.wire ++ sent label s.owed }
  | .arrives =>
    match s.inFlight with
    | item :: rest =>
      if s.engine.reading then some { s with engine := readerStep s.engine item, inFlight := rest }
      else none
    | [] => none
  | .hears =>
    match s.wire with
    | grant :: rest =>
      some { s with
        wire := rest
        started := true
        client := ⟨s.client.frames + grant.frames, s.client.bytes + grant.bytes⟩ }
    | [] => none
  | .sends chunk =>
    if s.finished = false ∧ 0 < s.client.frames ∧ chunk.length ≤ s.client.bytes then
      some { s with
        client := ⟨s.client.frames - 1, s.client.bytes - chunk.length⟩
        inFlight := s.inFlight ++ [.data chunk] }
    else none
  | .sendsDone =>
    if s.started = true ∧ s.finished = false then
      some { s with finished := true, inFlight := s.inFlight ++ [.done] }
    else none

/-! ## Sums -/

def itemFrames : Inbound → Nat
  | .data _ => 1
  | .done => 0

def itemBytes : Inbound → Nat
  | .data chunk => chunk.length
  | .done => 0

def framesOf (items : List Inbound) : Nat := (items.map itemFrames).sum

def bytesOf (items : List Inbound) : Nat := (items.map itemBytes).sum

@[simp] theorem framesOf_nil : framesOf [] = 0 := rfl

@[simp] theorem bytesOf_nil : bytesOf [] = 0 := rfl

@[simp] theorem framesOf_cons (item : Inbound) (items : List Inbound) :
    framesOf (item :: items) = itemFrames item + framesOf items := by
  rw [framesOf, framesOf, List.map_cons, List.sum_cons]

@[simp] theorem bytesOf_cons (item : Inbound) (items : List Inbound) :
    bytesOf (item :: items) = itemBytes item + bytesOf items := by
  rw [bytesOf, bytesOf, List.map_cons, List.sum_cons]

@[simp] theorem framesOf_append (first second : List Inbound) :
    framesOf (first ++ second) = framesOf first + framesOf second := by
  rw [framesOf, framesOf, framesOf, List.map_append, List.sum_append_nat]

@[simp] theorem bytesOf_append (first second : List Inbound) :
    bytesOf (first ++ second) = bytesOf first + bytesOf second := by
  rw [bytesOf, bytesOf, bytesOf, List.map_append, List.sum_append_nat]

theorem framesOf_data (chunks : List (List UInt8)) : framesOf (chunks.map .data) = chunks.length := by
  induction chunks with
  | nil => rfl
  | cons chunk chunks ih =>
    rw [List.map_cons, framesOf_cons, ih, itemFrames, List.length_cons]
    omega

def grantedFrames (grants : List Credit) : Nat := (grants.map Credit.frames).sum

def grantedBytes (grants : List Credit) : Nat := (grants.map Credit.bytes).sum

/-! ## The books -/

/-- A window that `Config::validate` admits. -/
structure Usable (window : Credit) : Prop where
  frames : 0 < window.frames ∧ window.frames ≤ u32Max
  bytes : 0 < window.bytes ∧ window.bytes ≤ u32Max

/-- Nothing has been granted. -/
structure Silent (s : System) : Prop where
  owed : s.owed = ⟨0, 0⟩
  wire : s.wire = []
  client : s.client = ⟨0, 0⟩
  started : s.started = false
  finished : s.finished = false
  inFlight : s.inFlight = []

/-- COPY_DONE is the client's last frame. -/
def ending (finished : Bool) : List Inbound :=
  if finished then [.done] else []

/-- The client's credit, what is under way, what is queued or in the handler's hand, and what was
consumed since the last grant make up the window. -/
structure Flowing (s : System) (hand : List Inbound) (c : Channel) : Prop where
  channel : s.engine.channel = some c
  isOpen : c.closed = false
  capacity : c.capacity = s.engine.window.frames + 1
  frames : s.client.frames + grantedFrames s.wire + s.owed.frames + framesOf s.inFlight =
    c.credit.frames
  bytes : s.client.bytes + grantedBytes s.wire + s.owed.bytes + bytesOf s.inFlight = c.credit.bytes
  windowFrames : c.credit.frames + framesOf c.queue + framesOf hand + s.engine.regrant.frames =
    s.engine.window.frames
  windowBytes : c.credit.bytes + bytesOf c.queue + bytesOf hand + s.engine.regrant.bytes =
    s.engine.window.bytes
  halfFrames : s.engine.regrant.frames < (s.engine.window.frames + 1) / 2
  halfBytes : s.engine.regrant.bytes < (s.engine.window.bytes + 1) / 2
  order : ∃ chunks : List (List UInt8),
    c.queue ++ s.inFlight = chunks.map .data ++ ending s.finished

/-- The receiver is gone. -/
def Over (s : System) : Prop :=
  ∃ c, s.engine.channel = some c ∧ c.closed = true

def Stage (s : System) : Point → Prop
  | .start | .capacity =>
    s.engine.channel = none ∧ Silent s ∧ s.engine.regrant = .new s.engine.window
  | .checkout | .opening _ =>
    s.engine.channel = some (.opened s.engine.window) ∧ Silent s ∧
      s.engine.regrant = .new s.engine.window
  | .granting | .regranting => ∃ c, Flowing s [] c
  | .receiving => s.owed = ⟨0, 0⟩ ∧ ∃ c, Flowing s [] c
  | .sending chunk => s.owed = ⟨0, 0⟩ ∧ ∃ c, Flowing s [.data chunk] c
  | .finishing _ => Over s
  | .done _ _ => (s.engine.channel = none ∧ Silent s) ∨ Over s

structure Inv (window : Credit) (s : System) : Prop where
  same : s.engine.window = window
  regrant : s.engine.regrant.window = window
  reading : s.engine.reading = true
  stage : Stage s s.engine.point

theorem inv_start (req : CopyRequests.CopyRequest) (window : Credit) :
    Inv window (.start req window) :=
  ⟨rfl, rfl, rfl, rfl, ⟨rfl, rfl, rfl, rfl, rfl, rfl⟩, rfl⟩

/-! ## Steps of the handler -/

/-- The system after a step of the handler. -/
def System.after (s : System) (label : CopyIn.Label) (e : CopyIn.State) : System :=
  { s with engine := e, owed := due s.engine e, wire := s.wire ++ sent label s.owed }

/-- The parts of the engine that no step of the handler changes. -/
structure Kept (before after : CopyIn.State) : Prop where
  window : after.window = before.window
  regrant : after.regrant.window = before.regrant.window
  reading : after.reading = before.reading

theorem inv_after {window : Credit} {s : System} {label : CopyIn.Label} {e : CopyIn.State}
    (inv : Inv window s) (kept : Kept s.engine e) (stage : Stage (s.after label e) e.point) :
    Inv window (s.after label e) :=
  ⟨kept.window.trans inv.same, kept.regrant.trans inv.regrant, kept.reading.trans inv.reading,
    stage⟩

theorem kept_ends (s : CopyIn.State) (terminal : AutocommitExec.Terminal)
    (ended : Option CopyRequests.StreamEnded) : Kept s (s.ends terminal ended) :=
  ⟨rfl, rfl, rfl⟩

theorem over_ends {s : System} {c : Channel} (channel : s.engine.channel = some c)
    (label : CopyIn.Label) {e : CopyIn.State} (same : e.channel = s.engine.channel)
    (terminal : AutocommitExec.Terminal) (ended : Option CopyRequests.StreamEnded) :
    Over (s.after label (e.ends terminal ended)) := by
  refine ⟨{ c with closed := true }, ?_, rfl⟩
  dsimp only [System.after, CopyIn.State.ends]
  rw [same, channel, Option.map_some]

/-- A handler that ends with an open channel leaves it closed. -/
theorem inv_ends {window : Credit} {s : System} {c : Channel} (inv : Inv window s)
    (channel : s.engine.channel = some c) (label : CopyIn.Label) {e : CopyIn.State}
    (same : e.channel = s.engine.channel) (kept : Kept s.engine e)
    (terminal : AutocommitExec.Terminal) (ended : Option CopyRequests.StreamEnded) :
    Inv window (s.after label (e.ends terminal ended)) :=
  inv_after inv ⟨kept.window, kept.regrant, kept.reading⟩
    (.inr (over_ends channel label same terminal ended))

theorem silent_after {s : System} (silent : Silent s) {label : CopyIn.Label} {e : CopyIn.State}
    (nothing : due s.engine e = ⟨0, 0⟩) (quiet : sent label s.owed = []) :
    Silent (s.after label e) := by
  refine ⟨nothing, ?_, silent.client, silent.started, silent.finished, silent.inFlight⟩
  dsimp only [System.after]
  rw [silent.wire, quiet]
  rfl

theorem kept_refl (s : CopyIn.State) : Kept s s :=
  ⟨rfl, rfl, rfl⟩

theorem kept_reports {α : Type} (s : CopyIn.State) (result : Except PostgresErrors.DriverError α) :
    (s.reports result).channel = s.channel ∧ Kept s (s.reports result) := by
  cases result
  · exact ⟨rfl, rfl, rfl, rfl⟩
  · exact ⟨rfl, rfl, rfl, rfl⟩

theorem kept_opened (s : CopyIn.State) (result : Except PostgresErrors.DriverError Unit) :
    (s.opened result).channel = s.channel ∧ Kept s (s.opened result) := by
  rw [CopyIn.State.opened]
  split
  · exact kept_reports s result
  · exact ⟨rfl, kept_refl s⟩

section

variable {window : Credit} {s : System} {label : CopyIn.Label} {e : CopyIn.State}

theorem capacityStep_inv (inv : Inv window s) (point : s.engine.point = .capacity)
    (taken : capacityStep s.engine label = some e) : Inv window (s.after label e) := by
  have stage := inv.stage
  rw [point] at stage
  obtain ⟨channel, silent, fresh⟩ := stage
  unfold capacityStep at taken
  have nothing : ∀ e : CopyIn.State, due s.engine e = ⟨0, 0⟩ := by
    intro e
    rw [due, point]
  split at taken
  · cases taken
    by_cases inTx : s.engine.req.inTx = true
    · refine inv_after inv ⟨rfl, rfl, rfl⟩ ?_
      dsimp only
      rw [if_pos inTx]
      exact ⟨rfl, silent_after silent (nothing _) rfl, fresh⟩
    · refine inv_after inv ⟨rfl, rfl, rfl⟩ ?_
      dsimp only
      rw [if_neg inTx]
      exact ⟨rfl, silent_after silent (nothing _) rfl, fresh⟩
  · cases taken
    refine inv_after inv ⟨rfl, rfl, rfl⟩ (.inl ⟨?_, silent_after silent (nothing _) rfl⟩)
    dsimp only [System.after, CopyIn.State.ends]
    rw [channel, Option.map_none]
  · cases taken
    refine inv_after inv ⟨rfl, rfl, rfl⟩ (.inl ⟨?_, silent_after silent (nothing _) rfl⟩)
    dsimp only [System.after, CopyIn.State.ends]
    rw [channel, Option.map_none]
  · cases taken

theorem startStep_inv (inv : Inv window s) (point : s.engine.point = .start)
    (taken : handlerStep s.engine label = some e) : Inv window (s.after label e) := by
  have stage := inv.stage
  rw [point] at stage
  obtain ⟨channel, silent, fresh⟩ := stage
  have nothing : ∀ e : CopyIn.State, due s.engine e = ⟨0, 0⟩ := by
    intro e
    rw [due, point]
  unfold handlerStep at taken
  rw [point] at taken
  cases label with
  | admission a =>
    dsimp only at taken
    split at taken
    · cases taken
      exact inv_after inv ⟨rfl, rfl, rfl⟩ ⟨channel, silent_after silent (nothing _) rfl, fresh⟩
    · cases taken
      refine inv_after inv ⟨rfl, rfl, rfl⟩ (.inl ⟨?_, silent_after silent (nothing _) rfl⟩)
      dsimp only [System.after, CopyIn.State.ends]
      rw [channel, Option.map_none]
  | _ => cases taken

theorem checkoutStep_inv (inv : Inv window s) (point : s.engine.point = .checkout)
    (taken : checkoutStep s.engine label = some e) : Inv window (s.after label e) := by
  have stage := inv.stage
  rw [point] at stage
  obtain ⟨channel, silent, fresh⟩ := stage
  have nothing : ∀ e : CopyIn.State, due s.engine e = ⟨0, 0⟩ := by
    intro e
    rw [due, point]
  unfold checkoutStep at taken
  split at taken
  · cases taken
    exact inv_after inv ⟨rfl, rfl, rfl⟩ ⟨channel, silent_after silent (nothing _) rfl, fresh⟩
  · cases taken
    exact inv_ends inv channel _ rfl (kept_refl _) _ _
  · cases taken
    exact inv_ends inv channel _ rfl (kept_refl _) _ _
  · cases taken
    exact inv_ends inv channel _ rfl (kept_refl _) _ _
  · cases taken

/-- The first grant is the whole window. -/
theorem grant_flowing (inv : Inv window s) (usable : Usable window) {stopped : Option String}
    (point : s.engine.point = .opening stopped) (quiet : sent label s.owed = []) :
    Inv window
      (s.after label (s.engine.grant s.engine.window.frames s.engine.window.bytes .granting)) := by
  have stage := inv.stage
  rw [point] at stage
  obtain ⟨channel, silent, fresh⟩ := stage
  have frames := usable.frames
  have bytes := usable.bytes
  rw [← inv.same] at frames bytes
  refine inv_after inv ⟨rfl, rfl, rfl⟩ ?_
  have channel' : (s.engine.grant s.engine.window.frames s.engine.window.bytes .granting).channel =
      some { Channel.opened s.engine.window with credit := s.engine.window } := by
    dsimp only [CopyIn.State.grant]
    rw [channel, Option.map_some]
    dsimp only [Channel.opened, Credit.replenish]
    rw [Nat.zero_add, Nat.zero_add, Nat.min_eq_left frames.2, Nat.min_eq_left bytes.2]
  refine ⟨{ Channel.opened s.engine.window with credit := s.engine.window }, channel', rfl, rfl, ?_,
    ?_, ?_, ?_, ?_, ?_, ?_⟩
  all_goals dsimp only [System.after, CopyIn.State.grant, Channel.opened, due]
  · rw [point, silent.client, silent.wire, quiet, silent.inFlight]
    simp [grantedFrames]
  · rw [point, silent.client, silent.wire, quiet, silent.inFlight]
    simp [grantedBytes]
  · rw [fresh]
    simp [Regrant.new]
  · rw [fresh]
    simp [Regrant.new]
  · rw [fresh]
    dsimp only [Regrant.new]
    omega
  · rw [fresh]
    dsimp only [Regrant.new]
    omega
  · rw [silent.inFlight, silent.finished]
    exact ⟨[], rfl⟩

theorem openStep_inv (inv : Inv window s) (usable : Usable window) {stopped : Option String}
    (point : s.engine.point = .opening stopped)
    (taken : openStep s.engine stopped label = some e) : Inv window (s.after label e) := by
  have stage := inv.stage
  rw [point] at stage
  obtain ⟨channel, silent, fresh⟩ := stage
  unfold openStep at taken
  split at taken
  · split at taken
    · cases taken
      refine inv_after inv ⟨rfl, rfl, rfl⟩ ⟨channel, silent_after silent ?_ rfl, fresh⟩
      rw [due, point]
    · cases taken
  · split at taken
    · cases taken
      refine inv_after inv ⟨rfl, rfl, rfl⟩ ⟨channel, silent_after silent ?_ rfl, fresh⟩
      rw [due, point]
    · cases taken
  · split at taken
    · cases taken
      exact grant_flowing inv usable point rfl
    · cases taken
      exact inv_ends inv channel _ rfl (kept_refl _) _ _
    · cases taken
      have opened := kept_opened s.engine
      exact inv_ends inv channel _ (opened _).1 (opened _).2 _ _
  · cases taken

/-- The grant goes from the books onto the wire. -/
theorem grantStep_inv (inv : Inv window s) {c : Channel} (flowing : Flowing s [] c)
    (notDue : ∀ e : CopyIn.State, due s.engine e = ⟨0, 0⟩)
    (taken : grantStep s.engine label = some e) : Inv window (s.after label e) := by
  unfold grantStep at taken
  split at taken
  · cases taken
    refine inv_after inv ⟨rfl, rfl, rfl⟩ ⟨notDue _, c, ?_⟩
    have frames := flowing.frames
    have bytes := flowing.bytes
    refine ⟨flowing.channel, flowing.isOpen, flowing.capacity, ?_, ?_, flowing.windowFrames,
      flowing.windowBytes, flowing.halfFrames, flowing.halfBytes, flowing.order⟩
    · dsimp only [System.after, sent]
      rw [notDue, grantedFrames, List.map_append, List.sum_append_nat]
      dsimp only [List.map_cons, List.map_nil, List.sum_cons, List.sum_nil]
      rw [grantedFrames] at frames
      simp
      omega
    · dsimp only [System.after, sent]
      rw [notDue, grantedBytes, List.map_append, List.sum_append_nat]
      rw [grantedBytes] at bytes
      simp
      omega
  · cases taken
    exact inv_ends inv flowing.channel _ rfl (kept_refl _) _ _
  · cases taken

/-- A chunk goes from the queue into the handler's hand. -/
theorem received_flowing {credit : Credit} {capacity : Nat} {rest : List Inbound} {closed : Bool}
    {chunk : List UInt8} (flowing : Flowing s [] ⟨credit, capacity, .data chunk :: rest, closed⟩)
    (owed : s.owed = ⟨0, 0⟩) {e : CopyIn.State} (notDue : due s.engine e = ⟨0, 0⟩)
    (channel : e.channel = some ⟨credit, capacity, rest, closed⟩)
    (kept : e.window = s.engine.window ∧ e.regrant = s.engine.regrant)
    (quiet : sent label s.owed = []) :
    Flowing (s.after label e) [.data chunk] ⟨credit, capacity, rest, closed⟩ := by
  obtain ⟨sameWindow, sameRegrant⟩ := kept
  obtain ⟨-, isOpen, size, frames, bytes, windowFrames, windowBytes, halfFrames, halfBytes, chunks,
    order⟩ := flowing
  rw [framesOf_cons, framesOf_nil] at windowFrames
  rw [bytesOf_cons, bytesOf_nil] at windowBytes
  dsimp only at frames bytes windowFrames windowBytes order size isOpen
  have same : s.after label e = { s with engine := e } := by
    rw [System.after, notDue, quiet, List.append_nil, ← owed]
  rw [same]
  refine ⟨channel, isOpen, ?_, frames, bytes, ?_, ?_, ?_, ?_, ?_⟩
  all_goals dsimp only
  · rw [sameWindow]
    exact size
  · rw [sameWindow, sameRegrant, framesOf_cons, framesOf_nil]
    omega
  · rw [sameWindow, sameRegrant, bytesOf_cons, bytesOf_nil]
    omega
  · rw [sameWindow, sameRegrant]
    exact halfFrames
  · rw [sameWindow, sameRegrant]
    exact halfBytes
  · cases chunks with
    | nil =>
      cases finished : s.finished
      · rw [finished] at order
        cases order
      · rw [finished] at order
        cases order
    | cons first chunks =>
      rw [List.map_cons, List.cons_append, List.cons_append] at order
      exact ⟨chunks, (List.cons.inj order).2⟩

theorem receiveStep_inv (inv : Inv window s) (point : s.engine.point = .receiving)
    (taken : receiveStep s.engine label = some e) : Inv window (s.after label e) := by
  have stage := inv.stage
  rw [point] at stage
  obtain ⟨owed, ⟨credit, capacity, queue, closed⟩, flowing⟩ := stage
  have notDue : ∀ e : CopyIn.State, due s.engine e = ⟨0, 0⟩ := by
    intro e
    rw [due, point]
  unfold receiveStep at taken
  rw [flowing.channel] at taken
  cases label with
  | cancels =>
    cases taken
    exact inv_ends inv flowing.channel _ rfl (kept_refl _) _ _
  | expires =>
    cases taken
    exact inv_ends inv flowing.channel _ rfl (kept_refl _) _ _
  | closes =>
    cases queue with
    | nil =>
      cases taken
      exact inv_ends inv flowing.channel _ rfl (kept_refl _) _ _
    | cons item rest => cases taken
  | receives =>
    cases queue with
    | nil => cases taken
    | cons item rest =>
      cases item with
      | data chunk =>
        cases taken
        refine inv_after inv ⟨rfl, rfl, rfl⟩ ⟨notDue _, ⟨credit, capacity, rest, closed⟩, ?_⟩
        exact received_flowing flowing owed (notDue _) rfl ⟨rfl, rfl⟩ rfl
      | done =>
        cases taken
        exact inv_after inv ⟨rfl, rfl, rfl⟩ ⟨_, rfl, rfl⟩
  | _ => cases taken

theorem replenish_exact (c : Credit) (frames bytes : Nat) (fitsFrames : c.frames + frames ≤ u32Max)
    (fitsBytes : c.bytes + bytes ≤ u32Max) :
    c.replenish frames bytes = ⟨c.frames + frames, c.bytes + bytes⟩ := by
  rw [Credit.replenish, Nat.min_eq_left fitsFrames, Nat.min_eq_left fitsBytes]

/-- Without saturation a consumed chunk is counted or is the last of a grant. -/
theorem consumed_cases (r : Regrant) (len : Nat) (small : r.bytes + len ≤ u32Max) :
    (r.consumed len = ({ r with frames := 0, bytes := 0 }, some (r.frames + 1, r.bytes + len))) ∨
      (r.consumed len = ({ r with frames := r.frames + 1, bytes := r.bytes + len }, none) ∧
        r.frames + 1 < (r.window.frames + 1) / 2 ∧ r.bytes + len < (r.window.bytes + 1) / 2) := by
  have exact' : min (r.bytes + min len u32Max) u32Max = r.bytes + len := by omega
  unfold Regrant.consumed
  rw [exact']
  dsimp only
  split
  · exact .inl rfl
  · rename_i early
    exact .inr ⟨rfl, by omega, by omega⟩

theorem accepted_inv (inv : Inv window s) (usable : Usable window) {chunk : List UInt8}
    (point : s.engine.point = .sending chunk) (quiet : sent label s.owed = []) :
    Inv window (s.after label (s.engine.accepted chunk)) := by
  have stage := inv.stage
  rw [point] at stage
  obtain ⟨owed, c, flowing⟩ := stage
  have regrantWindow : s.engine.regrant.window = s.engine.window := inv.regrant.trans inv.same.symm
  have rangeFrames : s.engine.window.frames ≤ u32Max := inv.same ▸ usable.frames.2
  have rangeBytes : s.engine.window.bytes ≤ u32Max := inv.same ▸ usable.bytes.2
  obtain ⟨channel, isOpen, size, frames, bytes, windowFrames, windowBytes, halfFrames, halfBytes,
    order⟩ := flowing
  rw [owed] at frames bytes
  rw [framesOf_cons, framesOf_nil, itemFrames] at windowFrames
  rw [bytesOf_cons, bytesOf_nil, itemBytes] at windowBytes
  dsimp only at frames bytes
  rcases consumed_cases s.engine.regrant chunk.length (by omega) with
    granted | ⟨counted, earlyFrames, earlyBytes⟩
  · have credit := replenish_exact c.credit (s.engine.regrant.frames + 1)
      (s.engine.regrant.bytes + chunk.length) (by omega) (by omega)
    have result : s.engine.accepted chunk =
        { s.engine with
          forwarded := s.engine.forwarded ++ [chunk]
          bytesIn := s.engine.bytesIn + chunk.length
          regrant := { s.engine.regrant with frames := 0, bytes := 0 }
          point := .regranting
          channel := some { c with
            credit := ⟨c.credit.frames + (s.engine.regrant.frames + 1),
              c.credit.bytes + (s.engine.regrant.bytes + chunk.length)⟩ } } := by
      rw [CopyIn.State.accepted, granted]
      dsimp only [CopyIn.State.grant]
      rw [channel, Option.map_some, credit]
    have dues : due s.engine (s.engine.accepted chunk) =
        ⟨s.engine.regrant.frames + 1, s.engine.regrant.bytes + chunk.length⟩ := by
      simp only [due, point, result, granted]
    refine inv_after inv ?_ ?_
    · rw [result]
      exact ⟨rfl, rfl, rfl⟩
    · have after : s.after label (s.engine.accepted chunk) =
          { s with
            engine := s.engine.accepted chunk
            owed := ⟨s.engine.regrant.frames + 1, s.engine.regrant.bytes + chunk.length⟩ } := by
        rw [System.after, dues, quiet, List.append_nil]
      rw [after, result]
      refine ⟨_, rfl, isOpen, size, ?_, ?_, ?_, ?_, ?_, ?_, order⟩
      all_goals dsimp only
      · omega
      · omega
      · rw [framesOf_nil]
        omega
      · rw [bytesOf_nil]
        omega
      · omega
      · omega
  · have result : s.engine.accepted chunk =
        { s.engine with
          forwarded := s.engine.forwarded ++ [chunk]
          bytesIn := s.engine.bytesIn + chunk.length
          regrant :=
            { s.engine.regrant with
              frames := s.engine.regrant.frames + 1
              bytes := s.engine.regrant.bytes + chunk.length }
          point := .receiving } := by
      rw [CopyIn.State.accepted, counted]
    have dues : due s.engine (s.engine.accepted chunk) = ⟨0, 0⟩ := by
      simp only [due, point, result]
    refine inv_after inv ?_ ?_
    · rw [result]
      exact ⟨rfl, rfl, rfl⟩
    · have after : s.after label (s.engine.accepted chunk) =
          { s with engine := s.engine.accepted chunk } := by
        rw [System.after, dues, quiet, List.append_nil, ← owed]
      rw [after, result]
      rw [regrantWindow] at earlyFrames earlyBytes
      refine ⟨owed, c, channel, isOpen, size, ?_, ?_, ?_, ?_, earlyFrames, earlyBytes, order⟩
      all_goals dsimp only
      · rw [owed]
        exact frames
      · rw [owed]
        exact bytes
      · rw [framesOf_nil]
        omega
      · rw [bytesOf_nil]
        omega

theorem sendStep_inv (inv : Inv window s) (usable : Usable window) {chunk : List UInt8}
    (point : s.engine.point = .sending chunk)
    (taken : sendStep s.engine chunk label = some e) : Inv window (s.after label e) := by
  have stage := inv.stage
  rw [point] at stage
  obtain ⟨-, c, flowing⟩ := stage
  unfold sendStep at taken
  split at taken
  · cases taken
    exact inv_ends inv flowing.channel _ rfl (kept_refl _) _ _
  · cases taken
    exact inv_ends inv flowing.channel _ rfl (kept_refl _) _ _
  · cases taken
    exact accepted_inv inv usable point rfl
  · rename_i err
    cases taken
    have reports := kept_reports s.engine (.error err : Except PostgresErrors.DriverError Unit)
    exact inv_ends inv flowing.channel _ reports.1 reports.2 _ _
  · cases taken

theorem finishStep_inv (inv : Inv window s) {stopped : Bool}
    (point : s.engine.point = .finishing stopped)
    (taken : finishStep s.engine stopped label = some e) : Inv window (s.after label e) := by
  have stage := inv.stage
  rw [point] at stage
  obtain ⟨c, channel, closed⟩ := stage
  unfold finishStep at taken
  split at taken
  · split at taken
    · cases taken
    · cases taken
      exact inv_after inv ⟨rfl, rfl, rfl⟩ ⟨c, channel, closed⟩
  · split at taken
    · cases taken
    · cases taken
      exact inv_after inv ⟨rfl, rfl, rfl⟩ ⟨c, channel, closed⟩
  · cases taken
    exact inv_ends inv channel _ rfl (kept_refl _) _ _
  · rename_i err _
    cases taken
    have reports := kept_reports s.engine (.error err : Except PostgresErrors.DriverError Nat)
    exact inv_ends inv channel _ reports.1 reports.2 _ _
  · cases taken

theorem handlerStep_inv (inv : Inv window s) (usable : Usable window)
    (taken : handlerStep s.engine label = some e) : Inv window (s.after label e) := by
  cases point : s.engine.point with
  | start => exact startStep_inv inv point taken
  | capacity =>
    unfold handlerStep at taken
    rw [point] at taken
    exact capacityStep_inv inv point taken
  | checkout =>
    unfold handlerStep at taken
    rw [point] at taken
    exact checkoutStep_inv inv point taken
  | opening stopped =>
    unfold handlerStep at taken
    rw [point] at taken
    exact openStep_inv inv usable point taken
  | granting =>
    unfold handlerStep at taken
    rw [point] at taken
    have stage := inv.stage
    rw [point] at stage
    obtain ⟨c, flowing⟩ := stage
    refine grantStep_inv inv flowing ?_ taken
    intro e
    rw [due, point]
  | regranting =>
    unfold handlerStep at taken
    rw [point] at taken
    have stage := inv.stage
    rw [point] at stage
    obtain ⟨c, flowing⟩ := stage
    refine grantStep_inv inv flowing ?_ taken
    intro e
    rw [due, point]
  | receiving =>
    unfold handlerStep at taken
    rw [point] at taken
    exact receiveStep_inv inv point taken
  | sending chunk =>
    unfold handlerStep at taken
    rw [point] at taken
    exact sendStep_inv inv usable point taken
  | finishing stopped =>
    unfold handlerStep at taken
    rw [point] at taken
    exact finishStep_inv inv point taken
  | done terminal ended =>
    unfold handlerStep at taken
    rw [point] at taken
    cases taken

end

/-! ## Steps of the client and of the reader -/

/-- A step that finds something granted leaves the handler where it is. -/
theorem stage_moves {s t : System} {point : Point} (stage : Stage s point) (granted : ¬ Silent s)
    (owed : t.owed = s.owed) (stays : Over s → Over t)
    (flow : ∀ hand c, Flowing s hand c → ∃ c', Flowing t hand c') : Stage t point := by
  cases point with
  | start => exact absurd stage.2.1 granted
  | capacity => exact absurd stage.2.1 granted
  | checkout => exact absurd stage.2.1 granted
  | opening stopped => exact absurd stage.2.1 granted
  | granting =>
    obtain ⟨c, flowing⟩ := stage
    exact flow [] c flowing
  | regranting =>
    obtain ⟨c, flowing⟩ := stage
    exact flow [] c flowing
  | receiving =>
    obtain ⟨nothing, c, flowing⟩ := stage
    exact ⟨owed.trans nothing, flow [] c flowing⟩
  | sending chunk =>
    obtain ⟨nothing, c, flowing⟩ := stage
    exact ⟨owed.trans nothing, flow _ c flowing⟩
  | finishing stopped => exact stays stage
  | done terminal ended =>
    rcases stage with ⟨-, silent⟩ | ended
    · exact absurd silent granted
    · exact .inr (stays ended)

theorem hears_inv {window : Credit} {s : System} {grant : Credit} {rest : List Credit}
    (inv : Inv window s) (wire : s.wire = grant :: rest) :
    Inv window
      { s with
        wire := rest
        started := true
        client := ⟨s.client.frames + grant.frames, s.client.bytes + grant.bytes⟩ } := by
  refine ⟨inv.same, inv.regrant, inv.reading, stage_moves inv.stage ?_ rfl (fun ended => ended) ?_⟩
  · intro silent
    have none := silent.wire
    rw [wire] at none
    cases none
  · intro hand c flowing
    have frames := flowing.frames
    have bytes := flowing.bytes
    rw [wire, grantedFrames, List.map_cons, List.sum_cons] at frames
    rw [wire, grantedBytes, List.map_cons, List.sum_cons] at bytes
    refine ⟨c, flowing.channel, flowing.isOpen, flowing.capacity, ?_, ?_, flowing.windowFrames,
      flowing.windowBytes, flowing.halfFrames, flowing.halfBytes, flowing.order⟩
    · dsimp only
      rw [grantedFrames]
      omega
    · dsimp only
      rw [grantedBytes]
      omega

theorem sends_inv {window : Credit} {s : System} {chunk : List UInt8} (inv : Inv window s)
    (unfinished : s.finished = false) (credit : 0 < s.client.frames)
    (room : chunk.length ≤ s.client.bytes) :
    Inv window
      { s with
        client := ⟨s.client.frames - 1, s.client.bytes - chunk.length⟩
        inFlight := s.inFlight ++ [.data chunk] } := by
  refine ⟨inv.same, inv.regrant, inv.reading, stage_moves inv.stage ?_ rfl (fun ended => ended) ?_⟩
  · intro silent
    rw [silent.client] at credit
    cases credit
  · intro hand c flowing
    have frames := flowing.frames
    have bytes := flowing.bytes
    obtain ⟨chunks, order⟩ := flowing.order
    refine ⟨c, flowing.channel, flowing.isOpen, flowing.capacity, ?_, ?_, flowing.windowFrames,
      flowing.windowBytes, flowing.halfFrames, flowing.halfBytes, chunks ++ [chunk], ?_⟩
    · dsimp only
      rw [framesOf_append, framesOf_cons, framesOf_nil, itemFrames]
      omega
    · dsimp only
      rw [bytesOf_append, bytesOf_cons, bytesOf_nil, itemBytes]
      omega
    · dsimp only
      rw [unfinished] at order ⊢
      rw [← List.append_assoc, order]
      simp [ending]

theorem sendsDone_inv {window : Credit} {s : System} (inv : Inv window s)
    (started : s.started = true) (unfinished : s.finished = false) :
    Inv window { s with finished := true, inFlight := s.inFlight ++ [.done] } := by
  refine ⟨inv.same, inv.regrant, inv.reading, stage_moves inv.stage ?_ rfl (fun ended => ended) ?_⟩
  · intro silent
    rw [silent.started] at started
    cases started
  · intro hand c flowing
    obtain ⟨chunks, order⟩ := flowing.order
    refine ⟨c, flowing.channel, flowing.isOpen, flowing.capacity, ?_, ?_, flowing.windowFrames,
      flowing.windowBytes, flowing.halfFrames, flowing.halfBytes, chunks, ?_⟩
    · dsimp only
      rw [framesOf_append, framesOf_cons, framesOf_nil, itemFrames]
      exact flowing.frames
    · dsimp only
      rw [bytesOf_append, bytesOf_cons, bytesOf_nil, itemBytes]
      exact flowing.bytes
    · dsimp only
      rw [unfinished] at order
      rw [← List.append_assoc, order]
      simp [ending]

/-- Before the end everything that is queued is data. -/
theorem queue_length {queue rest : List Inbound} {item : Inbound} {chunks : List (List UInt8)}
    {finished : Bool} (order : queue ++ item :: rest = chunks.map .data ++ ending finished) :
    framesOf queue = queue.length := by
  induction queue generalizing chunks with
  | nil => rfl
  | cons first queue ih =>
    cases chunks with
    | nil =>
      have length := congrArg List.length order
      cases finished with
      | false => cases order
      | true =>
        simp [ending] at length
    | cons chunk chunks =>
      rw [List.map_cons, List.cons_append, List.cons_append] at order
      obtain ⟨same, later⟩ := List.cons.inj order
      rw [framesOf_cons, ih later, same, itemFrames, List.length_cons]
      omega

def debited (c : Credit) (item : Inbound) : Credit :=
  ⟨c.frames - itemFrames item, c.bytes - itemBytes item⟩

theorem deliver_flowing {window : Credit} {s : System} {hand rest : List Inbound} {c : Channel}
    {item : Inbound} (usable : Usable window) (same : s.engine.window = window)
    (flowing : Flowing s hand c) (inFlight : s.inFlight = item :: rest) :
    deliver (some c) item =
      (.delivered, some { c with credit := debited c.credit item, queue := c.queue ++ [item] }) := by
  have frames := flowing.frames
  have bytes := flowing.bytes
  have windowFrames := flowing.windowFrames
  have windowBytes := flowing.windowBytes
  have range : s.engine.window.bytes ≤ u32Max := same ▸ usable.bytes.2
  obtain ⟨chunks, order⟩ := flowing.order
  rw [inFlight] at frames bytes order
  rw [framesOf_cons] at frames
  rw [bytesOf_cons] at bytes
  have debit : debitFor c item = some (debited c.credit item) := by
    cases item with
    | data chunk =>
      rw [itemFrames] at frames
      rw [itemBytes] at bytes
      have whole : min chunk.length u32Max = chunk.length := Nat.min_eq_left (by omega)
      have enough : ¬ (c.credit.frames = 0 ∨ c.credit.bytes < chunk.length) := by omega
      rw [debitFor, whole, Credit.tryDebit, if_neg enough]
      rfl
    | done => rfl
  have room : c.queue.length < c.capacity := by
    have all := queue_length order
    rw [flowing.capacity]
    omega
  rw [deliver, flowing.isOpen, if_neg (by decide), debit]
  dsimp only
  rw [if_pos room]

theorem readerStep_flowing {window : Credit} {s : System} {hand rest : List Inbound} {c : Channel}
    {item : Inbound} (usable : Usable window) (same : s.engine.window = window)
    (flowing : Flowing s hand c) (inFlight : s.inFlight = item :: rest) :
    (readerStep s.engine item).reading = s.engine.reading ∧
      ∃ c', Flowing { s with engine := readerStep s.engine item, inFlight := rest } hand c' := by
  have delivered := deliver_flowing usable same flowing inFlight
  have frames := flowing.frames
  have bytes := flowing.bytes
  have windowFrames := flowing.windowFrames
  have windowBytes := flowing.windowBytes
  obtain ⟨chunks, order⟩ := flowing.order
  rw [inFlight] at frames bytes order
  rw [framesOf_cons] at frames
  rw [bytesOf_cons] at bytes
  have result : readerStep s.engine item =
      { s.engine with
        channel := some { c with credit := debited c.credit item, queue := c.queue ++ [item] }
        received := s.engine.received ++ [item] } := by
    rw [readerStep, flowing.channel, delivered]
  rw [result]
  refine ⟨rfl, _, rfl, flowing.isOpen, flowing.capacity, ?_, ?_, ?_, ?_, flowing.halfFrames,
    flowing.halfBytes, chunks, ?_⟩
  · dsimp only [debited]
    omega
  · dsimp only [debited]
    omega
  · dsimp only [debited]
    rw [framesOf_append, framesOf_cons, framesOf_nil]
    omega
  · dsimp only [debited]
    rw [bytesOf_append, bytesOf_cons, bytesOf_nil]
    omega
  · dsimp only
    rw [List.append_assoc]
    exact order

theorem readerStep_over {s : System} {c : Channel} (channel : s.engine.channel = some c)
    (closed : c.closed = true) (item : Inbound) :
    readerStep s.engine item = { s.engine with channel := some c } := by
  rw [readerStep, channel, deliver, if_pos closed]

/-- The points at which data flows, with what is in the handler's hand. -/
def inHand : Point → Option (List Inbound)
  | .granting | .regranting | .receiving => some []
  | .sending chunk => some [.data chunk]
  | _ => none

theorem stage_flowing {s : System} {point : Point} {hand : List Inbound} (stage : Stage s point)
    (flows : inHand point = some hand) : ∃ c, Flowing s hand c := by
  cases point with
  | granting =>
    cases flows
    exact stage
  | regranting =>
    cases flows
    exact stage
  | receiving =>
    cases flows
    exact stage.2
  | sending chunk =>
    cases flows
    exact stage.2
  | _ => cases flows

/-- Data flows, or the receiver is gone, or nothing has been granted. -/
theorem stage_cases {s : System} {point : Point} (stage : Stage s point) :
    Silent s ∨ Over s ∨ ∃ hand c, inHand point = some hand ∧ Flowing s hand c := by
  cases point with
  | start => exact .inl stage.2.1
  | capacity => exact .inl stage.2.1
  | checkout => exact .inl stage.2.1
  | opening stopped => exact .inl stage.2.1
  | granting =>
    obtain ⟨c, flowing⟩ := stage
    exact .inr (.inr ⟨[], c, rfl, flowing⟩)
  | regranting =>
    obtain ⟨c, flowing⟩ := stage
    exact .inr (.inr ⟨[], c, rfl, flowing⟩)
  | receiving =>
    obtain ⟨-, c, flowing⟩ := stage
    exact .inr (.inr ⟨[], c, rfl, flowing⟩)
  | sending chunk =>
    obtain ⟨-, c, flowing⟩ := stage
    exact .inr (.inr ⟨_, c, rfl, flowing⟩)
  | finishing stopped => exact .inr (.inl stage)
  | done terminal ended =>
    rcases stage with ⟨-, silent⟩ | ended
    · exact .inl silent
    · exact .inr (.inl ended)

theorem arrives_inv {window : Credit} {s : System} {item : Inbound} {rest : List Inbound}
    (inv : Inv window s) (usable : Usable window) (inFlight : s.inFlight = item :: rest) :
    Inv window { s with engine := readerStep s.engine item, inFlight := rest } := by
  have granted : ¬ Silent s := by
    intro silent
    have none := silent.inFlight
    rw [inFlight] at none
    cases none
  have kept : (readerStep s.engine item).window = s.engine.window ∧
      (readerStep s.engine item).regrant = s.engine.regrant ∧
      (readerStep s.engine item).point = s.engine.point := by
    rw [readerStep]
    split
    · exact ⟨rfl, rfl, rfl⟩
    · exact ⟨rfl, rfl, rfl⟩
    · exact ⟨rfl, rfl, rfl⟩
  have reading : (readerStep s.engine item).reading = true := by
    rcases stage_cases inv.stage with silent | ⟨c, channel, closed⟩ | ⟨hand, c, -, flowing⟩
    · exact absurd silent granted
    · rw [readerStep_over channel closed]
      exact inv.reading
    · rw [(readerStep_flowing usable inv.same flowing inFlight).1]
      exact inv.reading
  refine ⟨kept.1.trans inv.same, kept.2.1 ▸ inv.regrant, reading, ?_⟩
  dsimp only
  rw [kept.2.2]
  refine stage_moves inv.stage granted rfl ?_ ?_
  · rintro ⟨c, channel, closed⟩
    refine ⟨c, ?_, closed⟩
    dsimp only
    rw [readerStep_over channel closed]
  · intro hand c flowing
    exact (readerStep_flowing usable inv.same flowing inFlight).2

theorem step_inv {window : Credit} {s t : System} {a : Label} (usable : Usable window)
    (inv : Inv window s) (taken : step s a = some t) : Inv window t := by
  cases a with
  | handler label =>
    obtain ⟨e, run, rfl⟩ := Option.map_eq_some_iff.mp taken
    exact handlerStep_inv inv usable run
  | arrives =>
    rw [step] at taken
    split at taken
    · rename_i item rest inFlight
      split at taken
      · cases taken
        exact arrives_inv inv usable inFlight
      · cases taken
    · cases taken
  | hears =>
    rw [step] at taken
    split at taken
    · rename_i grant rest wire
      cases taken
      exact hears_inv inv wire
    · cases taken
  | sends chunk =>
    rw [step] at taken
    split at taken
    · rename_i may
      cases taken
      exact sends_inv inv may.1 may.2.1 may.2.2
    · cases taken
  | sendsDone =>
    rw [step] at taken
    split at taken
    · rename_i may
      cases taken
      exact sendsDone_inv inv may.1 may.2
    · cases taken

/-! ## Runs -/

/-- While data flows, the credit and the chunks on both sides make up the window; a client within
its credit is not refused; and once everything it sent has been consumed, a client without credit
has a grant coming. -/
theorem copyWindow_conserved {req : CopyRequests.CopyRequest} {window : Credit}
    {labels : List Label} {s : System} (usable : Usable window)
    (reached : run step (.start req window) labels = some s) :
    (∀ hand, inHand s.engine.point = some hand → ∃ c, s.engine.channel = some c ∧
      (s.client.frames + grantedFrames s.wire + s.owed.frames + framesOf s.inFlight) +
        (framesOf c.queue + framesOf hand) + s.engine.regrant.frames = window.frames ∧
      (s.client.bytes + grantedBytes s.wire + s.owed.bytes + bytesOf s.inFlight) +
        (bytesOf c.queue + bytesOf hand) + s.engine.regrant.bytes = window.bytes ∧
      (hand = [] → c.queue = [] → s.inFlight = [] →
        (s.client.frames = 0 → 0 < grantedFrames s.wire + s.owed.frames) ∧
        (s.client.bytes = 0 → 0 < grantedBytes s.wire + s.owed.bytes))) ∧
    (∀ item rest, s.inFlight = item :: rest →
      ∀ why, (deliver s.engine.channel item).1 ≠ .violation why) ∧
    s.engine.reading = true := by
  have inv : Inv window s :=
    run_always step (fun inv taken => step_inv usable inv taken) (inv_start req window) reached
  refine ⟨?_, ?_, inv.reading⟩
  · intro hand flows
    obtain ⟨c, flowing⟩ := stage_flowing inv.stage flows
    have frames := flowing.frames
    have bytes := flowing.bytes
    have windowFrames := flowing.windowFrames
    have windowBytes := flowing.windowBytes
    have halfFrames := flowing.halfFrames
    have halfBytes := flowing.halfBytes
    have positive := usable.frames.1
    have positiveBytes := usable.bytes.1
    rw [inv.same] at windowFrames windowBytes halfFrames halfBytes
    refine ⟨c, flowing.channel, by omega, by omega, ?_⟩
    rintro rfl queue inFlight
    rw [inFlight, framesOf_nil] at frames
    rw [inFlight, bytesOf_nil] at bytes
    rw [queue, framesOf_nil] at windowFrames
    rw [queue, bytesOf_nil] at windowBytes
    constructor
    · intro noFrames
      omega
    · intro noBytes
      omega
  · intro item rest inFlight why
    rcases stage_cases inv.stage with silent | ⟨c, channel, closed⟩ | ⟨hand, c, -, flowing⟩
    · have none := silent.inFlight
      rw [inFlight] at none
      cases none
    · rw [channel, deliver, if_pos closed]
      exact Delivery.noConfusion
    · rw [flowing.channel, deliver_flowing usable inv.same flowing inFlight]
      exact Delivery.noConfusion

/-- A client that spends its whole window, with one chunk consumed and its grant not yet sent. -/
def upload : List Label :=
  [.handler (.admission CopyFate.found), .handler (.reserves .ready), .handler (.opens (.ok ())),
    .handler (.grants true), .hears, .sends [1, 2], .sends [3], .arrives, .arrives,
    .handler .receives, .handler (.accepts (.ok ()))]

theorem copyWindow_conserved_upload :
    Usable CopyFate.smallWindow ∧
    ∃ s c, run step (.start (CopyFate.importRequest true) CopyFate.smallWindow) upload = some s ∧
      s.engine.point = .regranting ∧ s.engine.channel = some c ∧ s.client = ⟨0, 13⟩ ∧
      s.owed = ⟨1, 2⟩ ∧ c.queue = [.data [3]] ∧
      (s.client.frames + grantedFrames s.wire + s.owed.frames + framesOf s.inFlight) +
        (framesOf c.queue + framesOf []) + s.engine.regrant.frames =
          CopyFate.smallWindow.frames := by
  have usable : Usable CopyFate.smallWindow := ⟨by decide, by decide⟩
  have reached : run step (.start (CopyFate.importRequest true) CopyFate.smallWindow) upload =
      some ((run step (.start (CopyFate.importRequest true) CopyFate.smallWindow) upload).get
        rfl) := rfl
  obtain ⟨flows, -, -⟩ := copyWindow_conserved usable reached
  obtain ⟨c, channel, frames, -, -⟩ := flows [] rfl
  cases channel
  exact ⟨usable, _, _, reached, rfl, rfl, rfl, rfl, rfl, frames⟩

end FerroEngine.CopyWindow
