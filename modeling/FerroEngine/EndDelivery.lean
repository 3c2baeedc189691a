import FerroEngine.SessionTerminals

set_option autoImplicit false

/-! # One `END` for each request

What the client of a session sees: the frames of a request and its `END`, and the `END`s that the
reader sends on its own.
-/

namespace FerroEngine.EndDelivery

open LabelledRuns FrameRouting SessionLifecycle SessionTerminals

/-! ## What a session promises -/

def isEnd (frame : OutFrame) : Bool :=
  match frame.kind with
  | .terminal _ => true
  | _ => false

/-- The handler of the request has returned or panicked, or never ran. -/
def isOver : Phase → Bool
  | .reserving | .running _ | .finished _ => false
  | _ => true

/-- No `END` on the id of a request is enqueued before the request's own, unless it is that. -/
def Alone (log : List Event) : Prop :=
  ∀ before frame after, log = before ++ .frame frame :: after → isEnd frame = true →
    ∀ k, .accepted k frame.id ∈ before → isEndOf k frame = false →
      ∃ earlier, .frame earlier ∈ before ∧ isEndOf k earlier = true

/-- Every request has one `END`, after all its other frames, and no other `END` comes on its id
while it is in flight. -/
structure EndsOnce (s : Session) : Prop where
  atMostOne : ∀ k, endsOf k s.wire ≤ 1
  one : ∀ k r, s.requests[k]? = some r → isOver r.phase = true →
    s.written = s.frames.length → endsOf k s.wire = 1
  last : s.wire.Pairwise fun earlier later =>
    ∀ k, isEndOf k earlier = true → later.origin ≠ some k
  alone : Alone s.log
  /-- However the handler ends, the supervisor and the writer can bring the `END` to the wire. -/
  delivered : ∀ k r, s.requests[k]? = some r → ∀ declared, r.phase = .running declared →
    ∀ panicked, ∃ n t,
      run step s ([.task k (.resolve panicked), .task k .terminal] ++ List.replicate n .write) =
        some t ∧ endsOf k t.wire = 1

/-! ## The condition -/

/-- The reader answers the frame with an `END` on its id, or may do so. -/
def isAnswered (frame : InFrame) : Bool :=
  match classify (.frame frame) with
  | .perRequestErr _ _ => true
  | .frame _ =>
    frame.flags &&& flagCancel = 0 &&
      match route frame.service frame.method with
      | .request | .admin _ | .unsupported => true
      | _ => false
  | _ => false

/-- No frame that is answered with an `END` bears the id of a request in flight, the writer does
not fail and the drain deadline finds no request running. -/
def Clear (s : Session) : Label → Prop
  | .read (.frame frame) _ =>
    isAnswered frame = true → ∀ k, ¬In awaitsEnd s.requests k frame.requestId
  | .writerFails => False
  | .drainDeadline => s.requests.map abandon = s.requests
  | _ => True

/-- A refusal answers the frame on the id it bears. -/
theorem requestAction_refuse {s : Session} {id other : Nat} {payload : ErrorPayload}
    (refuse : requestAction s id = .refuse other payload) : other = id := by
  unfold requestAction at refuse
  split_ifs at refuse
  · cases refuse
    rfl
  · split at refuse
    · cases refuse
      rfl
    · cases refuse
      rfl
    · cases refuse

theorem classify_frame {input : Decoded} {frame : InFrame}
    (classified : classify input = .frame frame) : input = .frame frame := by
  cases input with
  | frame other =>
    simp only [classify, classifyFlags] at classified
    split at classified
    · cases classified
      rfl
    · cases classified
    · cases classified
  | codecError text => cases classified
  | closed => cases classified

theorem classify_perRequestErr {input : Decoded} {rid : Nat} {err : ErrorPayload}
    (classified : classify input = .perRequestErr rid err) :
    ∃ frame, input = .frame frame ∧ frame.requestId = rid := by
  cases input with
  | frame frame =>
    refine ⟨frame, rfl, ?_⟩
    simp only [classify, classifyFlags] at classified
    split at classified
    · cases classified
    · cases classified
    · cases classified
      rfl
  | codecError text => cases classified
  | closed => cases classified

theorem readerAction_refuse {s : Session} {input : Decoded} {violation : Option String} {id : Nat}
    {payload : ErrorPayload} (refuse : readerAction s input violation = .refuse id payload) :
    ∃ frame, input = .frame frame ∧ isAnswered frame = true ∧ frame.requestId = id := by
  unfold readerAction at refuse
  split at refuse
  · cases refuse
  · cases refuse
  · next rid err classified =>
    cases refuse
    obtain ⟨frame, rfl, same⟩ := classify_perRequestErr classified
    refine ⟨frame, rfl, ?_, same⟩
    unfold isAnswered
    rw [classified]
  · next frame classified =>
    obtain rfl := classify_frame classified
    by_cases cancel : frame.flags &&& flagCancel ≠ 0
    · rw [if_pos cancel] at refuse
      cases refuse
    rw [if_neg cancel] at refuse
    rw [not_ne_iff] at cancel
    have answered : (match route frame.service frame.method with
        | .request | .admin _ | .unsupported => true
        | _ => false) = true → isAnswered frame = true := by
      intro routed
      unfold isAnswered
      rw [classified, cancel]
      exact routed
    refine ⟨frame, rfl, ?_⟩
    split at refuse
    · split at refuse
      · cases refuse
      · cases refuse
    · cases refuse
    · cases refuse
    · unfold copyAction at refuse
      split at refuse
      · split at refuse
        · cases refuse
        · cases refuse
      · cases refuse
    · next routed => exact ⟨answered (by rw [routed]), (requestAction_refuse refuse).symm⟩
    · next routed =>
      refine ⟨answered (by rw [routed]), ?_⟩
      split at refuse
      · exact (requestAction_refuse refuse).symm
      · cases refuse
        rfl
    · next routed =>
      cases refuse
      exact ⟨answered (by rw [routed]), rfl⟩

/-! ## The order of the log -/

/-- What a clear run keeps, besides what every run keeps. -/
structure Ordered (s : Session) : Prop where
  writing : s.writing = true
  kept : ∀ (k : Nat) (r : Request), s.requests[k]? = some r →
    r.phase ≠ .dropped ∧ r.phase ≠ .abandoned
  known : ∀ k id, .accepted k id ∈ s.log → id ≠ 0 ∧ ∃ r, s.requests[k]? = some r ∧ r.id = id
  last : s.frames.Pairwise fun earlier later =>
    ∀ k, isEndOf k earlier = true → later.origin ≠ some k
  alone : Alone s.log

theorem ordered_start (maxInflight : Nat) (peerUid : Option Nat) (adminUids : List Nat) :
    Ordered (Session.start maxInflight peerUid adminUids) := by
  refine ⟨rfl, ?_, ?_, List.Pairwise.nil, ?_⟩
  · intro k r found
    simp [Session.start] at found
  · intro k id member
    cases member
  · intro before frame after split
    simp [Session.start] at split

theorem alone_append {log : List Event} (alone : Alone log) {event : Event}
    (new : ∀ frame, event = .frame frame → isEnd frame = true → ∀ k, .accepted k frame.id ∈ log →
      isEndOf k frame = false → ∃ earlier, .frame earlier ∈ log ∧ isEndOf k earlier = true) :
    Alone (log ++ [event]) := by
  intro before frame after split ended
  rcases List.eq_nil_or_concat after with rfl | ⟨front, final, rfl⟩
  · obtain ⟨rfl, same⟩ := List.append_inj' split rfl
    exact new frame (List.singleton_inj.mp same) ended
  · rw [List.concat_eq_append, ← List.cons_append, ← List.append_assoc] at split
    obtain ⟨rfl, -⟩ := List.append_inj' split rfl
    exact alone before frame front rfl ended

/-- A request whose terminal has been sent has it in the log. -/
theorem end_of_sent {s : Session} (sound : Sound s) {k : Nat} {r : Request}
    (found : s.requests[k]? = some r) (past : awaitsEnd r.phase = false) :
    ∃ earlier, .frame earlier ∈ s.log ∧ isEndOf k earlier = true := by
  have one := sound.ends k r found
  rw [past, if_neg Bool.false_ne_true] at one
  have positive : 0 < endsOf k s.frames := by omega
  obtain ⟨earlier, member, ended⟩ := List.countP_pos_iff.mp positive
  obtain ⟨event, member', sent⟩ := List.mem_filterMap.mp member
  cases event with
  | accepted j id => cases sent
  | frame frame =>
    cases sent
    exact ⟨earlier, member', ended⟩

theorem Ordered.enqueue {s : Session} (ordered : Ordered s) {frame : OutFrame}
    (ends : isEnd frame = true → ∀ k, .accepted k frame.id ∈ s.log → isEndOf k frame = false →
      ∃ earlier, .frame earlier ∈ s.log ∧ isEndOf k earlier = true)
    (origin : ∀ k, frame.origin = some k → endsOf k s.frames = 0) : Ordered (s.enqueue frame) := by
  refine ⟨ordered.writing, ordered.kept, ?_, ?_, ?_⟩
  · intro k id member
    refine ordered.known k id ?_
    rcases List.mem_append.mp member with early | late
    · exact early
    · cases List.mem_singleton.mp late
  · rw [frames_enqueue, List.pairwise_append]
    refine ⟨ordered.last, List.pairwise_singleton _ _, ?_⟩
    intro earlier member later new k ended of
    rw [List.mem_singleton] at new
    subst new
    have none' := List.countP_eq_zero.mp (origin k of) earlier member
    exact none' ended
  · refine alone_append ordered.alone ?_
    intro other same
    cases same
    exact ends

/-- A frame of the reader that is no `END` or answers no request in flight. -/
theorem Ordered.readerSend {s : Session} (ordered : Ordered s) (sound : Sound s)
    {frame : OutFrame} (plain : frame.origin = none)
    (idle : isEnd frame = true → ∀ k, ¬In awaitsEnd s.requests k frame.id) :
    Ordered (readerSend s frame) := by
  unfold SessionLifecycle.readerSend
  rw [if_pos ordered.writing]
  refine ordered.enqueue ?_ ?_
  · intro ended k member _
    obtain ⟨-, r, found, own⟩ := ordered.known k _ member
    refine end_of_sent sound found ?_
    by_contra awaits
    rw [Bool.not_eq_false] at awaits
    exact idle ended k ⟨r, found, own, awaits⟩
  · intro k origin
    rw [plain] at origin
    cases origin

theorem Ordered.accept {s : Session} (ordered : Ordered s) {id : Nat} (nonzero : id ≠ 0)
    (registry : List Nat) : Ordered (takeAction s (.accept id registry)) := by
  have frames : (takeAction s (.accept id registry)).frames = s.frames := by
    unfold takeAction Session.frames
    rw [List.filterMap_append]
    exact List.append_nil _
  refine ⟨ordered.writing, ?_, ?_, ?_, ?_⟩
  · intro k r found
    change (s.requests ++ [_])[k]? = some r at found
    rcases List.mem_append.mp (List.mem_of_getElem? found) with early | new
    · obtain ⟨j, below, rfl⟩ := List.mem_iff_getElem.mp early
      exact ordered.kept j _ (List.getElem?_eq_getElem below)
    · rw [List.mem_singleton] at new
      subst new
      exact ⟨Phase.noConfusion, Phase.noConfusion⟩
  · intro k other member
    rcases List.mem_append.mp member with early | late
    · obtain ⟨positive, r, found, own⟩ := ordered.known k other early
      refine ⟨positive, r, ?_, own⟩
      change (s.requests ++ [_])[k]? = some r
      rw [List.getElem?_append_left (length_of_getElem? found)]
      exact found
    · cases List.mem_singleton.mp late
      refine ⟨nonzero, { id := id, phase := .reserving }, ?_, rfl⟩
      change (s.requests ++ [_])[s.requests.length]? = _
      rw [List.getElem?_concat_length]
  · rw [frames]
    exact ordered.last
  · refine alone_append ordered.alone ?_
    intro frame same
    cases same

theorem Ordered.read {s : Session} (ordered : Ordered s) (sound : Sound s) (input : Decoded)
    (violation : Option String) (clear : Clear s (.read input violation)) :
    Ordered (takeAction s (readerAction s input violation)) := by
  cases action : readerAction s input violation with
  | stop =>
    exact ⟨ordered.writing, ordered.kept, ordered.known, ordered.last, ordered.alone⟩
  | fatal payload =>
    have sent : Ordered (SessionLifecycle.readerSend s (errorFrame 0 payload)) :=
      ordered.readerSend sound rfl fun _ k inside => sound.nonzero k 0 inside rfl
    exact ⟨sent.writing, sent.kept, sent.known, sent.last, sent.alone⟩
  | refuse id payload =>
    obtain ⟨frame, rfl, answered, rfl⟩ := readerAction_refuse action
    exact ordered.readerSend sound rfl fun _ => clear answered
  | pong id => exact ordered.readerSend sound rfl fun ended => (by cases ended)
  | ignore => exact ordered
  | accept id registry => exact ordered.accept (readerAction_accept action).1 registry

theorem Ordered.setPhase {s : Session} (ordered : Ordered s) {k : Nat} {r : Request}
    (found : s.requests[k]? = some r) {phase : Phase} (dropped : phase ≠ .dropped)
    (abandoned : phase ≠ .abandoned) : Ordered (s.setPhase k r phase) := by
  refine ⟨ordered.writing, ?_, ?_, ordered.last, ordered.alone⟩
  · intro j q found'
    change (s.requests.set k _)[j]? = some q at found'
    rw [List.getElem?_set] at found'
    split_ifs at found'
    · cases found'
      exact ⟨dropped, abandoned⟩
    · exact ordered.kept j q found'
  · intro j id member
    obtain ⟨positive, q, found', own⟩ := ordered.known j id member
    refine ⟨positive, ?_⟩
    by_cases here : k = j
    · subst here
      rw [found, Option.some.injEq] at found'
      subst found'
      refine ⟨{ r with phase := phase }, ?_, own⟩
      change (s.requests.set k _)[k]? = _
      rw [List.getElem?_set_self (length_of_getElem? found)]
    · refine ⟨q, ?_, own⟩
      change (s.requests.set k _)[j]? = _
      rw [List.getElem?_set_ne here]
      exact found'

/-- In a clear run a request that waits for its terminal is registered. -/
theorem Ordered.registered {s : Session} (ordered : Ordered s) {k id : Nat}
    (inside : In awaitsEnd s.requests k id) : In registered s.requests k id := by
  obtain ⟨r, found, own, awaits⟩ := inside
  refine ⟨r, found, own, ?_⟩
  cases phase : r.phase with
  | dropped => exact absurd phase (ordered.kept k r found).1
  | removed =>
    rw [phase] at awaits
    cases awaits
  | _ => rfl

theorem Ordered.emit {s : Session} (ordered : Ordered s) (sound : Sound s) {k : Nat} {r : Request}
    (found : s.requests[k]? = some r) (awaited : awaitsEnd r.phase = true) :
    Ordered ((s.setPhase k r r.phase).enqueue
      { id := r.id, kind := .stream, origin := some k }) := by
  obtain ⟨dropped, abandoned⟩ := ordered.kept k r found
  refine (ordered.setPhase found dropped abandoned).enqueue (fun ended => (by cases ended)) ?_
  intro j origin
  cases origin
  change endsOf k s.frames = 0
  rw [sound.ends k r found, if_pos awaited]

theorem Ordered.terminal {s : Session} (ordered : Ordered s) (sound : Sound s) {k : Nat}
    {r : Request} (found : s.requests[k]? = some r) (awaited : awaitsEnd r.phase = true)
    (outcome : Terminal) :
    Ordered ((s.setPhase k r .sent).enqueue
      { id := r.id, kind := .terminal outcome, origin := some k }) := by
  refine (ordered.setPhase found Phase.noConfusion Phase.noConfusion).enqueue ?_ ?_
  · intro _ j member other
    obtain ⟨-, q, found', own⟩ := ordered.known j r.id member
    refine end_of_sent sound found' ?_
    -- Two requests that wait for a terminal have different ids.
    by_contra awaits
    rw [Bool.not_eq_false] at awaits
    have same : j = k := sound.registry.unique j k r.id
      (ordered.registered ⟨q, found', own, awaits⟩) (ordered.registered ⟨r, found, rfl, awaited⟩)
    subst same
    simp [isEndOf] at other
  · intro j origin
    cases origin
    change endsOf k s.frames = 0
    rw [sound.ends k r found, if_pos awaited]

theorem Ordered.task {s t : Session} {k : Nat} {op : TaskOp} (ordered : Ordered s)
    (sound : Sound s) (moved : step s (.task k op) = some t) : Ordered t := by
  unfold step at moved
  cases found : s.requests[k]? with
  | none => simp [found] at moved
  | some r =>
    simp only [found, Option.map_eq_some_iff] at moved
    obtain ⟨next, taken, rfl⟩ := moved
    have moves := taskStep_moves taken
    obtain ⟨id, phase⟩ := r
    cases moves with
    | emit => exact ordered.emit sound found rfl
    | emitLate => exact absurd rfl (ordered.kept k _ found).2
    | declare terminal => exact ordered.setPhase found Phase.noConfusion Phase.noConfusion
    | resolve declared panicked terminal =>
      exact ordered.setPhase found Phase.noConfusion Phase.noConfusion
    | terminal terminal => exact ordered.terminal sound found rfl terminal
    | remove =>
      have gone : Ordered (s.setPhase k _ .removed) :=
        ordered.setPhase found Phase.noConfusion Phase.noConfusion
      exact ⟨gone.writing, gone.kept, gone.known, gone.last, gone.alone⟩

theorem ordered_step {s t : Session} {label : Label} (ordered : Ordered s) (sound : Sound s)
    (clear : Clear s label) (moved : step s label = some t) : Ordered t := by
  cases label with
  | read input violation =>
    simp only [step] at moved
    split_ifs at moved
    cases moved
    exact ordered.read sound input violation clear
  | reserve granted =>
    cases waits : s.reader with
    | looping => simp [step, waits] at moved
    | stopped => simp [step, waits] at moved
    | reserving k =>
      obtain ⟨r, found, -⟩ := sound.waiting k waits
      simp only [step, waits, found] at moved
      split_ifs at moved with ok writing
      · cases moved
        have running : Ordered (s.setPhase k r (.running none)) :=
          ordered.setPhase found Phase.noConfusion Phase.noConfusion
        exact ⟨running.writing, running.kept, running.known, running.last, running.alone⟩
      · exact absurd ordered.writing writing
  | task k op => exact ordered.task sound moved
  | write =>
    simp only [step] at moved
    split_ifs at moved
    cases moved
    exact ⟨ordered.writing, ordered.kept, ordered.known, ordered.last, ordered.alone⟩
  | writerFails => exact absurd clear id
  | drainDeadline =>
    simp only [step] at moved
    split_ifs at moved
    cases moved
    rw [show s.requests.map abandon = s.requests from clear]
    exact ordered

/-! ## Delivery -/

theorem run_writes {s : Session} (writing : s.writing = true) (n : Nat)
    (room : s.written + n ≤ s.frames.length) :
    run step s (List.replicate n .write) = some { s with written := s.written + n } := by
  induction n generalizing s with
  | zero => rfl
  | succ n ih =>
    have ready : s.writing = true ∧ s.written < s.frames.length := ⟨writing, by omega⟩
    rw [List.replicate_succ, run_cons]
    simp only [step, if_pos ready, Option.bind_some]
    have rest : run step { s with written := s.written + 1 } (List.replicate n .write) = _ :=
      ih writing (show s.written + 1 + n ≤ s.frames.length by omega)
    rw [rest, Nat.add_right_comm, Nat.add_assoc]

/-- Once everything is written, the wire holds every frame. -/
theorem wire_eq {s : Session} (all : s.written = s.frames.length) : s.wire = s.frames := by
  unfold Session.wire
  rw [all, List.take_length]

theorem step_task {s : Session} {k : Nat} {r : Request} (found : s.requests[k]? = some r)
    {op : TaskOp} {next : Phase × Option FrameKind} (taken : taskStep r.phase op = some next) :
    step s (.task k op) = some (advance s k r op next) := by
  simp only [step, found, taken, Option.map_some]

theorem advance_found {s : Session} {k : Nat} {r : Request} (found : s.requests[k]? = some r)
    (op : TaskOp) (next : Phase × Option FrameKind) :
    (advance s k r op next).requests[k]? = some { r with phase := next.1 } := by
  have same : (advance s k r op next).requests = s.requests.set k { r with phase := next.1 } := by
    obtain ⟨phase, kind⟩ := next
    unfold advance
    cases kind <;> split_ifs <;> rfl
  rw [same, List.getElem?_set_self (length_of_getElem? found)]

theorem delivered_of_sent {s : Session} (sound : Sound s) (writing : s.writing = true) {k : Nat}
    {r : Request} (found : s.requests[k]? = some r) (sent : awaitsEnd r.phase = false) :
    ∃ n t, run step s (List.replicate n .write) = some t ∧ endsOf k t.wire = 1 := by
  have bound := sound.written
  refine ⟨s.frames.length - s.written, _, run_writes writing _ (by omega), ?_⟩
  rw [wire_eq (show s.written + (s.frames.length - s.written) = s.frames.length by omega)]
  change endsOf k s.frames = 1
  rw [sound.ends k r found, sent]
  rfl

theorem delivered_of_running {s : Session} (sound : Sound s) (writing : s.writing = true)
    {k : Nat} {r : Request} (found : s.requests[k]? = some r) {declared : Option Terminal}
    (running : r.phase = .running declared) (panicked : Bool) :
    ∃ n t, run step s ([.task k (.resolve panicked), .task k .terminal] ++
      List.replicate n .write) = some t ∧ endsOf k t.wire = 1 := by
  obtain ⟨id, phase⟩ := r
  subst running
  obtain ⟨outcome, resolved⟩ : ∃ outcome, taskStep (.running declared) (.resolve panicked) =
      some (.finished outcome, none) := by
    cases declared <;> exact ⟨_, rfl⟩
  have first := step_task found resolved
  have found' := advance_found found (.resolve panicked) (.finished outcome, none)
  have second := step_task found' (show taskStep (.finished outcome) .terminal = _ from rfl)
  have sent := sound_step (sound_step sound first) second
  obtain ⟨n, t, writes, one⟩ :=
    delivered_of_sent sent writing (advance_found found' .terminal (.sent, _)) rfl
  refine ⟨n, t, ?_, one⟩
  rw [List.cons_append, List.cons_append, List.nil_append, run_cons, first, Option.bind_some,
    run_cons, second, Option.bind_some]
  exact writes

theorem endsOnce_of_ordered {s : Session} (sound : Sound s) (ordered : Ordered s) : EndsOnce s := by
  refine ⟨sound.ends_le, ?_, ordered.last.sublist (List.take_sublist _ _), ordered.alone, ?_⟩
  · intro k r found past all
    rw [wire_eq all, sound.ends k r found, if_neg]
    obtain ⟨dropped, abandoned⟩ := ordered.kept k r found
    cases phase : r.phase with
    | sent => exact Bool.false_ne_true
    | removed => exact Bool.false_ne_true
    | dropped => exact absurd phase dropped
    | abandoned => exact absurd phase abandoned
    | _ =>
      rw [phase] at past
      cases past
  · intro k r found declared running panicked
    exact delivered_of_running sound ordered.writing found running panicked

/-- In every run whose steps are clear, every state reached keeps one `END` for each request. -/
theorem endsOnce_of_clear {maxInflight : Nat} {peerUid : Option Nat} {adminUids : List Nat}
    {labels : List Label} {s : Session}
    (clear : Meets step Clear (Session.start maxInflight peerUid adminUids) labels)
    (reached : run step (Session.start maxInflight peerUid adminUids) labels = some s) :
    EndsOnce s := by
  have keep : ∀ {before after : Session} {label : Label}, Sound before ∧ Ordered before →
      Clear before label → step before label = some after → Sound after ∧ Ordered after := by
    intro before after label both cond moved
    exact ⟨sound_step both.1 moved, ordered_step both.2 both.1 cond moved⟩
  have holds := run_invariant step keep ⟨sound_start _ _ _, ordered_start _ _ _⟩ clear reached
  exact endsOnce_of_ordered holds.1 holds.2

/-- A `CORE` frame of no method. -/
def strayFrame (id : Nat) : InFrame :=
  { flags := 0, service := 1, method := 99, requestId := id, decodes := true }

/-- A request whose handler streams one frame and panics, beside a stray frame on another id. -/
def twoFrames (id other : Nat) : List Label :=
  [.read (.frame { flags := 0, service := 2, method := 1, requestId := id, decodes := true }) none,
    .reserve true, .read (.frame (strayFrame other)) none, .task 0 .emit,
    .task 0 (.resolve true), .task 0 .terminal, .write, .write, .write]

theorem endsOnce_of_clear_on_sample :
    ∃ s, run step (Session.start 8 none []) (twoFrames 7 9) = some s ∧ EndsOnce s ∧
      s.wire.length = 3 := by
  have reached : run step (Session.start 8 none []) (twoFrames 7 9) =
      some ((run step (Session.start 8 none []) (twoFrames 7 9)).get rfl) := rfl
  have clear : Meets step Clear (Session.start 8 none []) (twoFrames 7 9) := by
    refine meets_cons step ?_ rfl (meets_cons step trivial rfl (meets_cons step ?_ rfl
      (meets_cons step trivial rfl (meets_cons step trivial rfl (meets_cons step trivial rfl
        (meets_cons step trivial rfl (meets_cons step trivial rfl (meets_cons step trivial rfl
          trivial))))))))
    · rintro _ k ⟨r, found, -⟩
      cases found
    · rintro _ k ⟨r, found, own, -⟩
      match k with
      | 0 =>
        cases found
        cases own
      | k + 1 => cases found
  exact ⟨_, reached, endsOnce_of_clear clear reached, rfl⟩

/-- The stray frame on the id of a running request gets an `END` on that id. -/
theorem stray_ends_request_in_flight :
    ∃ s, run step (Session.start 8 none []) (twoFrames 7 7) = some s ∧ ¬EndsOnce s := by
  refine ⟨_, rfl, ?_⟩
  intro once
  obtain ⟨earlier, member, ended⟩ := once.alone [.accepted 0 7]
    (errorFrame 7 (errorPayload unsupportedCode "service/method not yet implemented")) _ rfl rfl 0
    (List.mem_singleton.mpr rfl) rfl
  cases List.mem_singleton.mp member

end FerroEngine.EndDelivery
