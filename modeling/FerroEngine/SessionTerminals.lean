import FerroEngine.SessionLifecycle

set_option autoImplicit false

/-! # Terminals of a session

Which requests the registry holds, and in which order the frames of a request id go out.
-/

namespace FerroEngine.SessionTerminals

open LabelledRuns FrameRouting SessionLifecycle

/-! ## Phases -/

def registered : Phase → Bool
  | .removed | .dropped => false
  | _ => true

/-- The request has been accepted and its terminal has not been sent. -/
def awaitsEnd : Phase → Bool
  | .sent | .removed => false
  | _ => true

/-- What the tasks of a request can do. -/
inductive Moves : Phase → TaskOp → Phase × Option FrameKind → Prop
  | emit : Moves (.running none) .emit (.running none, some .stream)
  | emitLate : Moves .abandoned .emit (.abandoned, some .stream)
  | declare (terminal : Terminal) :
      Moves (.running none) (.declare terminal) (.running (some terminal), none)
  | resolve (declared : Option Terminal) (panicked : Bool) (terminal : Terminal) :
      Moves (.running declared) (.resolve panicked) (.finished terminal, none)
  | terminal (terminal : Terminal) :
      Moves (.finished terminal) .terminal (.sent, some (.terminal terminal))
  | remove : Moves .sent .remove (.removed, none)

theorem taskStep_moves {phase : Phase} {op : TaskOp} {next : Phase × Option FrameKind}
    (moved : taskStep phase op = some next) : Moves phase op next := by
  unfold taskStep at moved
  split at moved
  · cases moved
    exact .emit
  · cases moved
    exact .emitLate
  · cases moved
    exact .declare _
  · cases moved
    exact .resolve _ _ _
  · cases moved
    exact .terminal _
  · cases moved
    exact .remove
  · cases moved

/-- The request `k` has the id and is in a phase of the given kind. -/
def In (kind : Phase → Bool) (requests : List Request) (k id : Nat) : Prop :=
  ∃ r, requests[k]? = some r ∧ r.id = id ∧ kind r.phase = true

theorem in_set {kind : Phase → Bool} {requests : List Request} {k : Nat} {r : Request}
    (found : requests[k]? = some r) (phase : Phase) (j id : Nat) :
    In kind (requests.set k { r with phase := phase }) j id ↔
      if j = k then r.id = id ∧ kind phase = true else In kind requests j id := by
  have inside : k < requests.length := by
    by_contra outside
    rw [List.getElem?_eq_none (Nat.le_of_not_lt outside)] at found
    cases found
  unfold In
  rw [List.getElem?_set]
  by_cases same : j = k
  · subst same
    simp [inside]
  · rw [if_neg (Ne.symm same), if_neg same]

/-- A phase of the same kind changes nothing. -/
theorem in_set_same {kind : Phase → Bool} {requests : List Request} {k : Nat} {r : Request}
    (found : requests[k]? = some r) {phase : Phase} (same : kind phase = kind r.phase)
    (j id : Nat) :
    In kind (requests.set k { r with phase := phase }) j id ↔ In kind requests j id := by
  rw [in_set found]
  by_cases here : j = k
  · subst here
    rw [if_pos rfl, same]
    constructor
    · rintro ⟨own, holds⟩
      exact ⟨r, found, own, holds⟩
    · rintro ⟨q, found', own, holds⟩
      rw [found, Option.some.injEq] at found'
      subst found'
      exact ⟨own, holds⟩
  · rw [if_neg here]

theorem in_append {kind : Phase → Bool} {requests : List Request} {r : Request} (j id : Nat) :
    In kind (requests ++ [r]) j id ↔
      (j = requests.length ∧ r.id = id ∧ kind r.phase = true) ∨ In kind requests j id := by
  unfold In
  rcases Nat.lt_trichotomy j requests.length with below | rfl | above
  · rw [List.getElem?_append_left below]
    constructor
    · exact Or.inr
    · rintro (⟨rfl, -⟩ | holds)
      · omega
      · exact holds
  · rw [List.getElem?_append_right (Nat.le_refl _), List.getElem?_eq_none (Nat.le_refl _)]
    simp
  · rw [List.getElem?_eq_none (by rw [List.length_append, List.length_singleton]; omega),
      List.getElem?_eq_none (by omega)]
    constructor
    · rintro ⟨q, none', -⟩
      cases none'
    · rintro (⟨rfl, -⟩ | ⟨q, none', -⟩)
      · omega
      · cases none'

theorem in_abandon {kind : Phase → Bool}
    (same : ∀ r : Request, kind (abandon r).phase = kind r.phase) {requests : List Request}
    (j id : Nat) : In kind (requests.map abandon) j id ↔ In kind requests j id := by
  have id' : ∀ r : Request, (abandon r).id = r.id := by
    intro r
    unfold abandon
    split
    · rfl
    · rfl
    · rfl
  unfold In
  rw [List.getElem?_map]
  cases requests[j]? with
  | none => simp
  | some r =>
    rw [Option.map_some]
    constructor
    · rintro ⟨q, found, own, holds⟩
      rw [Option.some.injEq] at found
      subst found
      exact ⟨r, rfl, (id' r).symm.trans own, (same r).symm.trans holds⟩
    · rintro ⟨q, found, own, holds⟩
      rw [Option.some.injEq] at found
      subst found
      exact ⟨abandon r, rfl, (id' r).trans own, (same r).trans holds⟩

/-! ## The registry -/

/-- The registry holds the ids of the registered requests, each of one request. -/
structure Registered (registry : List Nat) (requests : List Request) : Prop where
  listed : ∀ k id, In registered requests k id → id ∈ registry
  owned : ∀ id ∈ registry, ∃ k, In registered requests k id
  unique : ∀ j k id, In registered requests j id → In registered requests k id → j = k
  nodup : registry.Nodup

theorem Registered.congr {registry : List Nat} {requests others : List Request}
    (holds : Registered registry requests)
    (same : ∀ k id, In registered others k id ↔ In registered requests k id) :
    Registered registry others := by
  refine ⟨?_, ?_, ?_, holds.nodup⟩
  · intro k id inside
    exact holds.listed k id ((same k id).mp inside)
  · intro id member
    obtain ⟨k, inside⟩ := holds.owned id member
    exact ⟨k, (same k id).mpr inside⟩
  · intro j k id first second
    exact holds.unique j k id ((same j id).mp first) ((same k id).mp second)

theorem Registered.insert {registry : List Nat} {requests : List Request} {id : Nat}
    (holds : Registered registry requests) (fresh : id ∉ registry) :
    Registered (id :: registry) (requests ++ [{ id := id, phase := .reserving }]) := by
  refine ⟨?_, ?_, ?_, List.nodup_cons.mpr ⟨fresh, holds.nodup⟩⟩
  · intro k other inside
    rcases (in_append k other).mp inside with ⟨-, rfl, -⟩ | earlier
    · exact List.mem_cons_self
    · exact List.mem_cons_of_mem _ (holds.listed k other earlier)
  · intro other member
    rcases List.mem_cons.mp member with rfl | earlier
    · exact ⟨requests.length, (in_append _ _).mpr (Or.inl ⟨rfl, rfl, rfl⟩)⟩
    · obtain ⟨k, inside⟩ := holds.owned other earlier
      exact ⟨k, (in_append _ _).mpr (Or.inr inside)⟩
  · intro j k other first second
    rcases (in_append j other).mp first with ⟨rfl, rfl, -⟩ | early
    · rcases (in_append k _).mp second with ⟨rfl, -, -⟩ | late
      · rfl
      · exact absurd (holds.listed k _ late) fresh
    · rcases (in_append k other).mp second with ⟨rfl, rfl, -⟩ | late
      · exact absurd (holds.listed j _ early) fresh
      · exact holds.unique j k other early late

theorem Registered.erase {registry : List Nat} {requests : List Request} {k : Nat} {r : Request}
    {phase : Phase} (holds : Registered registry requests) (found : requests[k]? = some r)
    (was : registered r.phase = true) (gone : registered phase = false) :
    Registered (registry.erase r.id) (requests.set k { r with phase := phase }) := by
  have own : In registered requests k r.id := ⟨r, found, rfl, was⟩
  have others : ∀ j id, In registered (requests.set k { r with phase := phase }) j id ↔
      j ≠ k ∧ In registered requests j id := by
    intro j id
    rw [in_set found]
    by_cases here : j = k
    · simp [here, gone]
    · simp [here]
  refine ⟨?_, ?_, ?_, holds.nodup.erase _⟩
  · intro j id inside
    obtain ⟨apart, earlier⟩ := (others j id).mp inside
    refine (List.mem_erase_of_ne ?_).mpr (holds.listed j id earlier)
    rintro rfl
    exact apart (holds.unique j k _ earlier own)
  · intro id member
    obtain ⟨j, inside⟩ := holds.owned id (List.mem_of_mem_erase member)
    refine ⟨j, (others j id).mpr ⟨?_, inside⟩⟩
    rintro rfl
    obtain ⟨q, found', rfl, -⟩ := inside
    rw [found, Option.some.injEq] at found'
    subst found'
    exact absurd member (holds.nodup.not_mem_erase)
  · intro i j id first second
    exact holds.unique i j id ((others i id).mp first).2 ((others j id).mp second).2

/-! ## Counting terminals -/

def isEndOf (k : Nat) (frame : OutFrame) : Bool :=
  match frame.kind with
  | .terminal _ => frame.origin == some k
  | _ => false

/-- How many terminals of the request there are among the frames. -/
def endsOf (k : Nat) (frames : List OutFrame) : Nat :=
  frames.countP (isEndOf k)

/-- What holds in every state of a session. -/
structure Sound (s : Session) : Prop where
  registry : Registered s.registry s.requests
  waiting : ∀ k, s.reader = .reserving k → ∃ r, s.requests[k]? = some r ∧ r.phase = .reserving
  live : s.reader ≠ .stopped → ∀ k id, In awaitsEnd s.requests k id → In registered s.requests k id
  nonzero : ∀ k id, In awaitsEnd s.requests k id → id ≠ 0
  ends : ∀ k r, s.requests[k]? = some r →
    endsOf k s.frames = if awaitsEnd r.phase = true then 0 else 1
  origins : ∀ frame ∈ s.frames, ∀ k, frame.origin = some k → k < s.requests.length
  written : s.written ≤ s.frames.length

theorem frames_enqueue (s : Session) (frame : OutFrame) :
    (s.enqueue frame).frames = s.frames ++ [frame] := by
  unfold Session.frames Session.enqueue
  rw [List.filterMap_append]
  rfl

theorem endsOf_append (k : Nat) (frames : List OutFrame) (frame : OutFrame) :
    endsOf k (frames ++ [frame]) = endsOf k frames + if isEndOf k frame then 1 else 0 := by
  unfold endsOf
  rw [List.countP_append, List.countP_singleton]

theorem endsOf_wire_le (s : Session) (k : Nat) : endsOf k s.wire ≤ endsOf k s.frames :=
  (List.take_sublist _ _).countP_le

theorem sound_start (maxInflight : Nat) (peerUid : Option Nat) (adminUids : List Nat) :
    Sound (Session.start maxInflight peerUid adminUids) := by
  have none' : ∀ kind k id, ¬In kind (Session.start maxInflight peerUid adminUids).requests k id := by
    rintro kind k id ⟨r, found, -⟩
    simp [Session.start] at found
  refine ⟨⟨?_, ?_, ?_, List.nodup_nil⟩, ?_, ?_, ?_, ?_, ?_, Nat.le_refl _⟩
  · exact fun k id inside => absurd inside (none' _ k id)
  · exact fun id member => by cases member
  · exact fun j k id inside => absurd inside (none' _ j id)
  · exact fun k reserving => by cases reserving
  · exact fun _ k id inside => absurd inside (none' _ k id)
  · exact fun k id inside => absurd inside (none' _ k id)
  · exact fun k r found => by simp [Session.start] at found
  · exact fun frame member => by cases member

/-- A frame that is the terminal of no request. -/
theorem Sound.enqueue {s : Session} (sound : Sound s) {frame : OutFrame}
    (other : ∀ k, isEndOf k frame = false)
    (origin : ∀ k, frame.origin = some k → k < s.requests.length) : Sound (s.enqueue frame) := by
  refine ⟨sound.registry, sound.waiting, sound.live, sound.nonzero, ?_, ?_, ?_⟩
  · intro k r found
    rw [frames_enqueue, endsOf_append, other k, sound.ends k r found]
    rfl
  · intro earlier member k of
    rw [frames_enqueue, List.mem_append, List.mem_singleton] at member
    rcases member with early | rfl
    · exact sound.origins earlier early k of
    · exact origin k of
  · rw [frames_enqueue, List.length_append]
    exact Nat.le_trans sound.written (Nat.le_add_right _ _)

theorem isEndOf_plain {frame : OutFrame} (plain : frame.origin = none) (k : Nat) :
    isEndOf k frame = false := by
  unfold isEndOf
  rw [plain]
  cases frame.kind with
  | terminal outcome => rfl
  | _ => rfl

theorem Sound.stop {s : Session} (sound : Sound s) : Sound { s with reader := .stopped } :=
  ⟨sound.registry, fun _ reserving => (by cases reserving), fun running => absurd rfl running,
    sound.nonzero, sound.ends, sound.origins, sound.written⟩

theorem Sound.readerSend {s : Session} (sound : Sound s) {frame : OutFrame}
    (plain : frame.origin = none) : Sound (readerSend s frame) := by
  unfold SessionLifecycle.readerSend
  split
  · refine sound.enqueue (isEndOf_plain plain) ?_
    intro k origin
    rw [plain] at origin
    cases origin
  · exact sound.stop

theorem insert_ok {s : Session} {id : Nat} {registry : List Nat}
    (ok : s.insert id = .ok registry) : id ∉ s.registry ∧ registry = id :: s.registry := by
  unfold Session.insert at ok
  split_ifs at ok with listed full
  cases ok
  exact ⟨listed, rfl⟩

/-- The ids that the reader accepts are free, and it opens a request only on such an id. -/
theorem requestAction_accept {s : Session} {id other : Nat} {registry : List Nat}
    (accept : requestAction s id = .accept other registry) :
    other = id ∧ id ≠ 0 ∧ id ∉ s.registry ∧ registry = id :: s.registry := by
  unfold requestAction at accept
  split_ifs at accept with zero
  split at accept
  · cases accept
  · cases accept
  · next registry' ok =>
    cases accept
    exact ⟨rfl, zero, insert_ok ok⟩

theorem readerAction_accept {s : Session} {input : Decoded} {violation : Option String} {id : Nat}
    {registry : List Nat} (accept : readerAction s input violation = .accept id registry) :
    id ≠ 0 ∧ id ∉ s.registry ∧ registry = id :: s.registry := by
  unfold readerAction at accept
  split at accept
  · cases accept
  · cases accept
  · cases accept
  · next frame _ =>
    by_cases cancel : frame.flags &&& flagCancel ≠ 0
    · rw [if_pos cancel] at accept
      cases accept
    rw [if_neg cancel] at accept
    split at accept
    · split at accept
      · cases accept
      · cases accept
    · cases accept
    · cases accept
    · unfold copyAction at accept
      split at accept
      · split at accept
        · cases accept
        · cases accept
      · cases accept
    · obtain ⟨rfl, rest⟩ := requestAction_accept accept
      exact rest
    · split at accept
      · obtain ⟨rfl, rest⟩ := requestAction_accept accept
        exact rest
      · cases accept
    · cases accept

theorem Sound.accept {s : Session} (sound : Sound s) (looping : s.reader = .looping) {id : Nat}
    (nonzero : id ≠ 0) (fresh : id ∉ s.registry) :
    Sound (takeAction s (.accept id (id :: s.registry))) := by
  have frames : (takeAction s (.accept id (id :: s.registry))).frames = s.frames := by
    unfold takeAction Session.frames
    rw [List.filterMap_append]
    exact List.append_nil _
  refine ⟨sound.registry.insert fresh, ?_, ?_, ?_, ?_, ?_, ?_⟩
  · intro k reserving
    cases reserving
    exact ⟨{ id := id, phase := .reserving }, by simp [takeAction], rfl⟩
  · intro _ k other inside
    rcases (in_append k other).mp inside with ⟨rfl, rfl, -⟩ | earlier
    · exact (in_append _ _).mpr (Or.inl ⟨rfl, rfl, rfl⟩)
    · refine (in_append _ _).mpr (Or.inr (sound.live ?_ k other earlier))
      rw [looping]
      decide
  · intro k other inside
    rcases (in_append k other).mp inside with ⟨-, rfl, -⟩ | earlier
    · exact nonzero
    · exact sound.nonzero k other earlier
  · intro k r found
    rw [frames]
    change (s.requests ++ [_])[k]? = some r at found
    rcases Nat.lt_or_ge k s.requests.length with below | above
    · rw [List.getElem?_append_left below] at found
      exact sound.ends k r found
    · rw [List.getElem?_append_right above] at found
      have last : k = s.requests.length := by
        by_contra other
        rw [List.getElem?_eq_none (by rw [List.length_singleton]; omega)] at found
        cases found
      subst last
      rw [Nat.sub_self] at found
      cases found
      -- No frame names a request that does not exist yet.
      refine List.countP_eq_zero.mpr ?_
      intro frame member ended
      unfold isEndOf at ended
      split at ended
      · have bound := sound.origins frame member s.requests.length (by simpa using ended)
        omega
      · cases ended
  · intro frame member k origin
    rw [frames] at member
    have bound := sound.origins frame member k origin
    change k < (s.requests ++ [_]).length
    rw [List.length_append]
    omega
  · rw [frames]
    exact sound.written

theorem Sound.read {s : Session} (sound : Sound s) (looping : s.reader = .looping)
    (input : Decoded) (violation : Option String) :
    Sound (takeAction s (readerAction s input violation)) := by
  cases action : readerAction s input violation with
  | stop => exact sound.stop
  | fatal payload => exact (sound.readerSend rfl).stop
  | refuse id payload => exact sound.readerSend rfl
  | pong id => exact sound.readerSend rfl
  | ignore => exact sound
  | accept id registry =>
    obtain ⟨nonzero, fresh, rfl⟩ := readerAction_accept action
    exact sound.accept looping nonzero fresh

theorem endsOf_set {s : Session} (sound : Sound s) {k : Nat} {r : Request}
    (found : s.requests[k]? = some r) {phase : Phase} (same : awaitsEnd phase = awaitsEnd r.phase)
    (j : Nat) (q : Request) (found' : (s.setPhase k r phase).requests[j]? = some q) :
    endsOf j s.frames = if awaitsEnd q.phase = true then 0 else 1 := by
  change (s.requests.set k { r with phase := phase })[j]? = some q at found'
  rw [List.getElem?_set] at found'
  by_cases here : k = j
  · subst here
    rw [if_pos rfl] at found'
    split_ifs at found'
    cases found'
    rw [sound.ends k r found, same]
  · rw [if_neg here] at found'
    exact sound.ends j q found'

/-- A phase change that keeps the request registered and its terminal as it was. -/
theorem Sound.setPhase {s : Session} (sound : Sound s) {k : Nat} {r : Request}
    (found : s.requests[k]? = some r) {phase : Phase}
    (same : registered phase = registered r.phase) (same' : awaitsEnd phase = awaitsEnd r.phase)
    (apart : ∀ j, s.reader = .reserving j → j ≠ k) : Sound (s.setPhase k r phase) := by
  refine ⟨sound.registry.congr (in_set_same found same), ?_, ?_, ?_, endsOf_set sound found same',
    ?_, sound.written⟩
  · intro j reserving
    obtain ⟨q, found', waits⟩ := sound.waiting j reserving
    refine ⟨q, ?_, waits⟩
    change (s.requests.set k _)[j]? = some q
    rw [List.getElem?_set_ne (Ne.symm (apart j reserving))]
    exact found'
  · intro running j id inside
    exact (in_set_same found same j id).mpr
      (sound.live running j id ((in_set_same found same' j id).mp inside))
  · intro j id inside
    exact sound.nonzero j id ((in_set_same found same' j id).mp inside)
  · intro frame member j origin
    have bound := sound.origins frame member j origin
    change j < (s.requests.set k _).length
    rwa [List.length_set]

theorem Sound.reserve {s t : Session} {granted : Bool} (sound : Sound s)
    (moved : step s (.reserve granted) = some t) : Sound t := by
  unfold step at moved
  cases waits : s.reader with
  | looping =>
    rw [waits] at moved
    cases moved
  | stopped =>
    rw [waits] at moved
    cases moved
  | reserving k =>
    obtain ⟨r, found, phase⟩ := sound.waiting k waits
    rw [waits] at moved
    simp only [found] at moved
    split_ifs at moved with ok writing
    · cases moved
      have kept : Sound { s with reader := .looping } :=
        ⟨sound.registry, fun _ reserving => (by cases reserving),
          fun _ => sound.live (by rw [waits]; exact Reader.noConfusion), sound.nonzero, sound.ends,
          sound.origins, sound.written⟩
      exact kept.setPhase found (by rw [phase]; rfl) (by rw [phase]; rfl)
        fun _ reserving => (by cases reserving)
    · cases moved
      have was : registered r.phase = true := by rw [phase]; rfl
      have still : awaitsEnd Phase.dropped = awaitsEnd r.phase := by rw [phase]; rfl
      refine ⟨sound.registry.erase found was rfl, fun _ reserving => (by cases reserving),
        fun running => absurd rfl running, ?_, endsOf_set sound found still, ?_, sound.written⟩
      · intro j id inside
        exact sound.nonzero j id ((in_set_same found still j id).mp inside)
      · intro frame member j origin
        have bound := sound.origins frame member j origin
        change j < (s.requests.set k _).length
        rwa [List.length_set]

theorem length_of_getElem? {requests : List Request} {k : Nat} {r : Request}
    (found : requests[k]? = some r) : k < requests.length :=
  (List.getElem?_eq_some_iff.mp found).1

/-- The supervisor sends the terminal. -/
theorem Sound.terminal {s : Session} (sound : Sound s) {k : Nat} {r : Request}
    (found : s.requests[k]? = some r) (was : registered r.phase = true)
    (awaited : awaitsEnd r.phase = true) (apart : ∀ j, s.reader = .reserving j → j ≠ k)
    (outcome : Terminal) :
    Sound ((s.setPhase k r .sent).enqueue
      { id := r.id, kind := .terminal outcome, origin := some k }) := by
  have fewer : ∀ j id, In awaitsEnd (s.requests.set k { r with phase := .sent }) j id →
      In awaitsEnd s.requests j id := by
    intro j id inside
    rw [in_set found] at inside
    split_ifs at inside
    · cases inside.2
    · exact inside
  refine ⟨sound.registry.congr (in_set_same found was.symm), ?_, ?_, ?_, ?_, ?_, ?_⟩
  · intro j reserving
    obtain ⟨q, found', waits⟩ := sound.waiting j reserving
    refine ⟨q, ?_, waits⟩
    change (s.requests.set k _)[j]? = some q
    rw [List.getElem?_set_ne (Ne.symm (apart j reserving))]
    exact found'
  · intro running j id inside
    exact (in_set_same found was.symm j id).mpr (sound.live running j id (fewer j id inside))
  · intro j id inside
    exact sound.nonzero j id (fewer j id inside)
  · intro j q found'
    rw [frames_enqueue, endsOf_append]
    change (s.requests.set k _)[j]? = some q at found'
    rw [List.getElem?_set] at found'
    by_cases here : k = j
    · subst here
      rw [if_pos rfl, if_pos (length_of_getElem? found)] at found'
      cases found'
      change endsOf k s.frames + _ = _
      rw [sound.ends k r found, if_pos awaited]
      simp [isEndOf, awaitsEnd]
    · rw [if_neg here] at found'
      change endsOf j s.frames + _ = _
      rw [sound.ends j q found']
      simp [isEndOf, here]
  · intro frame member j origin
    change j < (s.requests.set k _).length
    rw [List.length_set]
    rw [frames_enqueue, List.mem_append, List.mem_singleton] at member
    rcases member with early | rfl
    · exact sound.origins frame early j origin
    · cases origin
      exact length_of_getElem? found
  · rw [frames_enqueue, List.length_append]
    exact Nat.le_trans sound.written (Nat.le_add_right _ _)

/-- The supervisor removes the id. -/
theorem Sound.removed {s : Session} (sound : Sound s) {k : Nat} {r : Request}
    (found : s.requests[k]? = some r) (phase : r.phase = .sent)
    (apart : ∀ j, s.reader = .reserving j → j ≠ k) :
    Sound ((s.setPhase k r .removed).remove r.id) := by
  have was : registered r.phase = true := by rw [phase]; rfl
  have still : awaitsEnd Phase.removed = awaitsEnd r.phase := by rw [phase]; rfl
  refine ⟨sound.registry.erase found was rfl, ?_, ?_, ?_, endsOf_set sound found still, ?_,
    sound.written⟩
  · intro j reserving
    obtain ⟨q, found', waits⟩ := sound.waiting j reserving
    refine ⟨q, ?_, waits⟩
    change (s.requests.set k _)[j]? = some q
    rw [List.getElem?_set_ne (Ne.symm (apart j reserving))]
    exact found'
  · intro running j id inside
    have earlier := (in_set_same found still j id).mp inside
    refine (in_set found _ j id).mpr ?_
    rw [if_neg]
    · exact sound.live running j id earlier
    · rintro rfl
      obtain ⟨q, found', -, awaits⟩ := earlier
      rw [found, Option.some.injEq] at found'
      subst found'
      rw [phase] at awaits
      cases awaits
  · intro j id inside
    exact sound.nonzero j id ((in_set_same found still j id).mp inside)
  · intro frame member j origin
    have bound := sound.origins frame member j origin
    change j < (s.requests.set k _).length
    rwa [List.length_set]

/-- A frame of the request's stream. -/
theorem Sound.emit {s : Session} (sound : Sound s) {k : Nat} {r : Request}
    (found : s.requests[k]? = some r) (apart : ∀ j, s.reader = .reserving j → j ≠ k) :
    Sound ((s.setPhase k r r.phase).enqueue { id := r.id, kind := .stream, origin := some k }) := by
  refine (sound.setPhase found rfl rfl apart).enqueue (fun _ => rfl) ?_
  intro j origin
  cases origin
  change k < (s.requests.set k _).length
  rw [List.length_set]
  exact length_of_getElem? found

theorem Sound.task {s t : Session} {k : Nat} {op : TaskOp} (sound : Sound s)
    (moved : step s (.task k op) = some t) : Sound t := by
  unfold step at moved
  cases found : s.requests[k]? with
  | none => simp [found] at moved
  | some r =>
    simp only [found, Option.map_eq_some_iff] at moved
    obtain ⟨next, taken, rfl⟩ := moved
    have moves := taskStep_moves taken
    -- The request that waits for its permit has no task yet.
    have apart : ∀ j, s.reader = .reserving j → j ≠ k := by
      rintro j reserving rfl
      obtain ⟨q, found', waits⟩ := sound.waiting j reserving
      rw [found, Option.some.injEq] at found'
      subst found'
      rw [waits] at moves
      cases moves
    obtain ⟨id, phase⟩ := r
    cases moves with
    | emit => exact sound.emit found apart
    | emitLate => exact sound.emit found apart
    | declare terminal => exact sound.setPhase found rfl rfl apart
    | resolve declared panicked terminal => exact sound.setPhase found rfl rfl apart
    | terminal terminal => exact sound.terminal found rfl rfl apart terminal
    | remove => exact sound.removed found rfl apart

theorem Sound.abandon {s : Session} (sound : Sound s) (stopped : s.reader = .stopped) :
    Sound { s with requests := s.requests.map abandon } := by
  have same : ∀ r : Request, registered (SessionLifecycle.abandon r).phase = registered r.phase := by
    rintro ⟨id, phase⟩
    cases phase <;> rfl
  have same' : ∀ r : Request, awaitsEnd (SessionLifecycle.abandon r).phase = awaitsEnd r.phase := by
    rintro ⟨id, phase⟩
    cases phase <;> rfl
  refine ⟨sound.registry.congr (in_abandon same), ?_, ?_, ?_, ?_, ?_, sound.written⟩
  · intro k reserving
    exact absurd (stopped.symm.trans reserving) Reader.noConfusion
  · exact fun running => absurd stopped running
  · intro k id inside
    exact sound.nonzero k id ((in_abandon same' k id).mp inside)
  · intro k r found
    change (s.requests.map _)[k]? = some r at found
    rw [List.getElem?_map, Option.map_eq_some_iff] at found
    obtain ⟨q, found', rfl⟩ := found
    rw [same']
    exact sound.ends k q found'
  · intro frame member k origin
    have bound := sound.origins frame member k origin
    change k < (s.requests.map _).length
    rwa [List.length_map]

/-- Every step of a session keeps the registry and the terminals in order. -/
theorem sound_step {s t : Session} {label : Label} (sound : Sound s)
    (moved : step s label = some t) : Sound t := by
  cases label with
  | read input violation =>
    simp only [step] at moved
    split_ifs at moved with looping
    cases moved
    exact sound.read looping input violation
  | reserve granted => exact sound.reserve moved
  | task k op => exact sound.task moved
  | write =>
    simp only [step] at moved
    split_ifs at moved with ready
    cases moved
    exact ⟨sound.registry, sound.waiting, sound.live, sound.nonzero, sound.ends, sound.origins,
      ready.2⟩
  | writerFails =>
    cases moved
    exact ⟨sound.registry, sound.waiting, sound.live, sound.nonzero, sound.ends, sound.origins,
      sound.written⟩
  | drainDeadline =>
    simp only [step] at moved
    split_ifs at moved with stopped
    cases moved
    exact sound.abandon stopped

theorem sound_run {maxInflight : Nat} {peerUid : Option Nat} {adminUids : List Nat}
    {labels : List Label} {s : Session}
    (reached : run step (Session.start maxInflight peerUid adminUids) labels = some s) : Sound s :=
  run_always step sound_step (sound_start maxInflight peerUid adminUids) reached

theorem Sound.ends_le {s : Session} (sound : Sound s) (k : Nat) : endsOf k s.wire ≤ 1 := by
  refine Nat.le_trans (endsOf_wire_le s k) ?_
  cases found : s.requests[k]? with
  | some r =>
    rw [sound.ends k r found]
    split_ifs
    · omega
    · omega
  | none =>
    have outside := List.getElem?_eq_none_iff.mp found
    refine Nat.le_trans (Nat.le_of_eq (List.countP_eq_zero.mpr ?_)) (Nat.zero_le 1)
    intro frame member ended
    unfold isEndOf at ended
    split at ended
    · have bound := sound.origins frame member k (by simpa using ended)
      omega
    · cases ended

end FerroEngine.SessionTerminals
