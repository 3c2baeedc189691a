import FerroEngine.ClientIds

set_option autoImplicit false

/-! # A request id is not given out again while its request is outstanding -/

namespace FerroEngine.ClientIdsSafety

open LabelledRuns ClientIds

/-! ## The walk of the allocator -/

/-- The id after `k` others. -/
def idAt (last : Int) (k : Nat) : Nat := ((last % 4294967296).toNat + k) % idCount + 1

theorem nextId_eq (last : Int) : nextId last = idAt last 0 := by
  unfold nextId idAt idCount
  dsimp only
  split <;> omega

theorem idAt_nextId (last : Int) (k : Nat) : idAt (nextId last : Int) k = idAt last (k + 1) := by
  rw [nextId_eq]
  unfold idAt idCount
  omega

theorem nextId_ne_zero (last : Int) : nextId last ≠ 0 := by
  rw [nextId_eq]
  unfold idAt
  omega

/-- The loop stops at the first id that is not taken. -/
theorem search_some {s : Session} {fuel : Nat} {last : Int} {id : Nat}
    (found : s.search fuel last = some id) :
    ∃ k, k < fuel ∧ id = idAt last k ∧ s.taken id = false ∧
      ∀ j, j < k → s.taken (idAt last j) = true := by
  induction fuel generalizing last with
  | zero => cases found
  | succ fuel ih =>
    rw [Session.search] at found
    split at found
    · rename_i first
      obtain ⟨k, inside, same, free, before⟩ := ih found
      rw [idAt_nextId] at same
      refine ⟨k + 1, by omega, same, free, fun j less => ?_⟩
      cases j with
      | zero =>
        rw [← nextId_eq]
        exact first
      | succ j =>
        rw [← idAt_nextId]
        exact before j (by omega)
    · rename_i first
      cases found
      refine ⟨0, by omega, nextId_eq last, Bool.not_eq_true _ ▸ first, fun j less => ?_⟩
      omega

theorem search_stops {s : Session} {fuel k : Nat} {last : Int} (inside : k < fuel)
    (free : s.taken (idAt last k) = false) : (s.search fuel last).isSome = true := by
  induction fuel generalizing last k with
  | zero => omega
  | succ fuel ih =>
    rw [Session.search]
    split
    · rename_i first
      cases k with
      | zero =>
        rw [nextId_eq, free] at first
        cases first
      | succ k =>
        rw [← idAt_nextId] at free
        exact ih (by omega) free
    · rfl

theorem search_first {s : Session} (free : s.taken (nextId s.last) = false) :
    s.nextFreeId = some (nextId s.last) := by
  have first (fuel : Nat) (positive : 0 < fuel) : s.search fuel s.last = some (nextId s.last) := by
    cases fuel with
    | zero => omega
    | succ fuel =>
      rw [Session.search, free]
      rfl
  exact first idCount (by decide)

/-- `nextFreeId` does not return only if every id is taken. -/
theorem nextFreeId_none {s : Session} (loops : s.nextFreeId = none) (id : Nat) (positive : 0 < id)
    (inside : id ≤ idCount) : s.taken id = true := by
  have turn : ∃ k, k < idCount ∧ idAt s.last k = id := by
    unfold idAt
    unfold idCount at inside ⊢
    generalize (s.last % 4294967296).toNat = base
    by_cases less : base % 4294967295 < id
    · exact ⟨id - 1 - base % 4294967295, by omega, by omega⟩
    · exact ⟨id - 1 + 4294967295 - base % 4294967295, by omega, by omega⟩
  obtain ⟨k, small, same⟩ := turn
  by_contra other
  rw [Bool.not_eq_true, ← same] at other
  have stops := search_stops small other
  rw [Session.nextFreeId] at loops
  rw [loops] at stops
  cases stops

/-! ## The maps of the session -/

/-- In none of the maps. -/
structure Unused (s : Session) (id : Nat) : Prop where
  landed : id ∉ s.inFlight
  empty : s.inbox id = []
  other : s.probeRid ≠ some id

/-- Given up before its final frame was read. -/
def Dropped (s : Session) (id : Nat) : Prop := id ∈ s.discarded ∧ id ∈ s.inFlight

/-- The walk meets an unused id, and before it none whose request was given up unread. -/
def Clear (s : Session) : Prop :=
  ∃ k, k < idCount ∧ Unused s (idAt s.last k) ∧ ∀ j, j < k → ¬Dropped s (idAt s.last j)

structure Tidy (s : Session) : Prop where
  tagged : ∀ id, ∀ f ∈ s.inbox id, f.requestId = id
  probing : ∀ id, s.probeRid = some id → id ≠ 0 ∧ id ∉ s.inFlight ∧ s.inbox id = []
  dropped : ∀ id ∈ s.discarded, s.inbox id = []
  live : s.poisoned = false → ∀ id ∈ s.discarded, id ∈ s.inFlight
  reserved : ∀ id kind, s.writing = some (.fresh id kind) →
    id ≠ 0 ∧ Unused s id ∧ (kind = .probe → s.probeRid = none)
  nonzero : ∀ id ∈ s.inFlight, id ≠ 0
  calls : ∀ id ∈ s.pings, (id ∈ s.inFlight ∨ s.inbox id ≠ []) ∧ id ∉ s.discarded

theorem mem_unset {map : List Nat} {id other : Nat} :
    other ∈ unset map id ↔ other ∈ map ∧ other ≠ id := by
  unfold unset
  rw [List.mem_filter, decide_eq_true_eq]

theorem isPending_eq_false {s : Session} {id : Nat} (tidy : Tidy s)
    (free : s.isPending id = false) : Dropped s id ∨ id ∉ s.inFlight ∧ s.inbox id = [] := by
  unfold Session.isPending at free
  rw [Bool.and_eq_false_iff, Bool.or_eq_false_iff, Bool.not_eq_false', Bool.not_eq_false',
    List.isEmpty_iff, List.contains_iff_mem] at free
  by_cases flying : id ∈ s.inFlight
  · cases free with
    | inl out =>
      rw [List.contains_iff_mem.mpr flying] at out
      cases out.1
    | inr given => exact .inl ⟨given, flying⟩
  · cases free with
    | inl out => exact .inr ⟨flying, out.2⟩
    | inr given => exact .inr ⟨flying, tidy.dropped id given⟩

theorem taken_eq_false {s : Session} {id : Nat} (tidy : Tidy s) (free : s.taken id = false) :
    Dropped s id ∨ Unused s id := by
  rw [Session.taken, Bool.or_eq_false_iff, beq_eq_false_iff_ne] at free
  obtain dropped | ⟨landed, empty⟩ := isPending_eq_false tidy free.1
  · exact .inl dropped
  · exact .inr ⟨landed, empty, free.2⟩

theorem Unused.not_taken {s : Session} {id : Nat} (unused : Unused s id) : s.taken id = false := by
  have out : s.inFlight.contains id = false := by
    rw [Bool.eq_false_iff]
    exact fun member => unused.landed (List.contains_iff_mem.mp member)
  rw [Session.taken, Session.isPending, out, unused.empty, beq_eq_false_iff_ne.mpr unused.other]
  rfl

theorem Dropped.not_taken {s : Session} {id : Nat} (tidy : Tidy s) (dropped : Dropped s id) :
    s.taken id = false := by
  have other : s.probeRid ≠ some id := fun probe => (tidy.probing id probe).2.1 dropped.2
  rw [Session.taken, Session.isPending, List.contains_iff_mem.mpr dropped.1,
    beq_eq_false_iff_ne.mpr other, Bool.not_true, Bool.and_false]
  rfl

theorem nextFreeId_stops {s : Session} (clear : Clear s) : s.nextFreeId.isSome = true := by
  obtain ⟨k, small, unused, _⟩ := clear
  exact search_stops small unused.not_taken

theorem nextFreeId_ne_zero {s : Session} {id : Nat} (found : s.nextFreeId = some id) : id ≠ 0 := by
  obtain ⟨k, _, same, _⟩ := search_some found
  rw [same, idAt]
  omega

/-- On a clear walk the id is unused, on any other it was given up unread. -/
theorem nextFreeId_cases {s : Session} {id : Nat} (tidy : Tidy s) (found : s.nextFreeId = some id) :
    Clear s ∧ Unused s id ∨ ¬Clear s ∧ Dropped s id := by
  obtain ⟨k, small, same, free, before⟩ := search_some found
  have plain (j : Nat) (less : j < k) : ¬Dropped s (idAt s.last j) := by
    intro dropped
    have free := dropped.not_taken tidy
    rw [before j less] at free
    cases free
  cases taken_eq_false tidy free with
  | inr unused =>
    rw [same] at unused ⊢
    exact .inl ⟨⟨k, small, unused, plain⟩, unused⟩
  | inl dropped =>
    refine .inr ⟨?_, dropped⟩
    rintro ⟨n, _, unused, none⟩
    have later : ¬n < k := by
      intro less
      have taken := before n less
      rw [unused.not_taken] at taken
      cases taken
    have different : n ≠ k := by
      rintro rfl
      rw [← same] at unused
      exact unused.landed dropped.2
    exact none k (by omega) (same ▸ dropped)

/-! ## What the operations keep -/

theorem tidy_start (last : Int) (maxInFlight : Nat) : Tidy (.start last maxInFlight) where
  tagged := fun _ _ member => absurd member List.not_mem_nil
  probing := nofun
  dropped := fun _ _ => rfl
  live := fun _ _ member => absurd member List.not_mem_nil
  reserved := nofun
  nonzero := fun _ member => absurd member List.not_mem_nil
  calls := fun _ member => absurd member List.not_mem_nil

theorem Tidy.poison {s : Session} (tidy : Tidy s) : Tidy s.poison where
  tagged := tidy.tagged
  probing := tidy.probing
  dropped := tidy.dropped
  live := nofun
  reserved := fun id kind held =>
    have ⟨zero, ⟨landed, empty, other⟩, probe⟩ := tidy.reserved id kind held
    ⟨zero, ⟨landed, empty, other⟩, probe⟩
  nonzero := tidy.nonzero
  calls := tidy.calls

theorem Tidy.unwritten {s : Session} (tidy : Tidy s) (writing : Option Writing)
    (control : ∀ id kind, writing ≠ some (.fresh id kind)) :
    Tidy { s with writing := writing } where
  tagged := tidy.tagged
  probing := tidy.probing
  dropped := tidy.dropped
  live := tidy.live
  reserved := fun id kind held => absurd held (control id kind)
  nonzero := tidy.nonzero
  calls := tidy.calls

theorem Tidy.begins {s : Session} (tidy : Tidy s) {id : Nat} {kind : Kind} (zero : id ≠ 0)
    (unused : Unused s id) (probe : kind = .probe → s.probeRid = none) :
    Tidy (s.begins id kind) := by
  have here : Tidy { s with last := id } :=
    { tagged := tidy.tagged
      probing := tidy.probing
      dropped := tidy.dropped
      live := tidy.live
      reserved := fun id kind held =>
        have ⟨zero, ⟨landed, empty, other⟩, probe⟩ := tidy.reserved id kind held
        ⟨zero, ⟨landed, empty, other⟩, probe⟩
      nonzero := tidy.nonzero
      calls := tidy.calls }
  unfold Session.begins
  dsimp only
  split
  · exact here
  · refine ⟨here.tagged, here.probing, here.dropped, here.live, fun other kind' held => ?_,
      here.nonzero, here.calls⟩
    cases held
    exact ⟨zero, ⟨unused.landed, unused.empty, unused.other⟩, probe⟩

theorem Tidy.unused_call {s : Session} (tidy : Tidy s) {id call : Nat} (unused : Unused s id)
    (running : call ∈ s.pings) : call ≠ id := by
  rintro rfl
  cases (tidy.calls call running).1 with
  | inl flying => exact unused.landed flying
  | inr filed => exact filed unused.empty

/-- The id of a frame that is being written is given up by nobody. -/
theorem Tidy.reserved_kept {s : Session} (tidy : Tidy s) (alive : s.poisoned = false) {id : Nat}
    (unused : Unused s id) : id ∉ s.discarded := fun given =>
  unused.landed (tidy.live alive id given)

theorem Tidy.completes {s : Session} (tidy : Tidy s) (alive : s.poisoned = false) {frame : Writing}
    (held : s.writing = some frame) : Tidy (s.completes frame) := by
  cases frame with
  | control => exact tidy.unwritten none nofun
  | fresh id kind =>
    obtain ⟨zero, unused, probe⟩ := tidy.reserved id kind held
    have lands (other : Nat) (probing : s.probeRid = some other) :
        other ≠ 0 ∧ other ∉ id :: s.inFlight ∧ s.inbox other = [] := by
      obtain ⟨positive, landed, empty⟩ := tidy.probing other probing
      refine ⟨positive, fun member => ?_, empty⟩
      cases List.mem_cons.mp member with
      | inl same => exact unused.other (same ▸ probing)
      | inr flying => exact landed flying
    have nonzero (other : Nat) (member : other ∈ id :: s.inFlight) : other ≠ 0 := by
      cases List.mem_cons.mp member with
      | inl same => exact same ▸ zero
      | inr flying => exact tidy.nonzero other flying
    have calls (call : Nat) (running : call ∈ s.pings) :
        (call ∈ id :: s.inFlight ∨ s.inbox call ≠ []) ∧ call ∉ s.discarded := by
      obtain ⟨place, kept⟩ := tidy.calls call running
      exact ⟨place.imp_left (List.mem_cons_of_mem id), kept⟩
    have live (other : Nat) (given : other ∈ s.discarded) : other ∈ id :: s.inFlight :=
      List.mem_cons_of_mem id (tidy.live alive other given)
    cases kind with
    | request =>
      exact ⟨tidy.tagged, lands, tidy.dropped, fun _ => live, nofun, nonzero, calls⟩
    | ping =>
      refine ⟨tidy.tagged, lands, tidy.dropped, fun _ => live, nofun, nonzero,
        fun call running => ?_⟩
      cases List.mem_cons.mp running with
      | inl same =>
        rw [same]
        exact ⟨.inl (List.mem_cons_self ..), tidy.reserved_kept alive unused⟩
      | inr running => exact calls call running
    | probe =>
      refine ⟨tidy.tagged, fun other probing => ?_, tidy.dropped, tidy.live, nofun, tidy.nonzero,
        tidy.calls⟩
      cases probing
      exact ⟨zero, unused.landed, unused.empty⟩

/-- What `route` does with a frame. -/
inductive Routed (s : Session) (f : Frame) : Session → Prop
  | pong : s.probeRid = some f.requestId → f.isPong = true → Routed s f { s with probeRid := none }
  | fatal : f.requestId = 0 → Routed s f { s with fatal := true }
  | dropsEnd : f.requestId ∈ s.discarded → f.isEnd = true →
      Routed s f
        { s with
          discarded := unset s.discarded f.requestId
          inFlight := unset s.inFlight f.requestId }
  | drops : f.requestId ∈ s.discarded → f.isEnd = false → Routed s f s
  | filesEnd : f.requestId ∈ s.inFlight → f.requestId ∉ s.discarded → f.isEnd = true →
      Routed s f ({ s with inFlight := unset s.inFlight f.requestId }.setInbox f.requestId
        (s.inbox f.requestId ++ [f]))
  | files : f.requestId ∈ s.inFlight → f.requestId ∉ s.discarded → f.isEnd = false →
      Routed s f (s.setInbox f.requestId (s.inbox f.requestId ++ [f]))
  | stray : s.probeRid = some f.requestId ∨ f.requestId ∉ s.inFlight → Routed s f s.poison

theorem route_routed (s : Session) (f : Frame) : Routed s f (s.route f) := by
  unfold Session.route
  split
  · rename_i probing
    split
    · rename_i answer
      exact .pong probing answer.1
    · exact .stray (.inl probing)
  · split
    · rename_i zero
      exact .fatal zero
    · split
      · rename_i given
        rw [List.contains_iff_mem] at given
        split
        · rename_i last
          exact .dropsEnd given last
        · rename_i more
          exact .drops given (Bool.not_eq_true _ ▸ more)
      · rename_i kept
        rw [List.contains_iff_mem] at kept
        split
        · rename_i flying
          rw [List.contains_iff_mem] at flying
          cases last : f.isEnd with
          | true => exact .filesEnd flying kept last
          | false => exact .files flying kept last
        · rename_i landed
          rw [List.contains_iff_mem] at landed
          exact .stray (.inr landed)

theorem setInbox_same (s : Session) (id : Nat) (queue : List Frame) :
    (s.setInbox id queue).inbox id = queue := if_pos rfl

theorem setInbox_other {s : Session} {id other : Nat} {queue : List Frame}
    (different : other ≠ id) : (s.setInbox id queue).inbox other = s.inbox other := if_neg different

theorem Tidy.setInbox {s : Session} (tidy : Tidy s) {id : Nat} {queue : List Frame}
    (own : ∀ f ∈ queue, f.requestId = id)
    (room : queue = [] ∨ id ∈ s.inFlight ∧ id ∉ s.discarded ∨ s.inbox id ≠ [])
    (call : id ∈ s.pings → id ∈ s.inFlight ∨ queue ≠ []) : Tidy (s.setInbox id queue) where
  tagged := by
    intro other f member
    by_cases same : other = id
    · rw [same] at member ⊢
      rw [setInbox_same] at member
      exact own f member
    · rw [setInbox_other same] at member
      exact tidy.tagged other f member
  probing := by
    intro other probe
    obtain ⟨zero, landed, empty⟩ := tidy.probing other probe
    refine ⟨zero, landed, ?_⟩
    by_cases same : other = id
    · rw [same] at landed empty ⊢
      rw [setInbox_same]
      obtain none | ⟨flying, _⟩ | filed := room
      · exact none
      · exact absurd flying landed
      · exact absurd empty filed
    · rw [setInbox_other same]
      exact empty
  dropped := by
    intro other given
    by_cases same : other = id
    · rw [same] at given ⊢
      rw [setInbox_same]
      obtain none | ⟨_, kept⟩ | filed := room
      · exact none
      · exact absurd given kept
      · exact absurd (tidy.dropped id given) filed
    · rw [setInbox_other same]
      exact tidy.dropped other given
  live := tidy.live
  reserved := by
    intro other kind held
    obtain ⟨zero, ⟨landed, empty, probe⟩, none⟩ := tidy.reserved other kind held
    refine ⟨zero, ⟨landed, ?_, probe⟩, none⟩
    by_cases same : other = id
    · rw [same] at landed empty ⊢
      rw [setInbox_same]
      obtain none | ⟨flying, _⟩ | filed := room
      · exact none
      · exact absurd flying landed
      · exact absurd empty filed
    · rw [setInbox_other same]
      exact empty
  nonzero := tidy.nonzero
  calls := by
    intro other running
    obtain ⟨place, kept⟩ := tidy.calls other running
    refine ⟨?_, kept⟩
    by_cases same : other = id
    · rw [same] at running ⊢
      rw [setInbox_same]
      exact call running
    · rw [setInbox_other same]
      exact place

/-- An id leaves `inFlight`. -/
theorem Tidy.lands {s : Session} (tidy : Tidy s) {id : Nat}
    (kept : s.poisoned = true ∨ id ∉ s.discarded) (call : id ∈ s.pings → s.inbox id ≠ []) :
    Tidy { s with inFlight := unset s.inFlight id } where
  tagged := tidy.tagged
  probing := by
    intro other probe
    obtain ⟨zero, landed, empty⟩ := tidy.probing other probe
    exact ⟨zero, fun flying => landed (mem_unset.mp flying).1, empty⟩
  dropped := tidy.dropped
  live := by
    intro alive other given
    refine mem_unset.mpr ⟨tidy.live alive other given, ?_⟩
    rintro rfl
    cases kept with
    | inl poisoned =>
      rw [poisoned] at alive
      cases alive
    | inr kept => exact kept given
  reserved := by
    intro other kind held
    obtain ⟨zero, ⟨landed, empty, probe⟩, none⟩ := tidy.reserved other kind held
    exact ⟨zero, ⟨fun flying => landed (mem_unset.mp flying).1, empty, probe⟩, none⟩
  nonzero := fun other flying => tidy.nonzero other (mem_unset.mp flying).1
  calls := by
    intro other running
    obtain ⟨place, notGiven⟩ := tidy.calls other running
    refine ⟨?_, notGiven⟩
    by_cases same : other = id
    · rw [same] at running ⊢
      exact .inr (call running)
    · exact place.imp_left fun flying => mem_unset.mpr ⟨flying, same⟩

/-- A call of `ping` is over. -/
theorem Tidy.hangsUp {s : Session} (tidy : Tidy s) (id : Nat) :
    Tidy { s with pings := unset s.pings id } where
  tagged := tidy.tagged
  probing := tidy.probing
  dropped := tidy.dropped
  live := tidy.live
  reserved := fun id kind held =>
    have ⟨zero, ⟨landed, empty, other⟩, probe⟩ := tidy.reserved id kind held
    ⟨zero, ⟨landed, empty, other⟩, probe⟩
  nonzero := tidy.nonzero
  calls := fun other running => tidy.calls other (mem_unset.mp running).1

theorem Tidy.files {s : Session} (tidy : Tidy s) {f : Frame} (flying : f.requestId ∈ s.inFlight)
    (kept : f.requestId ∉ s.discarded) :
    Tidy (s.setInbox f.requestId (s.inbox f.requestId ++ [f])) := by
  refine tidy.setInbox (fun g member => ?_) (.inr (.inl ⟨flying, kept⟩)) fun _ => .inl flying
  cases List.mem_append.mp member with
  | inl old => exact tidy.tagged _ g old
  | inr new => rw [List.mem_singleton.mp new]

theorem Tidy.route {s : Session} (tidy : Tidy s) (f : Frame) : Tidy (s.route f) := by
  have routed := route_routed s f
  generalize s.route f = t at routed
  cases routed with
  | pong probing _ =>
    refine ⟨tidy.tagged, nofun, tidy.dropped, tidy.live, fun id kind held => ?_, tidy.nonzero,
      tidy.calls⟩
    obtain ⟨zero, ⟨landed, empty, _⟩, _⟩ := tidy.reserved id kind held
    exact ⟨zero, ⟨landed, empty, nofun⟩, fun _ => rfl⟩
  | fatal _ =>
    refine ⟨tidy.tagged, tidy.probing, tidy.dropped, tidy.live, fun id kind held => ?_,
      tidy.nonzero, tidy.calls⟩
    obtain ⟨zero, ⟨landed, empty, other⟩, probe⟩ := tidy.reserved id kind held
    exact ⟨zero, ⟨landed, empty, other⟩, probe⟩
  | dropsEnd given _ =>
    refine ⟨tidy.tagged, fun other probe => ?_, fun other given' => ?_,
      fun alive other given' => ?_, fun other kind held => ?_, fun other flying => ?_, fun other running => ?_⟩
    · obtain ⟨zero, landed, empty⟩ := tidy.probing other probe
      exact ⟨zero, fun flying => landed (mem_unset.mp flying).1, empty⟩
    · exact tidy.dropped other (mem_unset.mp given').1
    · obtain ⟨given', different⟩ := mem_unset.mp given'
      exact mem_unset.mpr ⟨tidy.live alive other given', different⟩
    · obtain ⟨zero, ⟨landed, empty, probe⟩, none⟩ := tidy.reserved other kind held
      exact ⟨zero, ⟨fun flying => landed (mem_unset.mp flying).1, empty, probe⟩, none⟩
    · exact tidy.nonzero other (mem_unset.mp flying).1
    · obtain ⟨place, kept⟩ := tidy.calls other running
      have different : other ≠ f.requestId := by
        rintro rfl
        exact kept given
      exact ⟨place.imp_left fun flying => mem_unset.mpr ⟨flying, different⟩,
        fun given' => kept (mem_unset.mp given').1⟩
  | drops => exact tidy
  | filesEnd flying kept _ =>
    refine (tidy.files flying kept).lands (.inr kept) fun _ => ?_
    rw [setInbox_same]
    exact List.append_ne_nil_of_right_ne_nil _ (List.cons_ne_nil _ _)
  | files flying kept _ => exact tidy.files flying kept
  | stray _ => exact tidy.poison

theorem Tidy.discard {s : Session} (tidy : Tidy s) {id : Nat} (call : id ∉ s.pings) :
    Tidy (s.discard id) := by
  have emptied : Tidy (s.setInbox id []) := tidy.setInbox nofun (.inl rfl) fun running =>
    absurd running call
  unfold Session.discard
  dsimp only
  split
  · rename_i flying
    rw [List.contains_iff_mem] at flying
    refine ⟨emptied.tagged, emptied.probing, fun other given => ?_, fun alive other given => ?_,
      fun other kind held => ?_, emptied.nonzero, fun other running => ?_⟩
    · cases List.mem_cons.mp given with
      | inl same =>
        rw [same]
        exact setInbox_same s id []
      | inr given => exact emptied.dropped other given
    · cases List.mem_cons.mp given with
      | inl same => exact same ▸ flying
      | inr given => exact emptied.live alive other given
    · obtain ⟨zero, ⟨landed, empty, probe⟩, none⟩ := emptied.reserved other kind held
      exact ⟨zero, ⟨landed, empty, probe⟩, none⟩
    · obtain ⟨place, kept⟩ := emptied.calls other running
      refine ⟨place, fun given => ?_⟩
      cases List.mem_cons.mp given with
      | inl same => exact call (same ▸ running)
      | inr given => exact kept given
  · exact emptied

/-- The first frame under the id is taken. -/
theorem Tidy.pops {s : Session} (tidy : Tidy s) {id : Nat} {f : Frame} {queue : List Frame}
    (call : id ∉ s.pings) (filed : s.inbox id = f :: queue) : Tidy (s.setInbox id queue) := by
  refine tidy.setInbox (fun g member => ?_) (.inr (.inr ?_)) fun running => absurd running call
  · exact tidy.tagged id g (filed ▸ List.mem_cons_of_mem f member)
  · rw [filed]
    exact List.cons_ne_nil _ _

/-! ## The requests behind the ids -/

structure Sound (w : World) : Prop where
  tidy : Tidy w.session
  flying : ∀ id kind, (id, kind) ∈ w.unread → kind ≠ .probe → id ∈ w.session.inFlight
  probe : ∀ id, (id, .probe) ∈ w.unread → w.session.probeRid = some id
  claimed : ∀ id kind, (id, kind) ∈ w.unclaimed → ∃ f ∈ w.session.inbox id, kind.final f = true
  filed : ∀ id kind, (id, kind) ∈ w.unread → ∀ f ∈ w.session.inbox id, kind.final f = false
  own : ∀ id kind, id ∈ w.session.pings → (id, kind) ∈ w.unread → kind = .ping
  known : ∀ id ∈ w.session.inFlight, id ∈ w.session.pings ∨ (id, .request) ∈ w.unread
  given : ∀ id ∈ w.session.discarded, id ∈ w.abandoned

theorem sound_start (last : Int) (maxInFlight : Nat) : Sound (.start last maxInFlight) where
  tidy := tidy_start last maxInFlight
  flying := fun _ _ member => absurd member List.not_mem_nil
  probe := fun _ member => absurd member List.not_mem_nil
  claimed := fun _ _ member => absurd member List.not_mem_nil
  filed := fun _ _ member => absurd member List.not_mem_nil
  own := fun _ _ member => absurd member List.not_mem_nil
  known := fun _ member => absurd member List.not_mem_nil
  given := fun _ member => absurd member List.not_mem_nil

/-- A used id is outstanding only where the loop of `nextFreeId` looks. -/
theorem Sound.not_outstanding {w : World} (sound : Sound w) {id : Nat}
    (unused : Unused w.session id) : ¬w.Outstanding id := by
  rintro ⟨kind, unread | unclaimed⟩
  · by_cases probe : kind = .probe
    · rw [probe] at unread
      exact unused.other (sound.probe id unread)
    · exact unused.landed (sound.flying id kind unread probe)
  · obtain ⟨f, member, _⟩ := sound.claimed id kind unclaimed
    rw [unused.empty] at member
    exact List.not_mem_nil member

theorem Sound.outstanding_of_dropped {w : World} (sound : Sound w) {id : Nat}
    (dropped : Dropped w.session id) : w.Outstanding id := by
  cases sound.known id dropped.2 with
  | inl running => exact absurd dropped.1 (sound.tidy.calls id running).2
  | inr unread => exact ⟨.request, .inl unread⟩

/-- The maps stay as they are. -/
theorem Sound.session {w : World} (sound : Sound w) {s : Session} (tidy : Tidy s)
    (inFlight : s.inFlight = w.session.inFlight) (inbox : s.inbox = w.session.inbox)
    (discarded : s.discarded = w.session.discarded) (probeRid : s.probeRid = w.session.probeRid)
    (pings : s.pings = w.session.pings) : Sound (w.ids s) where
  tidy := tidy
  flying := fun id kind unread other => inFlight ▸ sound.flying id kind unread other
  probe := fun id unread => probeRid ▸ sound.probe id unread
  claimed := fun id kind unclaimed => inbox ▸ sound.claimed id kind unclaimed
  filed := fun id kind unread f member => sound.filed id kind unread f (inbox ▸ member)
  own := fun id kind running unread => sound.own id kind (pings ▸ running) unread
  known := fun id flying =>
    (sound.known id (inFlight ▸ flying)).imp_left fun running => pings ▸ running
  given := fun id given => sound.given id (discarded ▸ given)

theorem begins_maps (s : Session) (id : Nat) (kind : Kind) :
    (s.begins id kind).inFlight = s.inFlight ∧ (s.begins id kind).inbox = s.inbox ∧
      (s.begins id kind).discarded = s.discarded ∧ (s.begins id kind).probeRid = s.probeRid ∧
      (s.begins id kind).pings = s.pings := by
  unfold Session.begins
  dsimp only
  split <;> exact ⟨rfl, rfl, rfl, rfl, rfl⟩

/-- An id of a clear walk is written under. -/
theorem Sound.begins {w : World} (sound : Sound w) (clear : Clear w.session) {id : Nat}
    {kind : Kind} (found : w.session.nextFreeId = some id) (probe : kind = .probe → w.session.probeRid = none) :
    Sound (w.ids (w.session.begins id kind)) := by
  have unused : Unused w.session id := by
    obtain ⟨_, unused⟩ | ⟨other, _⟩ := nextFreeId_cases sound.tidy found
    · exact unused
    · exact absurd clear other
  obtain ⟨inFlight, inbox, discarded, probeRid, pings⟩ := begins_maps w.session id kind
  exact sound.session (sound.tidy.begins (nextFreeId_ne_zero found) unused probe) inFlight inbox
    discarded probeRid pings

theorem Sound.completes {w : World} (sound : Sound w) (alive : w.session.poisoned = false)
    {frame : Writing} (held : w.session.writing = some frame) :
    Sound ((w.writes frame).ids (w.session.completes frame)) := by
  have tidy := sound.tidy.completes alive held
  cases frame with
  | control => exact sound.session tidy rfl rfl rfl rfl rfl
  | fresh id kind =>
    obtain ⟨_, unused, none⟩ := sound.tidy.reserved id kind held
    have unread_ne {other : Nat} {kind' : Kind} (unread : (other, kind') ∈ w.unread) :
        other ≠ id := by
      rintro rfl
      exact sound.not_outstanding unused ⟨kind', .inl unread⟩
    have call_ne {call : Nat} (running : call ∈ w.session.pings) :=
      sound.tidy.unused_call unused running
    have inbox : (w.session.completes (.fresh id kind)).inbox = w.session.inbox := by
      cases kind <;> rfl
    have discarded : (w.session.completes (.fresh id kind)).discarded = w.session.discarded := by
      cases kind <;> rfl
    have flew {other : Nat} (flying : other ∈ w.session.inFlight) :
        other ∈ (w.session.completes (.fresh id kind)).inFlight := by
      cases kind with
      | request => exact List.mem_cons_of_mem id flying
      | ping => exact List.mem_cons_of_mem id flying
      | probe => exact flying
    refine ⟨tidy, fun other kind' unread notProbe => ?_, fun other unread => ?_,
      fun other kind' unclaimed => ?_, fun other kind' unread f member => ?_, fun other kind' running unread => ?_,
      fun other flying => ?_, fun other given => ?_⟩
    · cases List.mem_cons.mp unread with
      | inl same =>
        cases same
        cases kind with
        | request => exact List.mem_cons_self ..
        | ping => exact List.mem_cons_self ..
        | probe => exact absurd rfl notProbe
      | inr unread => exact flew (sound.flying other kind' unread notProbe)
    · cases List.mem_cons.mp unread with
      | inl same =>
        cases same
        rfl
      | inr unread =>
        have probing := sound.probe other unread
        cases kind with
        | request => exact probing
        | ping => exact probing
        | probe =>
          rw [none rfl] at probing
          cases probing
    · change ∃ f ∈ (w.session.completes (.fresh id kind)).inbox other, kind'.final f = true
      rw [inbox]
      exact sound.claimed other kind' unclaimed
    · change f ∈ (w.session.completes (.fresh id kind)).inbox other at member
      rw [inbox] at member
      cases List.mem_cons.mp unread with
      | inl same =>
        cases same
        rw [unused.empty] at member
        exact absurd member List.not_mem_nil
      | inr unread => exact sound.filed other kind' unread f member
    · cases List.mem_cons.mp unread with
      | inl same =>
        cases same
        cases kind with
        | request => exact absurd rfl (call_ne running)
        | ping => rfl
        | probe => exact absurd rfl (call_ne running)
      | inr old =>
        have different := unread_ne old
        have running' : other ∈ w.session.pings := by
          cases kind with
          | request => exact running
          | ping => exact (List.mem_cons.mp running).resolve_left different
          | probe => exact running
        exact sound.own other kind' running' old
    · have old (flying : other ∈ w.session.inFlight) :
          other ∈ w.session.pings ∨ (other, Kind.request) ∈ (id, kind) :: w.unread :=
        (sound.known other flying).imp_right (List.mem_cons_of_mem _)
      cases kind with
      | request =>
        cases List.mem_cons.mp flying with
        | inl same => exact .inr (List.mem_cons.mpr (.inl (same ▸ rfl)))
        | inr flying => exact old flying
      | ping =>
        cases List.mem_cons.mp flying with
        | inl same => exact .inl (List.mem_cons.mpr (.inl same))
        | inr flying => exact (old flying).imp_left (List.mem_cons_of_mem id)
      | probe => exact old flying
    · change other ∈ (w.session.completes (.fresh id kind)).discarded at given
      rw [discarded] at given
      refine mem_unset.mpr ⟨sound.given other given, ?_⟩
      rintro rfl
      exact sound.tidy.reserved_kept alive unused given

/-! ## Frames that are read -/

theorem ends_eq_true {f : Frame} {id : Nat} {kind : Kind} :
    World.ends f (id, kind) = true ↔ id = f.requestId ∧ kind.final f = true := by
  rw [World.ends, Bool.and_eq_true, decide_eq_true_eq]

theorem ends_eq_false {f : Frame} {id : Nat} {kind : Kind} (open_ : World.ends f (id, kind) = false)
    (same : id = f.requestId) : kind.final f = false := by
  rw [← Bool.not_eq_true, ends_eq_true] at open_
  rw [← Bool.not_eq_true]
  exact fun final => open_ ⟨same, final⟩

theorem mem_reads_unread {w : World} {f : Frame} {p : Nat × Kind} :
    p ∈ (w.reads f).unread ↔ p ∈ w.unread ∧ World.ends f p = false := by
  unfold World.reads
  rw [List.mem_filter, Bool.not_eq_true']

theorem final_end {f : Frame} (last : f.isEnd = true) (kind : Kind) : kind.final f = true := by
  unfold Kind.final
  rw [last]
  rfl

theorem final_probe {kind : Kind} {f : Frame} (answer : f.isPong = true) (other : kind ≠ .request) :
    kind.final f = true := by
  unfold Kind.final
  rw [answer, bne_iff_ne.mpr other, Bool.and_true, Bool.or_true]

theorem Routed.inbox {s t : Session} {f : Frame} (routed : Routed s f t) {id : Nat} {g : Frame}
    (member : g ∈ t.inbox id) : g ∈ s.inbox id ∨ g = f ∧ id = f.requestId := by
  have filed {u : Session} (here : u.inbox = s.inbox)
      (member : g ∈ (u.setInbox f.requestId (s.inbox f.requestId ++ [f])).inbox id) :
      g ∈ s.inbox id ∨ g = f ∧ id = f.requestId := by
    by_cases same : id = f.requestId
    · rw [same, setInbox_same] at member
      cases List.mem_append.mp member with
      | inl old => exact .inl (same ▸ old)
      | inr new => exact .inr ⟨List.mem_singleton.mp new, same⟩
    · rw [setInbox_other same, here] at member
      exact .inl member
  cases routed with
  | filesEnd _ _ _ => exact @filed { s with inFlight := unset s.inFlight f.requestId } rfl member
  | files _ _ _ => exact @filed s rfl member
  | _ => exact .inl member

theorem Routed.keeps {s t : Session} {f : Frame} (routed : Routed s f t) {id : Nat} {g : Frame}
    (member : g ∈ s.inbox id) : g ∈ t.inbox id := by
  have filed {u : Session} (here : u.inbox = s.inbox) :
      g ∈ (u.setInbox f.requestId (s.inbox f.requestId ++ [f])).inbox id := by
    by_cases same : id = f.requestId
    · rw [same, setInbox_same]
      exact List.mem_append_left _ (same ▸ member)
    · rw [setInbox_other same, here]
      exact member
  cases routed with
  | filesEnd _ _ _ => exact @filed { s with inFlight := unset s.inFlight f.requestId } rfl
  | files _ _ _ => exact @filed s rfl
  | _ => exact member

theorem Routed.pings {s t : Session} {f : Frame} (routed : Routed s f t) : t.pings = s.pings := by
  cases routed <;> rfl

theorem Routed.discarded {s t : Session} {f : Frame} (routed : Routed s f t) {id : Nat}
    (given : id ∈ t.discarded) : id ∈ s.discarded := by
  cases routed with
  | dropsEnd _ _ => exact (mem_unset.mp given).1
  | _ => exact given

/-- An id leaves `inFlight` only with the final frame of its request. -/
theorem Routed.inFlight {s t : Session} {f : Frame} (routed : Routed s f t) {id : Nat}
    (flying : id ∈ s.inFlight) : id ∈ t.inFlight ∨ id = f.requestId ∧ f.isEnd = true := by
  have landed (last : f.isEnd = true) :
      id ∈ unset s.inFlight f.requestId ∨ id = f.requestId ∧ f.isEnd = true := by
    by_cases same : id = f.requestId
    · exact .inr ⟨same, last⟩
    · exact .inl (mem_unset.mpr ⟨flying, same⟩)
  cases routed with
  | dropsEnd _ last => exact landed last
  | filesEnd _ _ last => exact landed last
  | _ => exact .inl flying

theorem Routed.flew {s t : Session} {f : Frame} (routed : Routed s f t) {id : Nat}
    (flying : id ∈ t.inFlight) : id ∈ s.inFlight := by
  cases routed with
  | dropsEnd _ _ => exact (mem_unset.mp flying).1
  | filesEnd _ _ _ => exact (mem_unset.mp flying).1
  | _ => exact flying

/-- The final frame of a request in flight takes the id out of `inFlight`. -/
theorem Routed.lands {s t : Session} {f : Frame} (tidy : Tidy s) (routed : Routed s f t)
    (flying : f.requestId ∈ s.inFlight) (last : f.isEnd = true) : f.requestId ∉ t.inFlight := by
  intro still
  cases routed with
  | pong probing _ => exact (tidy.probing _ probing).2.1 flying
  | fatal zero => exact tidy.nonzero _ flying zero
  | dropsEnd _ _ => exact (mem_unset.mp still).2 rfl
  | drops _ more =>
    rw [last] at more
    cases more
  | filesEnd _ _ _ => exact (mem_unset.mp still).2 rfl
  | files _ _ more =>
    rw [last] at more
    cases more
  | stray outside =>
    cases outside with
    | inl probing => exact (tidy.probing _ probing).2.1 flying
    | inr landed => exact landed flying

/-- A frame of a request in flight that nobody gave up is filed. -/
theorem Routed.filed {s t : Session} {f : Frame} (tidy : Tidy s) (routed : Routed s f t)
    (flying : f.requestId ∈ s.inFlight) (kept : f.requestId ∉ s.discarded) :
    f ∈ t.inbox f.requestId := by
  cases routed with
  | pong probing _ => exact absurd flying (tidy.probing _ probing).2.1
  | fatal zero => exact absurd zero (tidy.nonzero _ flying)
  | dropsEnd given _ => exact absurd given kept
  | drops given _ => exact absurd given kept
  | filesEnd _ _ _ =>
    rw [setInbox_same]
    exact List.mem_append_right _ (List.mem_singleton.mpr rfl)
  | files _ _ _ =>
    rw [setInbox_same]
    exact List.mem_append_right _ (List.mem_singleton.mpr rfl)
  | stray outside =>
    cases outside with
    | inl probing => exact absurd flying (tidy.probing _ probing).2.1
    | inr landed => exact absurd flying landed

theorem Routed.probing {s t : Session} {f : Frame} (routed : Routed s f t) {id : Nat}
    (probing : s.probeRid = some id) :
    t.probeRid = some id ∨ id = f.requestId ∧ f.isPong = true := by
  cases routed with
  | pong asked answer =>
    rw [asked] at probing
    exact .inr ⟨(Option.some.inj probing).symm, answer⟩
  | _ => exact .inl probing

theorem Sound.reads {w : World} (sound : Sound w) (f : Frame) :
    Sound ((w.reads f).ids (w.session.route f)) := by
  have tidy := sound.tidy.route f
  have routed := route_routed w.session f
  generalize w.session.route f = t at tidy routed ⊢
  refine ⟨tidy, fun id kind unread other => ?_, fun id unread => ?_, fun id kind unclaimed => ?_,
    fun id kind unread g member => ?_, fun id kind running unread => ?_, fun id flying => ?_,
    fun id given => sound.given id (routed.discarded given)⟩
  · obtain ⟨listed, more⟩ := mem_reads_unread.mp unread
    obtain flying | ⟨same, last⟩ := routed.inFlight (sound.flying id kind listed other)
    · exact flying
    · have final := ends_eq_false more same
      rw [final_end last] at final
      cases final
  · obtain ⟨listed, more⟩ := mem_reads_unread.mp unread
    obtain probing | ⟨same, answer⟩ := routed.probing (sound.probe id listed)
    · exact probing
    · have final := ends_eq_false more same
      rw [@final_probe .probe f answer nofun] at final
      cases final
  · cases List.mem_append.mp unclaimed with
    | inl new =>
      rw [List.mem_filter, Bool.and_eq_true, Bool.and_eq_true, bne_iff_ne, Bool.not_eq_true',
        Bool.eq_false_iff] at new
      obtain ⟨listed, ⟨ended, other⟩, kept⟩ := new
      obtain ⟨same, final⟩ := ends_eq_true.mp ended
      have flying := sound.flying id kind listed other
      rw [same] at flying kept ⊢
      refine ⟨f, routed.filed sound.tidy flying fun given => kept ?_, final⟩
      exact List.contains_iff_mem.mpr (sound.given _ given)
    | inr old =>
      obtain ⟨g, member, final⟩ := sound.claimed id kind old
      exact ⟨g, routed.keeps member, final⟩
  · obtain ⟨listed, more⟩ := mem_reads_unread.mp unread
    obtain old | ⟨rfl, same⟩ := routed.inbox member
    · exact sound.filed id kind listed g old
    · exact ends_eq_false more same
  · exact sound.own id kind (routed.pings ▸ running) (mem_reads_unread.mp unread).1
  · cases sound.known id (routed.flew flying) with
    | inl running => exact .inl (routed.pings ▸ running)
    | inr listed =>
      refine .inr (mem_reads_unread.mpr ⟨listed, ?_⟩)
      rw [← Bool.not_eq_true, ends_eq_true]
      rintro ⟨same, final⟩
      have last : f.isEnd = true := by
        unfold Kind.final at final
        rw [bne_self_eq_false, Bool.false_and, Bool.or_false] at final
        exact final
      have flew := routed.flew flying
      rw [same] at flew flying
      exact routed.lands sound.tidy flew last flying

/-! ## Frames that are awaited -/

/-- The awaiter takes the first frame under the id; `ping` is over with it. -/
theorem Sound.takes {w : World} (sound : Sound w) {id : Nat} {f : Frame} {queue : List Frame}
    (filed : w.session.inbox id = f :: queue) {t : Session} (tidy : Tidy t)
    (inbox : t.inbox = (w.session.setInbox id queue).inbox)
    (discarded : t.discarded = w.session.discarded) (probeRid : t.probeRid = w.session.probeRid)
    (maps : t.inFlight = w.session.inFlight ∧ t.pings = w.session.pings ∨
      t.inFlight = unset w.session.inFlight id ∧ t.pings = unset w.session.pings id ∧
        ∀ kind, (id, kind) ∉ w.unread) : Sound ((w.takes f).ids t) := by
  have tag : f.requestId = id := sound.tidy.tagged id f (filed ▸ List.mem_cons_self ..)
  have fewer {other : Nat} {g : Frame} (member : g ∈ t.inbox other) :
      g ∈ w.session.inbox other := by
    rw [inbox] at member
    by_cases same : other = id
    · rw [same, setInbox_same] at member
      rw [same, filed]
      exact List.mem_cons_of_mem f member
    · rw [setInbox_other same] at member
      exact member
  refine ⟨tidy, fun other kind unread notProbe => ?_, fun other unread => ?_,
    fun other kind unclaimed => ?_, fun other kind unread g member => ?_,
    fun other kind running unread => ?_, fun other flying => ?_, fun other given => ?_⟩
  · have flying := sound.flying other kind unread notProbe
    obtain ⟨same, _⟩ | ⟨landed, _, none⟩ := maps
    · exact same ▸ flying
    · change other ∈ t.inFlight
      rw [landed]
      refine mem_unset.mpr ⟨flying, ?_⟩
      rintro rfl
      exact none kind unread
  · exact probeRid.trans (sound.probe other unread)
  · obtain ⟨listed, open_⟩ := List.mem_filter.mp unclaimed
    rw [Bool.not_eq_true'] at open_
    obtain ⟨g, member, final⟩ := sound.claimed other kind listed
    refine ⟨g, ?_, final⟩
    change g ∈ t.inbox other
    rw [inbox]
    by_cases same : other = id
    · rw [same, filed] at member
      rw [same, setInbox_same]
      cases List.mem_cons.mp member with
      | inl first =>
        have more := ends_eq_false open_ (same.trans tag.symm)
        rw [← first, final] at more
        cases more
      | inr later => exact later
    · rw [setInbox_other same]
      exact member
  · exact sound.filed other kind unread g (fewer member)
  · refine sound.own other kind ?_ unread
    obtain ⟨_, same⟩ | ⟨_, ended, _⟩ := maps
    · exact same ▸ running
    · change other ∈ t.pings at running
      rw [ended] at running
      exact (mem_unset.mp running).1
  · change other ∈ t.pings ∨ (other, Kind.request) ∈ w.unread
    change other ∈ t.inFlight at flying
    obtain ⟨still, same⟩ | ⟨landed, ended, none⟩ := maps
    · rw [same]
      exact sound.known other (still ▸ flying)
    · rw [landed] at flying
      obtain ⟨flew, different⟩ := mem_unset.mp flying
      rw [ended]
      exact (sound.known other flew).imp_left fun running => mem_unset.mpr ⟨running, different⟩
  · exact sound.given other (discarded ▸ given)

/-- The awaiter hears that the session is lost. -/
theorem Sound.loses {w : World} (sound : Sound w) {id : Nat} {t : Session} (tidy : Tidy t)
    (inFlight : t.inFlight = unset w.session.inFlight id) (inbox : t.inbox = w.session.inbox)
    (discarded : t.discarded = w.session.discarded) (probeRid : t.probeRid = w.session.probeRid)
    (pings : t.pings = w.session.pings ∨ t.pings = unset w.session.pings id) :
    Sound ((w.loses id).ids t) := by
  have listed {other : Nat} {kind : Kind} (unread : (other, kind) ∈ (w.loses id).unread) :
      (other, kind) ∈ w.unread ∧ other ≠ id := by
    obtain ⟨old, different⟩ := List.mem_filter.mp unread
    exact ⟨old, of_decide_eq_true different⟩
  refine ⟨tidy, fun other kind unread notProbe => ?_, fun other unread => ?_,
    fun other kind unclaimed => ?_, fun other kind unread g member => ?_,
    fun other kind running unread => ?_, fun other flying => ?_, fun other given => ?_⟩
  · obtain ⟨old, different⟩ := listed unread
    change other ∈ t.inFlight
    rw [inFlight]
    exact mem_unset.mpr ⟨sound.flying other kind old notProbe, different⟩
  · exact probeRid.trans (sound.probe other (listed unread).1)
  · exact inbox ▸ sound.claimed other kind unclaimed
  · exact sound.filed other kind (listed unread).1 g (inbox ▸ member)
  · refine sound.own other kind ?_ (listed unread).1
    change other ∈ t.pings at running
    cases pings with
    | inl same => exact same ▸ running
    | inr ended =>
      rw [ended] at running
      exact (mem_unset.mp running).1
  · change other ∈ t.inFlight at flying
    rw [inFlight] at flying
    obtain ⟨flew, different⟩ := mem_unset.mp flying
    cases sound.known other flew with
    | inl running =>
      refine .inl ?_
      change other ∈ t.pings
      cases pings with
      | inl same => exact same ▸ running
      | inr ended =>
        rw [ended]
        exact mem_unset.mpr ⟨running, different⟩
    | inr unread =>
      exact .inr (List.mem_filter.mpr ⟨unread, decide_eq_true different⟩)
  · exact sound.given other (discarded ▸ given)

theorem Sound.discards {w : World} (sound : Sound w) {id : Nat} (call : id ∉ w.session.pings) :
    Sound ((w.givesUp id).ids (w.session.discard id)) := by
  have tidy := sound.tidy.discard call
  have inFlight : (w.session.discard id).inFlight = w.session.inFlight := by
    unfold Session.discard
    dsimp only
    split <;> rfl
  have inbox : (w.session.discard id).inbox = (w.session.setInbox id []).inbox := by
    unfold Session.discard
    dsimp only
    split <;> rfl
  have probeRid : (w.session.discard id).probeRid = w.session.probeRid := by
    unfold Session.discard
    dsimp only
    split <;> rfl
  have pings : (w.session.discard id).pings = w.session.pings := by
    unfold Session.discard
    dsimp only
    split <;> rfl
  refine ⟨tidy, fun other kind unread notProbe => ?_, fun other unread => ?_,
    fun other kind unclaimed => ?_, fun other kind unread g member => ?_,
    fun other kind running unread => ?_, fun other flying => ?_, fun other given => ?_⟩
  · exact inFlight ▸ sound.flying other kind unread notProbe
  · exact probeRid.trans (sound.probe other unread)
  · obtain ⟨listed, different⟩ := List.mem_filter.mp unclaimed
    obtain ⟨g, member, final⟩ := sound.claimed other kind listed
    refine ⟨g, ?_, final⟩
    change g ∈ (w.session.discard id).inbox other
    rw [inbox, setInbox_other (of_decide_eq_true different)]
    exact member
  · change g ∈ (w.session.discard id).inbox other at member
    rw [inbox] at member
    by_cases same : other = id
    · rw [same, setInbox_same] at member
      cases member
    · rw [setInbox_other same] at member
      exact sound.filed other kind unread g member
  · exact sound.own other kind (pings ▸ running) unread
  · change other ∈ (w.session.discard id).inFlight at flying
    rw [inFlight] at flying
    exact (sound.known other flying).imp_left fun running => pings ▸ running
  · change other ∈ (w.session.discard id).discarded at given
    unfold Session.discard at given
    dsimp only at given
    split at given
    · cases List.mem_cons.mp given with
      | inl same => exact List.mem_cons.mpr (.inl same)
      | inr given => exact List.mem_cons_of_mem id (sound.given other given)
    · exact List.mem_cons_of_mem id (sound.given other given)

/-! ## Every run -/

/-- Whether the step asks for a new id. -/
def draws (s : Session) : Label → Bool
  | .submits => !s.dead
  | .pings => true
  | .silence _ => !(s.writing.isSome || s.fatal || s.probeRid.isSome)
  | _ => false

/-- New ids are drawn on clear walks, and a PING is answered by a PONG or by a terminal. -/
structure Orderly (w : World) (a : Label) : Prop where
  clear : draws w.session a = true → Clear w.session
  answer : ∀ id f queue, a = .pongs id → w.session.inbox id = f :: queue →
    f.isEnd = true ∨ f.isPong = true

theorem Sound.lives {w : World} (sound : Sound w) : Sound (w.ids w.session.poison) :=
  sound.session sound.tidy.poison rfl rfl rfl rfl rfl

theorem Sound.awaits {w w' : World} (sound : Sound w) {id : Nat} {terminal : Bool}
    (call : id ∉ w.session.pings)
    (taken : nextFrameFor w id (fun s f => if terminal ∧ ¬f.isEnd then s.poison else s) = some w') :
    Sound w' := by
  unfold nextFrameFor at taken
  dsimp only at taken
  split at taken
  · rename_i f queue filed
    cases taken
    have popped := sound.takes filed (sound.tidy.pops call filed) rfl rfl rfl (.inl ⟨rfl, rfl⟩)
    split
    · exact popped.lives
    · exact popped
  · split at taken
    · split at taken
      · rename_i poisoned
        cases taken
        have landed := sound.tidy.lands (.inl poisoned) fun running => absurd running call
        exact sound.loses landed rfl rfl rfl rfl (.inl rfl)
      · cases taken
    · cases taken
      exact sound

theorem Sound.pongs {w w' : World} (sound : Sound w) {id : Nat} (call : id ∈ w.session.pings)
    (answer : ∀ f queue, w.session.inbox id = f :: queue → f.isEnd = true ∨ f.isPong = true)
    (taken : (nextFrameFor w id fun s _ => { s with inFlight := unset s.inFlight id }).map
      (fun w => w.ids { w.session with pings := unset w.session.pings id }) = some w') :
    Sound w' := by
  have ended := sound.tidy.hangsUp id
  have gone : id ∉ unset w.session.pings id := fun member => (mem_unset.mp member).2 rfl
  have kept := (sound.tidy.calls id call).2
  obtain ⟨u, taken, same⟩ := Option.map_eq_some_iff.mp taken
  unfold nextFrameFor at taken
  dsimp only at taken
  split at taken
  · rename_i f queue filed
    cases taken
    cases same
    have none (kind : Kind) : (id, kind) ∉ w.unread := by
      intro unread
      have ping := sound.own id kind call unread
      have more := sound.filed id kind unread f (filed ▸ List.mem_cons_self ..)
      have final : kind.final f = true := by
        cases answer f queue filed with
        | inl last => exact final_end last kind
        | inr pong => exact final_probe pong (by rw [ping]; exact nofun)
      rw [final] at more
      cases more
    have popped := ended.pops gone filed
    have landed := popped.lands (.inr kept) fun running => absurd running gone
    exact sound.takes filed landed rfl rfl rfl (.inr ⟨rfl, rfl, none⟩)
  · split at taken
    · split at taken
      · rename_i poisoned
        cases taken
        cases same
        have landed := ended.lands (.inl poisoned) fun running => absurd running gone
        exact sound.loses landed rfl rfl rfl rfl (.inr rfl)
      · cases taken
    · rename_i landed
      rw [List.contains_iff_mem] at landed
      cases taken
      cases same
      refine ⟨ended, sound.flying, sound.probe, sound.claimed, sound.filed,
        fun other kind running => ?_, fun other flying => ?_, sound.given⟩
      · exact sound.own other kind (mem_unset.mp running).1
      · refine (sound.known other flying).imp_left fun running => mem_unset.mpr ⟨running, ?_⟩
        rintro rfl
        exact landed flying

theorem step_sound {w w' : World} {a : Label} (sound : Sound w) (orderly : Orderly w a)
    (taken : step w a = some w') : Sound w' := by
  cases a with
  | submits =>
    unfold step at taken
    dsimp only at taken
    split at taken
    · cases taken
      exact sound
    · rename_i alive
      split at taken
      · obtain ⟨id, found, same⟩ := Option.map_eq_some_iff.mp taken
        cases same
        have clear := orderly.clear (Bool.not_eq_true' _ ▸ Bool.not_eq_true _ ▸ alive)
        exact sound.begins clear found nofun
      · cases taken
  | pings =>
    obtain ⟨id, found, same⟩ := Option.map_eq_some_iff.mp taken
    cases same
    exact sound.begins (orderly.clear rfl) found nofun
  | silence late =>
    unfold step at taken
    dsimp only at taken
    split at taken
    · cases taken
      exact sound
    · rename_i idle
      split at taken
      · cases taken
        exact sound.lives
      · rename_i quiet
        split at taken
        · cases taken
          cases late with
          | true => exact sound.lives
          | false => exact sound
        · rename_i unasked
          obtain ⟨id, found, same⟩ := Option.map_eq_some_iff.mp taken
          cases same
          rw [Bool.not_eq_true] at idle quiet unasked
          have drawn : draws w.session (.silence late) = true := by
            rw [draws, idle, quiet, unasked]
            rfl
          exact sound.begins (orderly.clear drawn) found fun _ =>
            Option.not_isSome_iff_eq_none.mp (Bool.not_eq_true _ ▸ unasked)
  | controls =>
    unfold step at taken
    dsimp only at taken
    split at taken
    · cases taken
      exact sound
    · cases taken
      exact sound.session (sound.tidy.unwritten _ nofun) rfl rfl rfl rfl rfl
  | written =>
    unfold step at taken
    dsimp only at taken
    split at taken
    · cases taken
    · rename_i alive
      obtain ⟨frame, held, same⟩ := Option.map_eq_some_iff.mp taken
      cases same
      exact sound.completes (Bool.not_eq_true _ ▸ alive) held
  | received f =>
    unfold step at taken
    dsimp only at taken
    split at taken
    · cases taken
    · cases taken
      exact sound.reads f
  | awaits id terminal =>
    unfold step at taken
    dsimp only at taken
    split at taken
    · cases taken
    · rename_i call
      rw [List.contains_iff_mem] at call
      exact sound.awaits call taken
  | pongs id =>
    unfold step at taken
    dsimp only at taken
    split at taken
    · rename_i call
      rw [List.contains_iff_mem] at call
      exact sound.pongs call (fun f queue => orderly.answer id f queue rfl) taken
    · cases taken
  | discards id =>
    unfold step at taken
    dsimp only at taken
    split at taken
    · cases taken
    · rename_i call
      rw [List.contains_iff_mem] at call
      cases taken
      exact sound.discards call
  | fails =>
    cases taken
    exact sound.session (sound.tidy.poison.unwritten none nofun) rfl rfl rfl rfl rfl
  | closes =>
    cases taken
    have tidy := sound.tidy.poison
    refine sound.session ⟨tidy.tagged, tidy.probing, tidy.dropped, tidy.live,
      fun id kind held => ?_, tidy.nonzero, tidy.calls⟩ rfl rfl rfl rfl rfl
    obtain ⟨zero, ⟨landed, empty, other⟩, probe⟩ := tidy.reserved id kind held
    exact ⟨zero, ⟨landed, empty, other⟩, probe⟩

/-- In every state of an orderly run `nextFreeId` returns no outstanding id exactly where its walk
is clear, and never 0. -/
theorem nextFreeId_fresh {last : Int} {maxInFlight : Nat} {labels : List Label} {w : World}
    (orderly : Meets step Orderly (.start last maxInFlight) labels)
    (reached : run step (.start last maxInFlight) labels = some w) :
    (Clear w.session → w.session.nextFreeId.isSome = true) ∧
      ∀ id, w.session.nextFreeId = some id → id ≠ 0 ∧ (¬w.Outstanding id ↔ Clear w.session) := by
  have sound : Sound w :=
    run_invariant step step_sound (sound_start last maxInFlight) orderly reached
  refine ⟨nextFreeId_stops, fun id found => ⟨nextFreeId_ne_zero found, ?_⟩⟩
  obtain ⟨clear, unused⟩ | ⟨other, dropped⟩ := nextFreeId_cases sound.tidy found
  · exact ⟨fun _ => clear, fun _ => sound.not_outstanding unused⟩
  · exact ⟨fun ended => absurd (sound.outstanding_of_dropped dropped) ended,
      fun clear => absurd clear other⟩

/-- One request was sent. -/
def firstSent : World :=
  { session := { Session.start 1 256 with inFlight := [1] }
    unread := [(1, .request)]
    unclaimed := []
    abandoned := [] }

theorem start_submits :
    step (.start 0 256) .submits = some ((World.start 0 256).ids
      ((Session.start 0 256).begins 1 .request)) := by
  have found : (World.start 0 256).session.nextFreeId = some 1 := search_first rfl
  have alive : ¬(World.start 0 256).session.dead = true := Bool.false_ne_true
  unfold step
  dsimp only
  rw [if_neg alive, if_pos (by decide), found]
  rfl

theorem nextFreeId_fresh_firstSent :
    (Clear firstSent.session → firstSent.session.nextFreeId.isSome = true) ∧
      ∀ id, firstSent.session.nextFreeId = some id →
        id ≠ 0 ∧ (¬firstSent.Outstanding id ↔ Clear firstSent.session) := by
  have clear : Clear (Session.start 0 256) := by
    refine ⟨0, by decide, ⟨List.not_mem_nil, rfl, nofun⟩, fun j less => absurd less (by omega)⟩
  have written : step ((World.start 0 256).ids ((Session.start 0 256).begins 1 .request)) .written =
      some firstSent := rfl
  refine @nextFreeId_fresh 0 256 [.submits, .written] firstSent ?_ ?_
  · refine meets_cons step ⟨fun _ => clear, nofun⟩ start_submits ?_
    exact meets_cons step ⟨nofun, nofun⟩ written trivial
  · rw [run_cons, start_submits, Option.bind_some, run_cons, written]
    rfl

/-- The request 1 was given up and its terminal is still to come. -/
def held (n : Nat) : World :=
  { session := { Session.start n 256 with
      inFlight := [1]
      discarded := [1] }
    unread := [(1, .request)]
    unclaimed := []
    abandoned := [1] }

/-- A request that is answered and awaited. -/
def cycle (id : Nat) : List Label :=
  [.submits, .written, .received ⟨id, true, false⟩, .awaits id true]

theorem nextId_small {n : Nat} (small : n < idCount) : nextId n = n + 1 := by
  rw [nextId_eq]
  unfold idAt
  unfold idCount at small ⊢
  omega

theorem held_cycle {n : Nat} (positive : 1 ≤ n) (small : n < idCount) :
    run step (held n) (cycle (n + 1)) = some (held (n + 1)) := by
  have fresh := nextId_small small
  have found : (held n).session.nextFreeId = some (n + 1) := by
    have free : (held n).session.taken (nextId (held n).session.last) = false := by
      change (held n).session.taken (nextId n) = false
      rw [fresh]
      simp [held, Session.taken, Session.isPending, Session.start]
    rw [search_first free]
    exact congrArg some fresh
  have first : step (held n) .submits = some ((held n).ids ((held n).session.begins (n + 1) .request)) := by
    unfold step
    simp only [found]
    rfl
  have zero : n ≠ 0 := by omega
  have sent : step ((held n).ids ((held n).session.begins (n + 1) .request)) .written =
      some { held (n + 1) with
        session := { (held (n + 1)).session with inFlight := [n + 1, 1] }
        unread := [(n + 1, .request), (1, .request)] } := by
    simp [step, held, Session.begins, Session.start, Session.dead, World.ids, Session.completes,
      World.writes, unset, zero]
  have read : step { held (n + 1) with
        session := { (held (n + 1)).session with inFlight := [n + 1, 1] }
        unread := [(n + 1, .request), (1, .request)] } (.received ⟨n + 1, true, false⟩) =
      some { held (n + 1) with
        session := (held (n + 1)).session.setInbox (n + 1) [⟨n + 1, true, false⟩]
        unclaimed := [(n + 1, .request)] } := by
    simp [step, held, Session.start, World.ids, unset, zero, World.reads, Session.route,
      World.ends, Kind.final, Session.setInbox]
  have awaited : step { held (n + 1) with
        session := (held (n + 1)).session.setInbox (n + 1) [⟨n + 1, true, false⟩]
        unclaimed := [(n + 1, .request)] } (.awaits (n + 1) true) = some (held (n + 1)) := by
    simp [step, held, Session.start, World.ends, Kind.final, nextFrameFor, Session.setInbox,
      World.takes]
    funext other
    split <;> rfl
  rw [cycle, run_cons, first, Option.bind_some, run_cons, sent, Option.bind_some, run_cons, read,
    Option.bind_some, run_cons, awaited]
  rfl

theorem held_cycles (count : Nat) (small : count + 1 ≤ idCount) :
    run step (held 1) ((List.range count).flatMap fun k => cycle (k + 2)) =
      some (held (count + 1)) := by
  induction count with
  | zero => rfl
  | succ count ih =>
    rw [List.range_succ, List.flatMap_append, run_append, ih (by omega), Option.bind_some,
      List.flatMap_cons, List.flatMap_nil, List.append_nil]
    exact held_cycle (by omega) (by omega)

/-- A request is given up, and one after another as many more are answered as there are other ids. -/
def onceRound : List Label :=
  [.submits, .written, .discards 1] ++ (List.range 4294967294).flatMap fun k => cycle (k + 2)

/-- The terminal of request 1 has not been read, and 1 is the next id. -/
theorem onceRound_reuses : ∃ w, run step (.start 0 256) onceRound = some w ∧
    w.session.nextFreeId = some 1 ∧ w.Outstanding 1 := by
  have written : step ((World.start 0 256).ids ((Session.start 0 256).begins 1 .request)) .written =
      some firstSent := rfl
  have given : step firstSent (.discards 1) = some (held 1) := by
    simp [step, firstSent, held, Session.start, Session.discard, Session.setInbox, World.givesUp,
      World.ids]
  refine ⟨held (4294967294 + 1), ?_, ?_, .request, .inl (List.mem_cons_self ..)⟩
  · rw [onceRound, run_append, run_cons, start_submits, Option.bind_some, run_cons, written,
      Option.bind_some, run_cons, given, Option.bind_some, run_nil, Option.bind_some]
    exact held_cycles 4294967294 (Nat.le_refl _)
  · exact search_first rfl

end FerroEngine.ClientIdsSafety
