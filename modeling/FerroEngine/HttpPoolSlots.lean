import FerroEngine.HttpPool

set_option autoImplicit false

/-! # The slots of an HTTP pool

Every slot that a take reserves is held in one place, or has been given back once.
-/

namespace FerroEngine.HttpPoolSlots

open HttpPool

def closedBy (lock : Option Decision) : List HttpConn :=
  (lock.map Decision.closed).getD []

/-- The guards that have not subtracted yet, wherever they are. -/
def held (s : State) : List Guard :=
  s.dials.flatMap dialSlot ++ (guards s.idle ++ (guards s.used ++ (guards s.returning ++
    (guards (closedBy s.lock) ++ s.dropping))))

def issued (slots : Nat) : List Guard :=
  (List.range slots).flatMap dialSlot

def isConn : Guard → Bool
  | .conn _ => true
  | .dialing _ => false

/-- The connection counted under the lock whose `DialSlot` is not built yet. -/
def halfReserved (lock : Option Decision) : Nat :=
  if lock.map Decision.stage = some .addsDialing then 1 else 0

structure Counted (s : State) : Prop where
  slots : (held s ++ s.released).Perm (issued s.next)
  live : s.live = (held s).countP isConn + halfReserved s.lock
  dialing : s.dialing = (held s).countP (!isConn ·)

/-! ## What a step does with the guards -/

structure Moved (s t : State) : Prop where
  held : (held t).Perm (held s)
  released : t.released = s.released
  next : t.next = s.next
  live : t.live + halfReserved s.lock = s.live + halfReserved t.lock
  dialing : t.dialing = s.dialing

structure Reserved (s t : State) : Prop where
  held : (held t).Perm (dialSlot s.next ++ held s)
  released : t.released = s.released
  next : t.next = s.next + 1
  live : t.live = s.live
  dialing : t.dialing = s.dialing + 1
  before : halfReserved s.lock = 1
  after : halfReserved t.lock = 0

structure Freed (s t : State) (g : Guard) : Prop where
  held : (held s).Perm (g :: held t)
  released : t.released = g :: s.released
  next : t.next = s.next
  live : t.live = s.live - if isConn g then 1 else 0
  dialing : t.dialing = s.dialing - if isConn g then 0 else 1
  half : halfReserved t.lock = halfReserved s.lock

theorem issued_succ (slots : Nat) : issued (slots + 1) = issued slots ++ dialSlot slots := by
  rw [issued, List.range_succ, List.flatMap_append, List.flatMap_singleton]
  rfl

theorem counted_of_moved {s t : State} (counted : Counted s) (moved : Moved s t) : Counted t where
  slots := by
    rw [moved.released, moved.next]
    exact (moved.held.append_right _).trans counted.slots
  live := by
    have before := counted.live
    have change := moved.live
    rw [moved.held.countP_eq]
    omega
  dialing := by
    rw [moved.held.countP_eq, moved.dialing]
    exact counted.dialing

theorem counted_of_reserved {s t : State} (counted : Counted s) (reserved : Reserved s t) :
    Counted t where
  slots := by
    rw [reserved.released, reserved.next, issued_succ]
    refine (reserved.held.append_right _).trans ?_
    rw [List.append_assoc]
    exact List.perm_append_comm.trans (counted.slots.append_right _)
  live := by
    have before := counted.live
    rw [reserved.before] at before
    rw [reserved.held.countP_eq, List.countP_append, reserved.live, reserved.after, before]
    have one : (dialSlot s.next).countP isConn = 1 := rfl
    omega
  dialing := by
    have before := counted.dialing
    rw [reserved.held.countP_eq, List.countP_append, reserved.dialing, before]
    have one : (dialSlot s.next).countP (!isConn ·) = 1 := rfl
    omega

theorem counted_of_freed {s t : State} {g : Guard} (counted : Counted s) (freed : Freed s t g) :
    Counted t where
  slots := by
    rw [freed.released, freed.next]
    refine List.perm_middle.trans ?_
    rw [← List.cons_append]
    exact (freed.held.symm.append_right _).trans counted.slots
  live := by
    have before := counted.live
    rw [freed.held.countP_eq, List.countP_cons] at before
    rw [freed.live, freed.half, before]
    split <;> omega
  dialing := by
    have before := counted.dialing
    rw [freed.held.countP_eq, List.countP_cons] at before
    rw [freed.dialing, before]
    cases isConn g <;> simp

/-! ## Lists of guards -/

theorem perm_cons_eraseIdx {α : Type} {l : List α} {k : Nat} {a : α} (found : l[k]? = some a) :
    l.Perm (a :: l.eraseIdx k) := by
  obtain ⟨inside, here⟩ := List.getElem?_eq_some_iff.mp found
  rw [← here]
  exact (List.getElem_cons_eraseIdx_perm inside).symm

theorem guards_closing (slot : Nat) (conns : List HttpConn) :
    guards (closing slot conns) = guards conns := by
  rw [guards, closing, List.map_map]
  apply List.map_congr_left
  intro c _
  rw [Function.comp_apply]
  split <;> rfl

theorem guards_set {conns : List HttpConn} {k : Nat} {c c' : HttpConn}
    (found : conns[k]? = some c) (same : c'.slot = c.slot) :
    guards (conns.set k c') = guards conns := by
  obtain ⟨inside, here⟩ := List.getElem?_eq_some_iff.mp found
  rw [guards, guards, List.map_set, same, ← here]
  apply List.ext_getElem
  · rw [List.length_set]
  · intro n _ _
    rw [List.getElem_set]
    split
    · rename_i equal
      subst equal
      rw [List.getElem_map]
    · rfl

theorem held_count (s : State) (g : Guard) :
    (held s).count g = (s.dials.flatMap dialSlot).count g + ((guards s.idle).count g +
      ((guards s.used).count g + ((guards s.returning).count g +
        ((guards (closedBy s.lock)).count g + s.dropping.count g)))) := by
  rw [held, List.count_append, List.count_append, List.count_append, List.count_append,
    List.count_append]

/-- A connection at the head of a list, in its place below. -/
theorem guards_count_eraseIdx {conns : List HttpConn} {k : Nat} {c : HttpConn}
    (found : conns[k]? = some c) (g : Guard) :
    (guards conns).count g = (guards [c]).count g + (guards (conns.eraseIdx k)).count g := by
  have perm : (guards conns).Perm (guards (c :: conns.eraseIdx k)) :=
    (perm_cons_eraseIdx found).map _
  rw [perm.count_eq g, ← List.count_append]
  rfl

theorem guards_count_cons (c : HttpConn) (conns : List HttpConn) (g : Guard) :
    (guards (c :: conns)).count g = (guards [c]).count g + (guards conns).count g := by
  rw [← List.count_append]
  rfl

theorem guards_count_concat (c : HttpConn) (conns : List HttpConn) (g : Guard) :
    (guards (conns ++ [c])).count g = (guards conns).count g + (guards [c]).count g := by
  rw [guards, List.map_append, List.count_append]
  rfl

theorem dials_count_eraseIdx {dials : List Nat} {k slot : Nat} (found : dials[k]? = some slot)
    (g : Guard) :
    (dials.flatMap dialSlot).count g =
      (dialSlot slot).count g + ((dials.eraseIdx k).flatMap dialSlot).count g := by
  have perm := (perm_cons_eraseIdx found).flatMap_right dialSlot
  rw [perm.count_eq g, List.flatMap_cons, List.count_append]

/-! ## Steps -/

theorem moved_of_count {s t : State} (count : ∀ g, (held t).count g = (held s).count g)
    (released : t.released = s.released) (next : t.next = s.next)
    (live : t.live + halfReserved s.lock = s.live + halfReserved t.lock)
    (dialing : t.dialing = s.dialing) : Moved s t :=
  ⟨List.perm_iff_count.mpr count, released, next, live, dialing⟩

theorem moved_put (s : State) (i : Nat) (policy : ReusePolicy) (phase : Phase) :
    Moved s (s.put i policy phase) :=
  moved_of_count (fun _ => rfl) rfl rfl rfl rfl

theorem moved_goes {s : State} {d : Decision} (locked : s.lock = some d) {stage : Stage}
    (same : halfReserved (some { d with stage := stage }) = halfReserved s.lock) :
    Moved s (s.goes d stage) := by
  refine moved_of_count ?_ rfl rfl ?_ rfl
  · intro g
    rw [held_count, held_count, locked]
    rfl
  · dsimp only [State.goes]
    rw [same]

theorem moved_leaves {s : State} {d : Decision} (locked : s.lock = some d)
    (whole : halfReserved s.lock = 0) (phase : Phase) : Moved s (s.leaves d phase) := by
  refine moved_of_count ?_ rfl rfl ?_ rfl
  · intro g
    rw [held_count, held_count, locked]
    dsimp only [State.leaves, State.drops, State.put, closedBy, Option.map_some, Option.getD_some,
      Option.map_none, Option.getD_none]
    rw [List.count_append]
    have none : (guards []).count g = 0 := rfl
    omega
  · rw [whole]
    rfl

theorem moved_looked {s : State} {d : Decision} (locked : s.lock = some d)
    (pops : d.stage = .pops) : Moved s (s.looked d) := by
  have whole : halfReserved s.lock = 0 := by
    rw [locked, halfReserved, Option.map_some, pops]
    rfl
  rw [State.looked]
  split
  · exact moved_goes locked (by rw [whole]; rfl)
  · exact moved_leaves locked whole .arriving

theorem moved_popStep {s : State} {d : Decision} (locked : s.lock = some d)
    (pops : d.stage = .pops) : Moved s (popStep s d) := by
  have whole : halfReserved s.lock = 0 := by
    rw [locked, halfReserved, Option.map_some, pops]
    rfl
  rw [popStep]
  split
  · exact moved_looked locked pops
  · rename_i c below stack
    split
    · refine moved_of_count ?_ rfl rfl ?_ rfl
      · intro g
        rw [held_count, held_count, locked, stack, guards_count_cons]
        dsimp only [closedBy, Option.map_some, Option.getD_some]
        rw [guards_count_concat]
        omega
      · dsimp only [halfReserved, Option.map_some]
        rw [locked]
        rfl
    · split
      · exact moved_looked locked pops
      · refine moved_of_count ?_ rfl rfl ?_ rfl
        · intro g
          rw [held_count, held_count, locked, stack]
          dsimp only [State.leaves, State.drops, State.put, closedBy, Option.map_some,
            Option.getD_some, Option.map_none, Option.getD_none]
          rw [guards_count_cons c below, guards_count_cons c s.used, List.count_append]
          have none : (guards []).count g = 0 := rfl
          omega
        · rw [whole]
          rfl

/-- The decision changes the places of the guards, or builds a `DialSlot`. -/
theorem decideStep_guards {s : State} {d : Decision} (locked : s.lock = some d) :
    Moved s (decideStep s d) ∨ Reserved s (decideStep s d) := by
  have half : ∀ stage, d.stage = stage →
      halfReserved s.lock = if stage = .addsDialing then 1 else 0 := by
    intro stage here
    rw [locked, halfReserved, Option.map_some, here]
    simp only [Option.some.injEq]
  rw [decideStep]
  split
  · rename_i stage
    exact .inl (moved_popStep locked stage)
  · rename_i stage
    refine .inl (moved_goes locked ?_)
    rw [half _ stage]
    split <;> rfl
  · rename_i stage
    refine .inl (moved_goes locked ?_)
    rw [half _ stage]
    split <;> rfl
  · rename_i stage
    refine .inl (moved_of_count ?_ rfl rfl ?_ rfl)
    · intro g
      rw [held_count, held_count, locked]
      rfl
    · rw [half _ stage]
      rfl
  · rename_i stage
    have built : ∀ g, (held (decideStep s d)).count g = (dialSlot s.next ++ held s).count g := by
      intro g
      rw [List.count_append, held_count, held_count, locked, decideStep, stage]
      dsimp only [State.leaves, State.drops, State.put, closedBy, Option.map_some,
        Option.getD_some, Option.map_none, Option.getD_none]
      rw [List.flatMap_cons, List.count_append, List.count_append]
      have none : (guards []).count g = 0 := rfl
      omega
    rw [decideStep, stage] at built
    exact .inr ⟨List.perm_iff_count.mpr built, rfl, rfl, rfl, rfl, half _ stage, rfl⟩
  · rename_i stage
    have whole : halfReserved s.lock = 0 := half _ stage
    split
    · rename_i idlest bottom
      split
      · refine .inl (moved_of_count ?_ rfl rfl ?_ rfl)
        · intro g
          have stack : s.idle = s.idle.dropLast ++ [idlest] := by
            rw [List.dropLast_append_getLast?]
            exact bottom
          rw [held_count, held_count, locked]
          dsimp only [State.leaves, State.drops, State.put, closedBy, Option.map_some,
            Option.getD_some, Option.map_none, Option.getD_none]
          rw [List.count_append, guards_count_concat]
          have parts := congrArg (fun l => (guards l).count g) stack
          rw [guards_count_concat] at parts
          have none : (guards []).count g = 0 := rfl
          omega
        · rw [whole]
          rfl
      · exact .inl (moved_leaves locked whole _)
    · exact .inl (moved_leaves locked whole _)

/-- A connection leaves the hands of a request for its drop, or for `put_back`. -/
theorem moved_used {s t : State} {k : Nat} {c : HttpConn} (found : s.used[k]? = some c)
    (used : t.used = s.used.eraseIdx k)
    (rest : ∀ g, (guards t.returning).count g + t.dropping.count g =
      (guards [c]).count g + ((guards s.returning).count g + s.dropping.count g))
    (dials : t.dials = s.dials) (idle : t.idle = s.idle) (lock : t.lock = s.lock)
    (released : t.released = s.released) (next : t.next = s.next) (live : t.live = s.live)
    (dialing : t.dialing = s.dialing) : Moved s t := by
  refine moved_of_count ?_ released next (by rw [live, lock]) dialing
  intro g
  have here := rest g
  rw [held_count, held_count, dials, idle, lock, used, guards_count_eraseIdx found]
  omega

theorem moved_putBack {s t : State} {k maxIdle : Nat}
    (taken : step s (.putBack k maxIdle) = some t) : Moved s t := by
  dsimp only [step] at taken
  split at taken
  · rename_i c found free
    split at taken
    · cases taken
      refine moved_of_count ?_ rfl rfl rfl rfl
      intro g
      rw [held_count, held_count, guards_count_eraseIdx found]
      dsimp only [State.drops]
      rw [List.count_append]
      omega
    · cases taken
      refine moved_of_count ?_ rfl rfl rfl rfl
      intro g
      rw [held_count, held_count, guards_count_eraseIdx found]
      dsimp only
      rw [guards_count_cons c s.idle]
      omega
  · cases taken

theorem freed_subtracts {s t : State} {k : Nat} (taken : step s (.subtracts k) = some t) :
    ∃ g, Freed s t g := by
  dsimp only [step] at taken
  rw [Option.map_eq_some_iff] at taken
  obtain ⟨g, found, rfl⟩ := taken
  have perm := perm_cons_eraseIdx found
  have freed : ∀ live dialing, (held s).Perm (g :: held { s with
      dropping := s.dropping.eraseIdx k
      released := g :: s.released
      notifying := s.notifying + 1
      live := live
      dialing := dialing }) := by
    intro live dialing
    rw [List.perm_iff_count]
    intro x
    rw [List.count_cons, held_count, held_count, perm.count_eq, List.count_cons]
    dsimp only
    omega
  refine ⟨g, ?_⟩
  cases g with
  | conn slot => exact ⟨freed _ _, rfl, rfl, rfl, rfl, rfl⟩
  | dialing slot => exact ⟨freed _ _, rfl, rfl, rfl, rfl, rfl⟩

/-- A step of a taker outside the lock. -/
theorem moved_taker {s t : State} {i : Nat} {next : Taker → Option State}
    (taken : s.takers[i]?.bind next = some t) (moves : ∀ k t, next k = some t → Moved s t) :
    Moved s t := by
  rw [Option.bind_eq_some_iff] at taken
  obtain ⟨k, -, taken⟩ := taken
  exact moves k t taken

/-- What one step does with the guards. -/
theorem step_guards {s t : State} {a : Label} (taken : step s a = some t) :
    Moved s t ∨ Reserved s t ∨ ∃ g, Freed s t g := by
  cases a with
  | calls policy =>
    cases taken
    exact .inl (moved_of_count (fun _ => rfl) rfl rfl rfl rfl)
  | registers i =>
    refine .inl (moved_taker taken ?_)
    intro k t taken
    split at taken
    · cases taken
      exact moved_put ..
    · cases taken
  | locks i =>
    refine .inl (moved_taker taken ?_)
    intro k t taken
    split at taken
    · rename_i free
      cases taken
      refine moved_of_count ?_ rfl rfl ?_ rfl
      · intro g
        rw [held_count, held_count, free]
        rfl
      · rw [free]
        rfl
    · cases taken
  | decides =>
    dsimp only [step] at taken
    rw [Option.map_eq_some_iff] at taken
    obtain ⟨d, locked, rfl⟩ := taken
    rcases decideStep_guards locked with moved | reserved
    · exact .inl moved
    · exact .inr (.inl reserved)
  | wakes i =>
    refine .inl (moved_taker taken ?_)
    intro k t taken
    split at taken
    · split at taken
      · cases taken
        exact moved_put ..
      · cases taken
    · cases taken
  | cancels i =>
    refine .inl (moved_taker taken ?_)
    intro k t taken
    split at taken
    · cases taken
      exact moved_put ..
    · cases taken
  | connects k idleLimit =>
    dsimp only [step] at taken
    rw [Option.map_eq_some_iff] at taken
    obtain ⟨slot, found, rfl⟩ := taken
    refine .inl (moved_of_count ?_ rfl rfl rfl rfl)
    intro g
    rw [held_count, held_count, dials_count_eraseIdx found]
    dsimp only [State.drops]
    rw [guards_count_cons _ s.used, List.count_append]
    have both : (dialSlot slot).count g =
        (guards [⟨slot, s.now, s.now, idleLimit, false⟩]).count g + [Guard.dialing slot].count g := by
      rw [← List.count_append]
      rfl
    omega
  | fails k =>
    dsimp only [step] at taken
    rw [Option.map_eq_some_iff] at taken
    obtain ⟨slot, found, rfl⟩ := taken
    refine .inl (moved_of_count ?_ rfl rfl rfl rfl)
    intro g
    rw [held_count, held_count, dials_count_eraseIdx found]
    dsimp only [State.drops]
    rw [List.count_append]
    omega
  | clamps k idleLimit =>
    dsimp only [step] at taken
    rw [Option.map_eq_some_iff] at taken
    obtain ⟨c, found, rfl⟩ := taken
    refine .inl (moved_of_count ?_ rfl rfl rfl rfl)
    intro g
    rw [held_count, held_count]
    dsimp only
    have same : guards (s.used.set k { c with idleLimit := idleLimit }) = guards s.used :=
      guards_set found rfl
    rw [same]
  | checkin k =>
    dsimp only [step] at taken
    rw [Option.map_eq_some_iff] at taken
    obtain ⟨c, found, rfl⟩ := taken
    refine .inl (moved_used found rfl ?_ rfl rfl rfl rfl rfl rfl rfl)
    intro g
    rw [guards_count_cons _ s.returning, Nat.add_assoc]
    rfl
  | returnUnused k =>
    dsimp only [step] at taken
    rw [Option.map_eq_some_iff] at taken
    obtain ⟨c, found, rfl⟩ := taken
    refine .inl (moved_used found rfl ?_ rfl rfl rfl rfl rfl rfl rfl)
    intro g
    rw [guards_count_cons _ s.returning, Nat.add_assoc]
  | putBack k maxIdle => exact .inl (moved_putBack taken)
  | discards k =>
    dsimp only [step] at taken
    rw [Option.map_eq_some_iff] at taken
    obtain ⟨c, found, rfl⟩ := taken
    refine .inl (moved_used found rfl ?_ rfl rfl rfl rfl rfl rfl rfl)
    intro g
    dsimp only [State.drops]
    rw [List.count_append]
    omega
  | closes slot =>
    cases taken
    refine .inl (moved_of_count ?_ rfl rfl rfl rfl)
    intro g
    rw [held_count, held_count]
    dsimp only
    rw [guards_closing, guards_closing, guards_closing]
  | ticks =>
    cases taken
    exact .inl (moved_of_count (fun _ => rfl) rfl rfl rfl rfl)
  | subtracts k => exact .inr (.inr (freed_subtracts taken))
  | notifies =>
    dsimp only [step] at taken
    split at taken
    · cases taken
      exact .inl (moved_of_count (fun _ => rfl) rfl rfl rfl rfl)
    · cases taken

theorem step_counted {s t : State} {a : Label} (counted : Counted s)
    (taken : step s a = some t) : Counted t := by
  rcases step_guards taken with moved | reserved | ⟨g, freed⟩
  · exact counted_of_moved counted moved
  · exact counted_of_reserved counted reserved
  · exact counted_of_freed counted freed

theorem counted_start (caps : Caps) : Counted (State.start caps) :=
  ⟨.nil, rfl, rfl⟩

end FerroEngine.HttpPoolSlots
