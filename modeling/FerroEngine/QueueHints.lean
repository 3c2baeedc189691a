import FerroEngine.QueueDelivery

set_option autoImplicit false

/-! # Wake hints

A hint for a queue on which a waiter is parked leads to a sweep, or stays pending, for as long as
the waiter waits, unless a sweep of the queue fails while the waiter is busy in another one.
-/

namespace FerroEngine.QueueHints

open QueueWaker QueueWaker.Waker QueueWakerSlots QueueDelivery

variable {Job Err : Type} {cap : Nat} {st st' : Waker Job Err} {w n : Nat} {q : Queue}

/-- The waiter is on the queue, past its arrival, unfinished and inside its wait. -/
structure Parked (st : Waker Job Err) (w : Nat) (q : Queue) : Prop where
  listed : ∃ qs, st.queues q = some qs ∧ w ∈ qs.fifo
  registered : st.registered w = true
  unfinished : (st.hall.slot w).ended = none
  inside : st.hall.now < (st.hall.waiter w).waitEnd
  arrived : (st.hall.waiter w).queues.length ≤ (st.hall.slot w).arrival

def pending (st : Waker Job Err) (queue : Queue) : Option Trigger :=
  match st.queues queue with
  | some qs => qs.pending
  | none => none

/-- The number of sweeps of the queue that were started. -/
def sweptTimes (st : Waker Job Err) (queue : Queue) : Nat :=
  st.started.count queue

/-- What stays of a parked waiter while it waits. -/
structure Near (w : Nat) (q : Queue) (n : Nat) (st : Waker Job Err) : Prop where
  sound : ∃ gifts passed, Sound st.nextId st.hall gifts passed
  issued : Issued st.nextId w
  enrolled : (st.hall.slot w).ended = none →
    st.registered w = true ∧ ∃ qs, st.queues q = some qs ∧ w ∈ qs.fifo
  arrived : (st.hall.waiter w).queues.length ≤ (st.hall.slot w).arrival
  bound : st.bound = true
  since : n ≤ sweptTimes st q

/-- The hint is not forgotten. -/
def Heard (w : Nat) (q : Queue) (n : Nat) (st : Waker Job Err) : Prop :=
  (st.hall.slot w).ended ≠ none ∨ (st.hall.waiter w).waitEnd ≤ st.hall.now ∨
    n < sweptTimes st q ∨ pending st q ≠ none

/-! ## Moves -/

theorem near_moves {h : Hall Job Err} {given : List (Nat × List Job)} (near : Near w q n st)
    (moved : Moves st.nextId st.hall given h) : Near w q n (st.setHall h) := by
  obtain ⟨gifts, passed, sound⟩ := near.sound
  obtain ⟨sound', kept⟩ := sound.moves moved
  constructor
  · exact ⟨_, _, sound'⟩
  · exact near.issued
  · intro unfinished
    apply near.enrolled
    by_contra ended
    have same := kept.ended w ended
    rw [show (h.slot w).ended = none from unfinished] at same
    exact ended same.symm
  · change (h.waiter w).queues.length ≤ (h.slot w).arrival
    rw [kept.waiter]
    exact near.arrived.trans (kept.arrival w)
  · exact near.bound
  · exact near.since

/-- What ended or ran out stays so. -/
theorem heard_moves {h : Hall Job Err} {given : List (Nat × List Job)} (near : Near w q n st)
    (moved : Moves st.nextId st.hall given h) (heard : Heard w q n st) :
    Heard w q n (st.setHall h) := by
  obtain ⟨gifts, passed, sound⟩ := near.sound
  have kept := (sound.moves moved).2
  rcases heard with ended | late | swept | kept'
  · left
    change (h.slot w).ended ≠ none
    rw [kept.ended w ended]
    exact ended
  · right
    left
    change (h.waiter w).waitEnd ≤ h.now
    rw [kept.waiter]
    exact late.trans kept.now
  · exact Or.inr (Or.inr (Or.inl swept))
  · exact Or.inr (Or.inr (Or.inr kept'))

/-- A change of the queues that keeps a pending trigger pending. -/
theorem heard_transfer (heard : Heard w q n st) (hall : st'.hall = st.hall)
    (started : st'.started = st.started) (kept : pending st q ≠ none → pending st' q ≠ none) :
    Heard w q n st' := by
  unfold Heard sweptTimes at heard ⊢
  rw [hall, started]
  exact heard.imp_right (Or.imp_right (Or.imp_right kept))

theorem pending_setQueue_self {qs : QueueState} : pending (st.setQueue q qs) q = qs.pending := by
  unfold pending setQueue
  dsimp only
  rw [Function.update_self]

theorem pending_setQueue_of_ne {queue : Queue} {qs : QueueState} (differ : q ≠ queue) :
    pending (st.setQueue queue qs) q = pending st q := by
  unfold pending setQueue
  dsimp only
  rw [Function.update_of_ne differ]

/-! ## Sweeps -/

theorem collect_keeps {registered : Nat → Bool} {queue : Queue} {now : Nat} (fifo : List Nat) :
    ∀ (h : Hall Job Err) (batch : List Nat) (k : Nat) (owed : Bool),
      (batch ≠ [] → (collect cap registered queue now fifo h batch k owed).2.1 ≠ []) ∧
        (owed = true → (collect cap registered queue now fifo h batch k owed).2.2.2 = true) := by
  induction fifo with
  | nil => exact fun h batch k owed => ⟨id, id⟩
  | cons first rest ih =>
    intro h batch k owed
    unfold collect
    by_cases known : registered first = true
    · rw [if_pos known]
      dsimp only
      by_cases fit : (h.lock.waiter first).eligible (h.lock.slot first) queue now = true
      · rw [if_pos fit]
        split_ifs
        · exact ⟨id, id⟩
        · refine ⟨fun _ => (ih _ _ _ _).1 ?_, (ih _ _ _ _).2⟩
          exact List.append_ne_nil_of_right_ne_nil _ (List.cons_ne_nil _ _)
      · rw [if_neg fit]
        refine ⟨(ih _ _ _ _).1, fun already => (ih _ _ _ _).2 ?_⟩
        rw [already, Bool.true_or]
    · rw [if_neg known]
      exact ih _ _ _ _

/-- A parked waiter of the queue is served, or owed the sweep, or done waiting. -/
theorem collect_owes (cap : Nat) (queue : Queue) (now : Nat) {N : Nat} {registered : Nat → Bool}
    {gifts passed : List (Nat × List Job)} (known : registered w = true) (fifo : List Nat) :
    ∀ (h : Hall Job Err) (batch : List Nat) (k : Nat) (owed : Bool), Sound N h gifts passed →
      (h.waiter w).queues.length ≤ (h.slot w).arrival → w ∈ fifo →
      (collect cap registered queue now fifo h batch k owed).2.1 ≠ [] ∨
        (collect cap registered queue now fifo h batch k owed).2.2.2 = true ∨
        ((collect cap registered queue now fifo h batch k owed).1.slot w).ended ≠ none ∨
        (h.waiter w).waitEnd ≤ now := by
  induction fifo with
  | nil => exact fun h batch k owed sound arrived among => by cases among
  | cons first rest ih =>
    intro h batch k owed sound arrived among
    have locked := sound.moves (moves_lock h)
    rw [List.append_nil] at locked
    obtain ⟨sound', kept⟩ := locked
    have arrived' : (h.lock.waiter w).queues.length ≤ (h.lock.slot w).arrival := by
      rw [kept.waiter]
      exact arrived.trans (kept.arrival w)
    have waitEnd : (h.lock.waiter w).waitEnd = (h.waiter w).waitEnd := by rw [kept.waiter]
    unfold collect
    by_cases same : first = w
    · subst same
      rw [if_pos known]
      dsimp only
      by_cases fit : (h.lock.waiter first).eligible (h.lock.slot first) queue now = true
      · left
        rw [if_pos fit]
        split_ifs with full
        · exact full.1
        · apply (collect_keeps rest _ _ _ _).1
          exact List.append_ne_nil_of_right_ne_nil _ (List.cons_ne_nil _ _)
      · rw [if_neg fit]
        by_cases ended : (h.lock.slot first).ended = none
        · by_cases late : (h.lock.waiter first).waitEnd ≤ now
          · exact Or.inr (Or.inr (Or.inr (waitEnd ▸ late)))
          · right
            left
            apply (collect_keeps rest _ _ _ _).2
            have owes : (h.lock.waiter first).owed (h.lock.slot first) queue now = true := by
              unfold Waiter.owed
              rw [ended, decide_eq_true (Nat.lt_of_not_le late), decide_eq_true arrived']
              rfl
            unfold Waiter.eligible at fit
            rw [owes, Bool.and_true, Bool.not_eq_true', Bool.not_eq_false] at fit
            rw [fit, owes]
            exact Bool.or_true _
        · right
          right
          left
          have moved : Moves N h.lock [] (collect cap registered queue now rest h.lock batch k
              (owed || ((h.lock.slot first).busy &&
                (h.lock.waiter first).owed (h.lock.slot first) queue now))).1 :=
            moves_collect rest _ _ _ _
          rw [(sound'.moves moved).2.ended first ended]
          exact ended
    · have later : w ∈ rest := (List.mem_cons.mp among).resolve_left (Ne.symm same)
      by_cases known' : registered first = true
      · rw [if_pos known']
        dsimp only
        by_cases fit : (h.lock.waiter first).eligible (h.lock.slot first) queue now = true
        · rw [if_pos fit]
          split_ifs with full
          · exact Or.inl full.1
          · have next := ih (h.lock.setSlot first { h.lock.slot first with busy := true })
              (batch ++ [first]) (k + (h.lock.waiter first).clamp) owed sound'.mark (by
                rw [setSlot_slot_of_ne _ _ (Ne.symm same)]
                exact arrived') later
            rw [← waitEnd]
            exact next
        · rw [if_neg fit, ← waitEnd]
          exact ih _ _ _ _ sound' arrived' later
      · rw [if_neg known']
        exact ih _ _ _ _ sound arrived later

theorem sweptTimes_append {queue : Queue} (started : List Queue) :
    (started ++ [queue]).count q = started.count q + if queue = q then 1 else 0 := by
  rw [List.count_append, List.count_singleton]
  simp

/-- A queue that is set with its waiters keeps the waiter near. -/
theorem near_setQueue {queue : Queue} {old qs : QueueState} (near : Near w q n st)
    (known : st.queues queue = some old) (same : qs.fifo = old.fifo) :
    Near w q n (st.setQueue queue qs) := by
  refine ⟨near.sound, near.issued, ?_, near.arrived, near.bound, near.since⟩
  intro unfinished
  obtain ⟨registered, before, found, among⟩ := near.enrolled unfinished
  refine ⟨registered, ?_⟩
  by_cases here : q = queue
  · subst here
    rw [known, Option.some.injEq] at found
    subst found
    exact ⟨qs, Function.update_self .., same ▸ among⟩
  · exact ⟨before, (Function.update_of_ne here ..).trans found, among⟩

theorem startSweep_cases (cap : Nat) (queue : Queue) (trigger : Trigger)
    (ready : st.bound = true) :
    st.queues queue = none ∧ st.startSweep cap queue trigger = st ∨
      ∃ qs h batch k owed, st.queues queue = some qs ∧
        collect cap st.registered queue st.hall.now qs.fifo st.hall [] 0 false =
          (h, batch, k, owed) ∧
        (∀ N, Moves N st.hall [] h) ∧
        (batch = [] ∧ st.startSweep cap queue trigger = (st.setHall h).setQueue queue
          { qs with pending := if owed then some trigger else none } ∨
        batch ≠ [] ∧ st.startSweep cap queue trigger =
          { (st.setHall h).setQueue queue { qs with pending := none, inFlight := true } with
            sweeps := st.sweeps ++
              [{ number := st.started.length, queue := queue, batch := batch, k := min k 65535 }]
            started := st.started ++ [queue] }) := by
  unfold startSweep
  rw [if_pos ready]
  cases known : st.queues queue with
  | none => exact Or.inl ⟨rfl, rfl⟩
  | some qs =>
    right
    dsimp only
    have moved : ∀ N, Moves N st.hall []
        (collect cap st.registered queue st.hall.now qs.fifo st.hall [] 0 false).1 :=
      fun N => moves_collect qs.fifo st.hall [] 0 false
    cases collected : collect cap st.registered queue st.hall.now qs.fifo st.hall [] 0 false with
    | mk h found =>
      obtain ⟨batch, k, owed⟩ := found
      rw [collected] at moved
      refine ⟨qs, h, batch, k, owed, rfl, collected, moved, ?_⟩
      by_cases nobody : batch = []
      · left
        exact ⟨nobody, if_pos nobody⟩
      · right
        exact ⟨nobody, if_neg nobody⟩

theorem near_startSweep {queue : Queue} {trigger : Trigger} (near : Near w q n st) :
    Near w q n (st.startSweep cap queue trigger) := by
  rcases startSweep_cases cap queue trigger near.bound with
    ⟨-, same⟩ | ⟨qs, h, batch, k, owed, known, -, moved, result⟩
  · rw [same]
    exact near
  have walked := near_moves near (moved _)
  rcases result with ⟨-, result⟩ | ⟨-, result⟩
  · rw [result]
    exact near_setQueue walked known rfl
  · rw [result]
    have set : Near w q n
        ((st.setHall h).setQueue queue { qs with pending := none, inFlight := true }) :=
      near_setQueue walked known rfl
    refine ⟨set.sound, set.issued, set.enrolled, set.arrived, set.bound, ?_⟩
    change n ≤ (st.started ++ [queue]).count q
    rw [sweptTimes_append]
    exact near.since.trans (Nat.le_add_right _ _)

/-- A sweep of the queue started for the waiter, or a trigger kept for it. -/
theorem heard_startSweep_self {trigger : Trigger} (near : Near w q n st) :
    Heard w q n (st.startSweep cap q trigger) := by
  obtain ⟨gifts, passed, sound⟩ := near.sound
  rcases startSweep_cases cap q trigger near.bound with
    ⟨none, same⟩ | ⟨qs, h, batch, k, owed, known, collected, moved, result⟩
  · left
    rw [same]
    intro unfinished
    obtain ⟨-, before, found, -⟩ := near.enrolled unfinished
    rw [none] at found
    cases found
  have kept := (sound.moves (moved _)).2
  by_cases unfinished : (st.hall.slot w).ended = none
  · obtain ⟨registered, before, found, among⟩ := near.enrolled unfinished
    rw [known, Option.some.injEq] at found
    subst found
    have owes : batch ≠ [] ∨ owed = true ∨ (h.slot w).ended ≠ none ∨
        (st.hall.waiter w).waitEnd ≤ st.hall.now := by
      have all := collect_owes cap q st.hall.now registered qs.fifo st.hall [] 0 false sound
        near.arrived among
      rw [collected] at all
      exact all
    rcases result with ⟨nobody, result⟩ | ⟨-, result⟩
    · rw [result]
      rcases owes with some' | owes | ended | late
      · exact absurd nobody some'
      · right
        right
        right
        rw [pending_setQueue_self, owes, if_pos rfl]
        exact nofun
      · exact Or.inl ended
      · right
        left
        change (h.waiter w).waitEnd ≤ h.now
        rw [kept.waiter]
        exact late.trans kept.now
    · right
      right
      left
      rw [result]
      change n < (st.started ++ [q]).count q
      rw [sweptTimes_append, if_pos rfl]
      exact Nat.lt_succ_of_le near.since
  · have ended : (h.slot w).ended ≠ none := by
      rw [kept.ended w unfinished]
      exact unfinished
    rcases result with ⟨-, result⟩ | ⟨-, result⟩
    · rw [result]
      exact Or.inl ended
    · rw [result]
      exact Or.inl ended

theorem heard_startSweep {queue : Queue} {trigger : Trigger} (near : Near w q n st)
    (heard : Heard w q n st) : Heard w q n (st.startSweep cap queue trigger) := by
  by_cases here : q = queue
  · subst here
    exact heard_startSweep_self near
  rcases startSweep_cases cap queue trigger near.bound with
    ⟨-, same⟩ | ⟨qs, h, batch, k, owed, -, -, moved, result⟩
  · rw [same]
    exact heard
  have walked := heard_moves near (moved _) heard
  have set : ∀ qs, Heard w q n ((st.setHall h).setQueue queue qs) := fun qs =>
    heard_transfer walked rfl rfl fun kept => by rwa [pending_setQueue_of_ne here]
  rcases result with ⟨-, result⟩ | ⟨-, result⟩
  · rw [result]
    exact set _
  · rw [result]
    rcases set { qs with pending := none, inFlight := true } with ended | late | swept | kept
    · exact Or.inl ended
    · exact Or.inr (Or.inl late)
    · right
      right
      left
      change n < (st.started ++ [queue]).count q
      rw [sweptTimes_append]
      exact lt_of_lt_of_le swept (Nat.le_add_right _ _)
    · exact Or.inr (Or.inr (Or.inr kept))

/-! ## The rest of the waker -/

/-- The waiter stays near and the hint is heard. -/
def Follows (w : Nat) (q : Queue) (n : Nat) (st : Waker Job Err) : Prop :=
  Near w q n st ∧ Heard w q n st

theorem follows_startSweep {queue : Queue} {trigger : Trigger} (follows : Follows w q n st) :
    Follows w q n (st.startSweep cap queue trigger) :=
  ⟨near_startSweep follows.1, heard_startSweep follows.1 follows.2⟩

/-- A pending trigger that is taken and run. -/
theorem follows_taken {queue : Queue} {qs : QueueState} {trigger : Trigger}
    (follows : Follows w q n st) (known : st.queues queue = some qs) :
    Follows w q n ((st.setQueue queue { qs with pending := none }).startSweep cap queue
      trigger) := by
  have cleared : Near w q n (st.setQueue queue { qs with pending := none }) :=
    near_setQueue follows.1 known rfl
  by_cases here : q = queue
  · subst here
    exact ⟨near_startSweep cleared, heard_startSweep_self cleared⟩
  · refine follows_startSweep ⟨cleared, heard_transfer follows.2 rfl rfl fun kept => ?_⟩
    rwa [pending_setQueue_of_ne here]

theorem near_triggerLocked {queue : Queue} {trigger : Trigger} (near : Near w q n st) :
    Near w q n (st.triggerLocked cap queue trigger) := by
  unfold triggerLocked
  cases known : st.queues queue with
  | none => exact near
  | some qs =>
    dsimp only
    split_ifs
    · exact near_setQueue near known rfl
    · exact near_startSweep near

theorem heard_triggerLocked_self {trigger : Trigger} (near : Near w q n st) :
    Heard w q n (st.triggerLocked cap q trigger) := by
  unfold triggerLocked
  cases known : st.queues q with
  | none =>
    left
    intro unfinished
    obtain ⟨-, before, found, -⟩ := near.enrolled unfinished
    rw [known] at found
    cases found
  | some qs =>
    dsimp only
    split_ifs
    · right
      right
      right
      rw [pending_setQueue_self]
      cases qs.pending <;> exact nofun
    · exact heard_startSweep_self near

theorem follows_triggerLocked {queue : Queue} {trigger : Trigger} (follows : Follows w q n st) :
    Follows w q n (st.triggerLocked cap queue trigger) := by
  refine ⟨near_triggerLocked follows.1, ?_⟩
  by_cases here : q = queue
  · subst here
    exact heard_triggerLocked_self follows.1
  unfold triggerLocked
  cases known : st.queues queue with
  | none => exact follows.2
  | some qs =>
    dsimp only
    split_ifs
    · exact heard_transfer follows.2 rfl rfl fun kept => by rwa [pending_setQueue_of_ne here]
    · exact heard_startSweep follows.1 follows.2

theorem follows_foldl {α : Type} {f : Waker Job Err → α → Waker Job Err}
    (turn : ∀ {st a}, Follows w q n st → Follows w q n (f st a)) (items : List α)
    (follows : Follows w q n st) : Follows w q n (items.foldl f st) := by
  induction items generalizing st with
  | nil => exact follows
  | cons a rest ih => exact ih (turn follows)

theorem follows_runDeferred {queue : Queue} (follows : Follows w q n st) :
    Follows w q n (st.runDeferred cap queue) := by
  unfold runDeferred
  split
  · rename_i fifo t known
    exact follows_taken follows known
  · exact follows

theorem follows_forget {queue : Queue} {qs : QueueState} (follows : Follows w q n st)
    (known : st.queues queue = some qs) (empty : qs.fifo = []) :
    Follows w q n { st with queues := Function.update st.queues queue none } := by
  obtain ⟨near, heard⟩ := follows
  by_cases unfinished : (st.hall.slot w).ended = none
  · obtain ⟨registered, before, found, among⟩ := near.enrolled unfinished
    have differ : q ≠ queue := by
      rintro rfl
      rw [known, Option.some.injEq] at found
      rw [← found, empty] at among
      cases among
    refine ⟨⟨near.sound, near.issued, fun _ => ⟨registered, before, ?_, among⟩, near.arrived,
      near.bound, near.since⟩, ?_⟩
    · exact (Function.update_of_ne differ ..).trans found
    · refine heard_transfer heard rfl rfl fun kept => ?_
      unfold pending at kept ⊢
      dsimp only
      rwa [Function.update_of_ne differ]
  · exact ⟨⟨near.sound, near.issued, fun wrong => absurd wrong unfinished, near.arrived,
      near.bound, near.since⟩, Or.inl unfinished⟩

theorem follows_followUp {queue : Queue} {nextArrivals freed : List Queue}
    (follows : Follows w q n st) :
    Follows w q n (st.followUp cap queue nextArrivals freed) := by
  unfold followUp
  extract_lets first second third
  have one : Follows w q n first := by
    unfold first
    split
    · rename_i fifo inFlight t known
      exact follows_taken follows known
    · exact follows
  have two : Follows w q n second := follows_foldl follows_triggerLocked _ one
  have three : Follows w q n third := follows_foldl follows_runDeferred _ two
  split
  · rename_i pending known
    exact follows_forget three known rfl
  · exact three

/-! ## Completing a sweep -/

theorem near_land {queue : Queue} {f : Option Trigger → Option Trigger} (near : Near w q n st) :
    Near w q n (st.land queue f) := by
  unfold land
  cases known : st.queues queue with
  | none => exact near
  | some qs => exact near_setQueue near known rfl

theorem heard_land {queue : Queue} {f : Option Trigger → Option Trigger}
    (heard : Heard w q n st) (kept : q = queue → ∀ p, p ≠ none → f p ≠ none) :
    Heard w q n (st.land queue f) := by
  unfold land
  cases known : st.queues queue with
  | none => exact heard
  | some qs =>
    refine heard_transfer heard rfl rfl fun waits => ?_
    by_cases here : q = queue
    · subst here
      rw [pending_setQueue_self]
      unfold pending at waits
      rw [known] at waits
      exact kept rfl _ waits
    · rwa [pending_setQueue_of_ne here]

theorem land_hall {queue : Queue} {f : Option Trigger → Option Trigger} :
    (st.land queue f).hall = st.hall ∧ (st.land queue f).started = st.started := by
  unfold land
  cases st.queues queue <;> exact ⟨rfl, rfl⟩

/-- Neither the handlers nor an offer change the flag. -/
theorem lock_busy (h : Hall Job Err) (id : Nat) : (h.lock.slot id).busy = (h.slot id).busy := by
  have nudged : ∀ (h : Hall Job Err) (n : Nudge), ((h.nudge n).slot id).busy = (h.slot id).busy := by
    intro h n
    cases n with
    | advance by' => rfl
    | look other cancelled live draining =>
      rw [Hall.nudge]
      have update : ∀ s : Slot Job Err, s.busy = (h.slot other).busy →
          (Function.update h.slot other s id).busy = (h.slot id).busy := by
        intro s same
        by_cases here : id = other
        · subst here
          rw [Function.update_self, same]
        · rw [Function.update_of_ne here]
      rcases look_cases h other cancelled live draining with
        same | ⟨_, _, _, _, result⟩ | ⟨_, _, _, _, _, _, _, result⟩
      · rw [same]
      · rw [result]
        exact update _ rfl
      · rw [result]
        exact update _ rfl
  unfold Hall.lock
  cases h.bursts with
  | nil => rfl
  | cons burst later =>
    have folded : ∀ (nudges : List Nudge) (k : Hall Job Err),
        ((nudges.foldl Hall.nudge k).slot id).busy = (k.slot id).busy := by
      intro nudges
      induction nudges with
      | nil => exact fun k => rfl
      | cons n rest ih => exact fun k => (ih _).trans (nudged k n)
    exact folded burst _

theorem offer_busy (h : Hall Job Err) (id other : Nat) (o : Offer Job Err) :
    ((h.offer id o).slot other).busy = (h.slot other).busy := by
  by_cases unfinished : (h.slot id).ended = none
  · rw [offer_of_unfinished unfinished]
    by_cases here : other = id
    · subst here
      rw [setSlot_slot_self]
    · rw [setSlot_slot_of_ne h _ here]
  · rw [offer_of_ended unfinished]

theorem offer_ends (h : Hall Job Err) (id : Nat) (o : Offer Job Err) :
    ((h.offer id o).slot id).ended ≠ none := by
  by_cases unfinished : (h.slot id).ended = none
  · rw [offer_of_unfinished unfinished, setSlot_slot_self]
    exact nofun
  · rw [offer_of_ended unfinished]
    exact unfinished

/-- A loop that ends the waiter at its turn. -/
theorem foldl_ends {N : Nat} {f : Hall Job Err → Nat → Hall Job Err} {P : Hall Job Err → Prop}
    {gifts passed : List (Nat × List Job)} {ids : List Nat}
    (turn : ∀ k id, id ∈ ids → Moves N k [] (f k id))
    (ends : ∀ k, P k → ((f k w).slot w).ended ≠ none)
    (keeps : ∀ k id, id ≠ w → P k → P (f k id)) (among : w ∈ ids) (h : Hall Job Err)
    (sound : Sound N h gifts passed) (holds : P h) :
    ((ids.foldl f h).slot w).ended ≠ none := by
  induction ids generalizing h with
  | nil => cases among
  | cons id rest ih =>
    have first := sound.moves (turn h id List.mem_cons_self)
    rw [List.append_nil] at first
    have turns : ∀ k other, other ∈ rest → Moves N k [] (f k other) := fun k other listed =>
      turn k other (List.mem_cons_of_mem _ listed)
    rw [List.foldl_cons]
    by_cases here : id = w
    · subst here
      have ended := ends h holds
      rw [(first.1.moves (moves_foldl turns _)).2.ended id ended]
      exact ended
    · exact ih turns ((List.mem_cons.mp among).resolve_left (Ne.symm here)) _ first.1
        (keeps h id here holds)

/-- A failed sweep ends the waiters of its batch and the idle ones of its queue. -/
theorem dismiss_ends {sweep : Sweep} {error : Err} {gifts passed : List (Nat × List Job)}
    (sound : Sound st.nextId st.hall gifts passed)
    (batch : ∀ id ∈ sweep.batch, Issued st.nextId id)
    (fifo : ∀ qs, st.queues sweep.queue = some qs → ∀ id ∈ qs.fifo, Issued st.nextId id)
    (registered : st.registered w = true)
    (listed : ∃ qs, st.queues sweep.queue = some qs ∧ w ∈ qs.fifo)
    (served : (st.hall.slot w).busy = true → w ∈ sweep.batch) :
    ((st.dismiss sweep error).slot w).ended ≠ none := by
  obtain ⟨qs, known, among⟩ := listed
  have failing : ∀ (k : Hall Job Err) id, id ∈ sweep.batch →
      Moves st.nextId k [] (failOne error k id) :=
    fun k id inBatch => moves_failOne (batch id inBatch) k
  have dismissing : ∀ (k : Hall Job Err) id, id ∈ qs.fifo →
      Moves st.nextId k [] (dismissOne st.registered k id) :=
    fun k id inFifo => moves_dismissOne (fifo qs known id inFifo) k
  have failed := sound.moves (moves_foldl failing st.hall)
  rw [List.append_nil] at failed
  unfold dismiss
  rw [known]
  dsimp only
  by_cases inBatch : w ∈ sweep.batch
  · have ended : ((sweep.batch.foldl (failOne error) st.hall).slot w).ended ≠ none :=
      foldl_ends (P := fun _ => True) failing (fun k _ => offer_ends _ _ _) (fun _ _ _ _ => trivial)
        inBatch st.hall sound trivial
    rw [(failed.1.moves (moves_foldl dismissing _)).2.ended w ended]
    exact ended
  · have idle : (st.hall.slot w).busy = false :=
      Bool.eq_false_iff.mpr fun busy => inBatch (served busy)
    have still : ∀ (ids : List Nat) (k : Hall Job Err), w ∉ ids → (k.slot w).busy = false →
        ((ids.foldl (failOne error) k).slot w).busy = false := by
      intro ids
      induction ids with
      | nil => exact fun k _ quiet => quiet
      | cons id rest ih =>
        intro k absent quiet
        rw [List.mem_cons, not_or] at absent
        refine ih _ absent.2 ?_
        unfold failOne
        rw [offer_busy, setSlot_slot_of_ne _ _ absent.1, lock_busy]
        exact quiet
    refine foldl_ends (P := fun k => (k.slot w).busy = false) dismissing ?_ ?_ among _ failed.1
      (still sweep.batch st.hall inBatch idle)
    · intro k quiet
      unfold dismissOne
      dsimp only
      rw [if_pos registered, if_neg (by rw [lock_busy, quiet]; exact Bool.false_ne_true)]
      exact offer_ends _ _ _
    · intro k id _ quiet
      unfold dismissOne
      dsimp only
      split_ifs
      · rw [lock_busy]
        exact quiet
      · rw [offer_busy, lock_busy]
        exact quiet
      · exact quiet

/-- The record of a sweep and its unreserve statement. -/
theorem follows_record {jobs : List Job} {cause : UnreserveCause} {c : Completion Job Err}
    (follows : Follows w q n st) :
    Follows w q n { st.unreserve jobs cause with
      completed := (st.unreserve jobs cause).completed ++ [c] } := by
  obtain ⟨near, heard⟩ := follows
  obtain ⟨sent, result, -⟩ := unreserve_eq st jobs cause
  rw [result]
  exact ⟨⟨near.sound, near.issued, near.enrolled, near.arrived, near.bound, near.since⟩, heard⟩

/-- No sweep of the queue fails with a trigger pending while the waiter is busy in another one. -/
def Spared (w : Nat) (q : Queue) (st : Waker Job Err)
    (label : List (List Nudge) × Event Job Err) : Prop :=
  ∀ sweep read reserved error, label.2 = .complete sweep read (.failed reserved error) →
    sweep.queue = q → pending st q ≠ none → (st.hall.slot w).busy = true → w ∈ sweep.batch

theorem follows_complete {sweep : Sweep} {read : Nat} {outcome : SweepOutcome Job Err}
    (settled : Settled st) (running : sweep ∈ st.sweeps) (follows : Follows w q n st)
    (spared : ∀ reserved error, outcome = .failed reserved error → sweep.queue = q →
      pending st q ≠ none → (st.hall.slot w).busy = true → w ∈ sweep.batch) :
    Follows w q n (st.complete cap sweep read outcome) := by
  have fifo := settled.orderly.fifo sweep.queue
  have batch := settled.orderly.batch sweep running
  have near : Near w q n { st with sweeps := st.sweeps.filter (· ≠ sweep) } :=
    ⟨follows.1.sound, follows.1.issued, follows.1.enrolled, follows.1.arrived, follows.1.bound,
      follows.1.since⟩
  have heard : Heard w q n { st with sweeps := st.sweeps.filter (· ≠ sweep) } := follows.2
  unfold Waker.complete
  cases outcome with
  | answered jobs =>
    dsimp only
    have handed := serves_handOut { st with sweeps := st.sweeps.filter (· ≠ sweep) } sweep jobs
      read settled.orderly.clamps batch fifo
    generalize handOut { st with sweeps := st.sweeps.filter (· ≠ sweep) } sweep jobs read = r
      at handed ⊢
    have landed : Follows w q n
        ((({ st with sweeps := st.sweeps.filter (· ≠ sweep) } : Waker Job Err).setHall
          r.hall).land sweep.queue fun pending =>
            if decide (sweep.k ≤ jobs.length) then pending <|> some .refill else pending) := by
      refine ⟨near_land (near_moves near handed.1), heard_land (heard_moves near handed.1 heard) ?_⟩
      intro _ waits some'
      split_ifs
      · cases waits with
        | none => exact absurd rfl some'
        | some t => exact some'
      · exact some'
    exact follows_record (follows_followUp landed)
  | failed reserved error =>
    dsimp only
    have moved := moves_dismiss { st with sweeps := st.sweeps.filter (· ≠ sweep) } sweep error
      batch fifo
    have landed : Follows w q n
        ((({ st with sweeps := st.sweeps.filter (· ≠ sweep) } : Waker Job Err).setHall
          (dismiss { st with sweeps := st.sweeps.filter (· ≠ sweep) } sweep error)).land
            sweep.queue fun _ => none) := by
      refine ⟨near_land (near_moves near moved), ?_⟩
      have walked := heard_moves near moved heard
      by_cases here : sweep.queue = q
      · unfold Heard sweptTimes
        rw [land_hall.1, land_hall.2]
        rcases walked with ended | late | swept | waits
        · exact Or.inl ended
        · exact Or.inr (Or.inl late)
        · exact Or.inr (Or.inr (Or.inl swept))
        · left
          obtain ⟨gifts, passed, sound⟩ := near.sound
          by_cases unfinished : (st.hall.slot w).ended = none
          · obtain ⟨registered, listed⟩ := near.enrolled unfinished
            rw [← here] at listed
            exact dismiss_ends sound batch fifo registered listed
              (spared reserved error rfl here waits)
          · have kept := (sound.moves moved).2.ended w unfinished
            intro none
            exact unfinished (kept.symm.trans none)
      · exact heard_land walked fun same => absurd same.symm here
    have followed : Follows w q n (followUp cap _ sweep.queue [] []) := follows_followUp landed
    obtain ⟨near', heard'⟩ := followed
    exact ⟨⟨near'.sound, near'.issued, near'.enrolled, near'.arrived, near'.bound, near'.since⟩,
      heard'⟩

/-! ## The other events -/

theorem follows_pollAll {now : Nat} {order : List Queue} (follows : Follows w q n st) :
    Follows w q n (st.pollAll cap now order) := by
  have walk : ∀ (order : List Queue) (r : Waker Job Err × List Queue), Follows w q n r.1 →
      Follows w q n (order.foldl (pollOne now) r).1 := by
    intro order
    induction order with
    | nil => exact fun r follows => follows
    | cons queue rest ih =>
      intro r follows
      refine ih _ ?_
      unfold pollOne
      split
      · rename_i fifo _ _
        have moved : Moves r.1.nextId r.1.hall []
            (anyEligible r.1.registered queue now fifo r.1.hall).1 := moves_anyEligible fifo _
        exact ⟨near_moves follows.1 moved, heard_moves follows.1 moved follows.2⟩
      · exact follows
  exact follows_foldl follows_startSweep _ (walk order (st, []) follows)

theorem follows_register {queues : List Queue} {clamp waitEnd hardEnd : Nat}
    (settled : Settled st) (follows : Follows w q n st) :
    Follows w q n (st.register cap queues clamp waitEnd hardEnd) := by
  obtain ⟨near, heard⟩ := follows
  have older : w ≠ st.nextId := near.issued.2.ne
  have entered : ∀ ordered, Follows w q n (entering st ordered clamp waitEnd hardEnd) := by
    intro ordered
    have slot : (entering st ordered clamp waitEnd hardEnd).hall.slot w = st.hall.slot w :=
      Function.update_of_ne older ..
    have waiter : (entering st ordered clamp waitEnd hardEnd).hall.waiter w = st.hall.waiter w :=
      Function.update_of_ne older ..
    constructor
    · constructor
      · exact ⟨_, _, settled.entering.sound⟩
      · exact issued_succ near.issued
      · rw [slot]
        intro unfinished
        obtain ⟨registered, before, found, among⟩ := near.enrolled unfinished
        refine ⟨(Function.update_of_ne older ..).trans registered, ?_⟩
        unfold entering
        dsimp only
        rw [found]
        split_ifs
        · exact ⟨_, rfl, List.mem_append_left _ among⟩
        · exact ⟨before, rfl, among⟩
      · rw [slot, waiter]
        exact near.arrived
      · exact near.bound
      · exact near.since
    · unfold Heard
      rw [slot, waiter]
      refine heard.imp_right (Or.imp_right (Or.imp_right fun kept => ?_))
      unfold pending entering at *
      dsimp only
      cases known : st.queues q with
      | none =>
        rw [known] at kept
        exact absurd rfl kept
      | some qs =>
        rw [known] at kept
        split_ifs
        · exact kept
        · exact kept
  unfold Waker.register
  dsimp only
  cases known : queues.eraseDups with
  | nil => exact entered []
  | cons first rest => exact follows_triggerLocked (entered (first :: rest))

theorem follows_leaving {id : Nat} {outcome : WaitOutcome Job Err} (settled : Settled st)
    (back : st.hall.handler id = .returned outcome) (follows : Follows w q n st) :
    Follows w q n ((st.deregister id).setHall
      { (st.deregister id).hall with
        handler := Function.update (st.deregister id).hall.handler id (.leaving outcome) }) := by
  obtain ⟨near, heard⟩ := follows
  have sound := (settled.leaving back).sound
  by_cases unfinished : (st.hall.slot w).ended = none
  · have differ : w ≠ id := by
      rintro rfl
      refine ((settled.sound w).away near.issued ?_).1 unfinished
      rw [back]
      exact fun _ => nofun
    obtain ⟨registered, before, found, among⟩ := near.enrolled unfinished
    have kept : ∃ qs, (st.deregister id).queues q = some qs ∧ w ∈ qs.fifo ∧
        qs.pending = before.pending := by
      unfold deregister
      dsimp only
      rw [found]
      dsimp only [Option.bind_some]
      have retained : ∀ qs : QueueState, w ∈ qs.fifo →
          (if qs.fifo ≠ [] ∨ qs.inFlight = true then some qs else none) = some qs :=
        fun qs listed => if_pos (Or.inl (List.ne_nil_of_mem listed))
      by_cases leaves : st.registered id = true ∧ q ∈ (st.hall.waiter id).queues
      · rw [if_pos leaves]
        have stays : w ∈ before.fifo.filter (· ≠ id) :=
          List.mem_filter.mpr ⟨among, decide_eq_true differ⟩
        exact ⟨_, retained _ stays, stays, rfl⟩
      · rw [if_neg leaves]
        exact ⟨before, retained before among, among, rfl⟩
    obtain ⟨qs, result, listed, same⟩ := kept
    constructor
    · refine ⟨⟨_, _, sound⟩, near.issued, fun _ => ⟨?_, qs, result, listed⟩, near.arrived,
        near.bound, near.since⟩
      exact (Function.update_of_ne differ ..).trans registered
    · refine heard.imp_right (Or.imp_right (Or.imp_right fun waits => ?_))
      change pending (st.deregister id) q ≠ none
      unfold pending at waits ⊢
      rw [found] at waits
      rw [result]
      dsimp only
      rw [same]
      exact waits
  · exact ⟨⟨⟨_, _, sound⟩, near.issued, fun wrong => absurd wrong unfinished, near.arrived,
      near.bound, near.since⟩, Or.inl unfinished⟩

theorem follows_answer {id : Nat} {outcome : WaitOutcome Job Err} {live : Bool}
    (settled : Settled st) (left : st.hall.handler id = .leaving outcome)
    (follows : Follows w q n st) :
    Follows w q n ((st.setHall
      { st.hall with handler := Function.update st.hall.handler id .gone }).answer id live
        outcome) := by
  obtain ⟨near, heard⟩ := follows
  have sound := (settled.answer live left).sound
  have plain : ∀ done : Waker Job Err, done.nextId = st.nextId → done.registered = st.registered →
      done.queues = st.queues → done.bound = st.bound → done.started = st.started →
      done.hall = { st.hall with handler := Function.update st.hall.handler id .gone } →
      (∃ gifts passed, Sound done.nextId done.hall gifts passed) → Follows w q n done := by
    intro done nextId registered queues bound started hall sound
    refine ⟨⟨sound, ?_, ?_, ?_, ?_, ?_⟩, ?_⟩
    · rw [nextId]
      exact near.issued
    · rw [hall, registered, queues]
      exact near.enrolled
    · rw [hall]
      exact near.arrived
    · rw [bound]
      exact near.bound
    · unfold sweptTimes
      rw [started]
      exact near.since
    · unfold Heard sweptTimes pending
      rw [hall, started, queues]
      exact heard
  cases outcome with
  | expired | cancelled | teardown | drained => exact plain _ rfl rfl rfl rfl rfl rfl ⟨_, _, sound⟩
  | offer o =>
    cases o with
    | failed | empty => exact plain _ rfl rfl rfl rfl rfl rfl ⟨_, _, sound⟩
    | jobs mine =>
      unfold Waker.answer at sound ⊢
      dsimp only at sound ⊢
      split_ifs at sound ⊢
      · exact plain _ rfl rfl rfl rfl rfl rfl ⟨_, _, sound⟩
      · obtain ⟨sent, result, -⟩ := unreserve_eq (st.setHall
          { st.hall with handler := Function.update st.hall.handler id .gone }) mine .teardown
        rw [result] at sound ⊢
        exact plain _ rfl rfl rfl rfl rfl rfl ⟨_, _, sound⟩

theorem follows_step {before after : Waker Job Err} {label : List (List Nudge) × Event Job Err}
    (settled : Settled before) (spared : Spared w q before label) (follows : Follows w q n before)
    (taken : step cap before label = some after) : Follows w q n after := by
  obtain ⟨bursts, event⟩ := label
  have moved : ∀ N, Moves N before.hall [] { before.hall with bursts := bursts } :=
    fun N => .bursts bursts .stay
  have ready := settled.quiet (quiet_setHall moved)
  have along : Follows w q n (before.setHall { before.hall with bursts := bursts }) :=
    ⟨near_moves follows.1 (moved _), heard_moves follows.1 (moved _) follows.2⟩
  have allowed : Spared w q (before.setHall { before.hall with bursts := bursts })
    (bursts, event) := spared
  unfold Waker.step at taken
  dsimp only at taken
  generalize before.setHall { before.hall with bursts := bursts } = st at ready along allowed taken
  cases event with
  | bind =>
    cases taken
    obtain ⟨near, heard⟩ := along
    exact ⟨⟨near.sound, near.issued, near.enrolled, near.arrived, rfl, near.since⟩, heard⟩
  | register queues clamp waitEnd hardEnd =>
    dsimp only at taken
    split_ifs at taken
    cases taken
    exact follows_register ready along
  | hint queue =>
    cases taken
    exact follows_triggerLocked along
  | poll read order =>
    dsimp only at taken
    split_ifs at taken
    cases taken
    exact follows_pollAll along
  | complete sweep read outcome =>
    dsimp only at taken
    split_ifs at taken with running
    cases taken
    refine follows_complete ready running.2 along fun reserved error failed => ?_
    exact allowed sweep read reserved error (by rw [failed])
  | nudge nudge =>
    cases taken
    have nudged : Moves st.nextId st.hall [] (st.hall.nudge nudge) := .nudge nudge .stay
    exact ⟨near_moves along.1 nudged, heard_moves along.1 nudged along.2⟩
  | deregister id =>
    dsimp only at taken
    cases place : st.hall.handler id with
    | returned outcome =>
      rw [place] at taken
      cases taken
      exact follows_leaving ready place along
    | waiting | leaving | gone =>
      rw [place] at taken
      cases taken
  | handOff id live =>
    dsimp only at taken
    cases place : st.hall.handler id with
    | leaving outcome =>
      rw [place] at taken
      cases taken
      exact follows_answer ready place along
    | waiting | returned | gone =>
      rw [place] at taken
      cases taken

/-! ## Runs -/

/-- Waiters register with a waker that is bound. -/
def Ready (st : Waker Job Err) : Prop :=
  st.nextId = 1 ∨ st.bound = true

theorem ready_quiet (quiet : Quiet st st') (ready : Ready st) : Ready st' := by
  unfold Ready at ready ⊢
  rw [quiet.nextId, quiet.bound]
  exact ready

theorem ready_record {jobs : List Job} {cause : UnreserveCause} {c : Completion Job Err}
    (ready : Ready st) : Ready { st.unreserve jobs cause with
      completed := (st.unreserve jobs cause).completed ++ [c] } := by
  obtain ⟨sent, result, -⟩ := unreserve_eq st jobs cause
  rw [result]
  exact ready

theorem ready_complete {sweep : Sweep} {read : Nat} {outcome : SweepOutcome Job Err}
    (settled : Settled st) (running : sweep ∈ st.sweeps) (ready : Ready st) :
    Ready (st.complete cap sweep read outcome) := by
  have landed : ∀ h pending nextArrivals freed, h.waiter = st.hall.waiter →
      Ready (followUp cap (landing st sweep h pending) sweep.queue nextArrivals freed) := by
    intro h pending nextArrivals freed same
    have order := orderly_landing settled.orderly running same pending
    apply ready_quiet (quiet_followUp order.2)
    obtain ⟨qs, -, shape⟩ := landing_eq settled.orderly running h pending
    rw [shape]
    exact ready
  have fifo := settled.orderly.fifo sweep.queue
  have batch := settled.orderly.batch sweep running
  unfold Waker.complete
  cases outcome with
  | answered jobs =>
    dsimp only
    have handed := serves_handOut { st with sweeps := st.sweeps.filter (· ≠ sweep) } sweep jobs
      read settled.orderly.clamps batch fifo
    exact ready_record (landed _ _ _ _ (moves_waiter handed.1))
  | failed reserved error =>
    have moved := moves_dismiss { st with sweeps := st.sweeps.filter (· ≠ sweep) } sweep error
      batch fifo
    exact landed _ (fun _ => none) [] [] (moves_waiter moved)

theorem ready_step {before after : Waker Job Err} {label : List (List Nudge) × Event Job Err}
    (settled : Settled before) (ready : Ready before)
    (taken : step cap before label = some after) : Ready after := by
  obtain ⟨bursts, event⟩ := label
  have moved : ∀ N, Moves N before.hall [] { before.hall with bursts := bursts } :=
    fun N => .bursts bursts .stay
  have settled' := settled.quiet (quiet_setHall moved)
  have ready' := ready_quiet (quiet_setHall moved) ready
  unfold Waker.step at taken
  dsimp only at taken
  generalize before.setHall { before.hall with bursts := bursts } = st at settled' ready' taken
  cases event with
  | bind =>
    cases taken
    exact Or.inr rfl
  | register queues clamp waitEnd hardEnd =>
    dsimp only at taken
    split_ifs at taken with bound
    cases taken
    right
    unfold Waker.register
    dsimp only
    split
    · exact bound
    · exact (quiet_triggerLocked.bound).trans bound
  | hint queue =>
    cases taken
    exact ready_quiet quiet_triggerLocked ready'
  | poll read order =>
    dsimp only at taken
    split_ifs at taken with allowed
    cases taken
    exact ready_quiet (quiet_pollAll allowed.2.1) ready'
  | complete sweep read outcome =>
    dsimp only at taken
    split_ifs at taken with allowed
    cases taken
    exact ready_complete settled' allowed.2 ready'
  | nudge nudge =>
    cases taken
    exact ready'
  | deregister id =>
    dsimp only at taken
    cases place : st.hall.handler id with
    | returned outcome =>
      rw [place] at taken
      cases taken
      exact ready'
    | waiting | leaving | gone =>
      rw [place] at taken
      cases taken
  | handOff id live =>
    dsimp only at taken
    cases place : st.hall.handler id with
    | leaving outcome =>
      rw [place] at taken
      cases taken
      unfold answer unreserve
      split
      · split_ifs
        · exact ready'
        · exact ready'
        · exact ready'
      · exact ready'
      · exact ready'
      · exact ready'
      · exact ready'
      · exact ready'
      · exact ready'
    | waiting | returned | gone =>
      rw [place] at taken
      cases taken

theorem ready_run {labels : List (List (List Nudge) × Event Job Err)}
    (reached : run cap init labels = some st) : Settled st ∧ Ready st := by
  have keep : ∀ {s t : Waker Job Err} {label : List (List Nudge) × Event Job Err},
      Settled s ∧ Ready s → step cap s label = some t → Settled t ∧ Ready t :=
    fun both taken => ⟨both.1.step taken, ready_step both.1 both.2 taken⟩
  exact LabelledRuns.run_always (step cap) keep ⟨settled_init, Or.inl rfl⟩ reached

/-- After a hint for a queue on which the waiter is parked: as long as the waiter is unfinished,
inside its wait and spared, it is busy, or the queue was swept since, is being swept or has a
trigger pending. -/
theorem hint_followed {before : List (List (List Nudge) × Event Job Err)}
    {later : List (List (List Nudge) × Event Job Err)} {bursts : List (List Nudge)}
    {hinted after : Waker Job Err} (reached : run cap init before = some st)
    (parked : Parked st w q) (taken : step cap st (bursts, .hint q) = some hinted)
    (spared : LabelledRuns.Meets (step cap) (Spared w q) hinted later)
    (continued : run cap hinted later = some after)
    (unfinished : (after.hall.slot w).ended = none)
    (inside : after.hall.now < (after.hall.waiter w).waitEnd) :
    (after.hall.slot w).busy = true ∨ sweptTimes st q < sweptTimes after q ∨
      flying after q = true ∨ pending after q ≠ none := by
  obtain ⟨settled, ready⟩ := ready_run reached
  obtain ⟨qs, known, among⟩ := parked.listed
  have issued := settled.orderly.fifo q qs known w among
  have bound : st.bound = true := by
    rcases ready with first | bound
    · have low := issued.2
      have high := issued.1
      omega
    · exact bound
  have near : Near w q (sweptTimes st q) st :=
    ⟨⟨_, _, settled.sound⟩, issued, fun _ => ⟨parked.registered, parked.listed⟩, parked.arrived,
      bound, le_rfl⟩
  have start : Settled hinted ∧ Follows w q (sweptTimes st q) hinted := by
    refine ⟨settled.step taken, ?_⟩
    unfold step at taken
    cases taken
    have moved := near_moves near (.bursts bursts .stay)
    exact ⟨near_triggerLocked moved, heard_triggerLocked_self moved⟩
  have keep : ∀ {s t : Waker Job Err} {label : List (List Nudge) × Event Job Err},
      Settled s ∧ Follows w q (sweptTimes st q) s → Spared w q s label →
      step cap s label = some t → Settled t ∧ Follows w q (sweptTimes st q) t :=
    fun both spared taken => ⟨both.1.step taken, follows_step both.1 spared both.2 taken⟩
  have final := LabelledRuns.run_invariant (step cap) keep start spared continued
  rcases final.2.2 with ended | late | swept | kept
  · exact absurd unfinished ended
  · exact absurd inside (Nat.not_lt.mpr late)
  · exact Or.inr (Or.inl swept)
  · exact Or.inr (Or.inr (Or.inr kept))

def high : Queue := "high".toList

def low : Queue := "low".toList

/-- A waiter on both queues parks; then one of them is swept for it while the other is swept for
a second waiter. -/
def twoQueues : List (List (List Nudge) × Event Nat Unit) :=
  [([], .bind),
    ([], .register [high, low] 1 100 110),
    ([], .complete { number := 0, queue := high, batch := [1], k := 1 } 0 (.answered [])),
    ([], .complete { number := 1, queue := low, batch := [1], k := 1 } 0 (.answered [])),
    ([], .hint low),
    ([], .register [high] 1 100 110)]

/-- The first waiter's sweep finds nothing. -/
def freed : List (List (List Nudge) × Event Nat Unit) :=
  [([], .complete { number := 2, queue := low, batch := [1], k := 1 } 0 (.answered []))]

/-- The second waiter's sweep fails before that. -/
def failedFirst : List (List (List Nudge) × Event Nat Unit) :=
  ([], .complete { number := 3, queue := high, batch := [2], k := 1 } 0 (.failed [] ())) :: freed

theorem hint_followed_on_sample :
    ∃ st hinted after : Waker Nat Unit, run 100 init twoQueues = some st ∧ Parked st 1 high ∧
      (st.hall.slot 1).busy = true ∧ step 100 st ([], .hint high) = some hinted ∧
      run 100 hinted freed = some after ∧
      ((after.hall.slot 1).busy = true ∨ sweptTimes st high < sweptTimes after high ∨
        flying after high = true ∨ pending after high ≠ none) := by
  have reached : run 100 init twoQueues = some ((run 100 init twoQueues).get rfl) := rfl
  have parked : Parked ((run 100 init twoQueues).get rfl) 1 high :=
    ⟨⟨_, rfl, by decide⟩, rfl, rfl, by decide, by decide⟩
  have taken : step 100 ((run 100 init twoQueues).get rfl) ([], .hint high) =
      some ((step 100 ((run 100 init twoQueues).get rfl) ([], .hint high)).get rfl) := rfl
  have continued : run 100 ((step 100 ((run 100 init twoQueues).get rfl) ([], .hint high)).get rfl)
      freed = some ((run 100 ((step 100 ((run 100 init twoQueues).get rfl)
        ([], .hint high)).get rfl) freed).get rfl) := rfl
  have spared : LabelledRuns.Meets (step 100) (Spared 1 high)
      ((step 100 ((run 100 init twoQueues).get rfl) ([], .hint high)).get rfl) freed := by
    refine ⟨?_, fun t _ => trivial⟩
    intro sweep read reserved error failed
    cases failed
  exact ⟨_, _, _, reached, parked, rfl, taken, continued,
    hint_followed reached parked taken spared continued rfl (by decide)⟩

/-- The failure forgets the pending hint, and the busy waiter is not told: once its own sweep is
over it idles on a queue that nobody will sweep for it. -/
theorem failedSweep_forgets_hint :
    ∃ st hinted after : Waker Nat Unit, run 100 init twoQueues = some st ∧ Parked st 1 high ∧
      step 100 st ([], .hint high) = some hinted ∧ run 100 hinted failedFirst = some after ∧
      (after.hall.slot 1).ended = none ∧ after.hall.now < (after.hall.waiter 1).waitEnd ∧
      (after.hall.slot 1).busy = false ∧ sweptTimes after high = sweptTimes st high ∧
      flying after high = false ∧ pending after high = none := by
  have reached : run 100 init twoQueues = some ((run 100 init twoQueues).get rfl) := rfl
  have parked : Parked ((run 100 init twoQueues).get rfl) 1 high :=
    ⟨⟨_, rfl, by decide⟩, rfl, rfl, by decide, by decide⟩
  exact ⟨_, _, _, reached, parked, rfl, rfl, rfl, by decide, rfl, rfl, rfl, rfl⟩

end FerroEngine.QueueHints
