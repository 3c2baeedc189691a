import Mathlib.Algebra.Ring.Nat
import FerroEngine.QueueWakerSlots

set_option autoImplicit false

/-! # Deliver or unreserve

Along every run of the waker a waiter is finished once, one sweep of a queue is in flight, and the
jobs that a sweep reports go to offers and to the unreserve statement.
-/

namespace FerroEngine.QueueDelivery

open QueueWaker QueueWaker.Waker QueueWakerSlots

variable {Job Err : Type} {cap : Nat} {st st' : Waker Job Err}

/-! ## Queues and sweeps -/

def flying (st : Waker Job Err) (queue : Queue) : Bool :=
  match st.queues queue with
  | some qs => qs.inFlight
  | none => false

/-- Waiters on a queue or in a batch are registered ones, and a queue has a sweep in flight
exactly when it says so. -/
structure Orderly (st : Waker Job Err) : Prop where
  counted : 0 < st.nextId
  fifo : ∀ q qs, st.queues q = some qs → ∀ id ∈ qs.fifo, Issued st.nextId id
  batch : ∀ sweep ∈ st.sweeps, ∀ id ∈ sweep.batch, Issued st.nextId id
  flight : ∀ q, (st.sweeps.filter (·.queue = q)).length = if flying st q then 1 else 0
  clamps : ∀ id, 0 < (st.hall.waiter id).clamp

/-- What a part of the waker that hands out nothing leaves as it was. -/
structure Quiet (st st' : Waker Job Err) : Prop where
  nextId : st'.nextId = st.nextId
  registered : st'.registered = st.registered
  bound : st'.bound = st.bound
  completed : st'.completed = st.completed
  unreserved : st'.unreserved = st.unreserved
  delivered : st'.delivered = st.delivered
  handedBack : st'.handedBack = st.handedBack
  hall : ∀ N, Moves N st.hall [] st'.hall
  orderly : Orderly st → Orderly st'

theorem Quiet.refl (st : Waker Job Err) : Quiet st st :=
  ⟨rfl, rfl, rfl, rfl, rfl, rfl, rfl, fun _ => .stay, id⟩

theorem Quiet.trans {st'' : Waker Job Err} (first : Quiet st st') (second : Quiet st' st'') :
    Quiet st st'' where
  nextId := second.nextId.trans first.nextId
  registered := second.registered.trans first.registered
  bound := second.bound.trans first.bound
  completed := second.completed.trans first.completed
  unreserved := second.unreserved.trans first.unreserved
  delivered := second.delivered.trans first.delivered
  handedBack := second.handedBack.trans first.handedBack
  hall N := (first.hall N).then' (second.hall N)
  orderly start := second.orderly (first.orderly start)

theorem quiet_foldl {α : Type} {f : Waker Job Err → α → Waker Job Err}
    (turn : ∀ st a, Quiet st (f st a)) (items : List α) (st : Waker Job Err) :
    Quiet st (items.foldl f st) := by
  induction items generalizing st with
  | nil => exact Quiet.refl st
  | cons a rest ih => exact (turn st a).trans (ih _)

theorem flying_setQueue_self {queue : Queue} {qs : QueueState} :
    flying (st.setQueue queue qs) queue = qs.inFlight := by
  unfold flying setQueue
  dsimp only
  rw [Function.update_self]

theorem flying_setQueue_of_ne {queue other : Queue} {qs : QueueState} (differ : other ≠ queue) :
    flying (st.setQueue queue qs) other = flying st other := by
  unfold flying setQueue
  dsimp only
  rw [Function.update_of_ne differ]

theorem setQueue_fifo {queue : Queue} {old qs : QueueState} {N : Nat}
    (start : ∀ q qs, st.queues q = some qs → ∀ id ∈ qs.fifo, Issued N id)
    (known : st.queues queue = some old) (same : qs.fifo = old.fifo) :
    ∀ q other, (st.setQueue queue qs).queues q = some other → ∀ id ∈ other.fifo, Issued N id := by
  intro q other found
  unfold setQueue at found
  dsimp only at found
  by_cases here : q = queue
  · subst here
    rw [Function.update_self, Option.some.injEq] at found
    rw [← found, same]
    exact start q old known
  · rw [Function.update_of_ne here] at found
    exact start q other found

/-- A queue whose flag stays is still in order after its other fields change. -/
theorem quiet_setQueue {queue : Queue} {old qs : QueueState} (known : st.queues queue = some old)
    (fifo : qs.fifo = old.fifo) (flag : qs.inFlight = old.inFlight) :
    Quiet st (st.setQueue queue qs) where
  nextId := rfl
  registered := rfl
  bound := rfl
  completed := rfl
  unreserved := rfl
  delivered := rfl
  handedBack := rfl
  hall _ := .stay
  orderly start :=
    { counted := start.counted
      fifo := setQueue_fifo start.fifo known fifo
      batch := start.batch
      flight := by
        intro q
        by_cases here : q = queue
        · subst here
          rw [flying_setQueue_self, flag]
          have before := start.flight q
          unfold flying at before
          rw [known] at before
          exact before
        · rw [flying_setQueue_of_ne here]
          exact start.flight q
      clamps := start.clamps }

theorem collect_batch {registered : Nat → Bool} {queue : Queue} {now : Nat} (fifo : List Nat) :
    ∀ (h : Hall Job Err) (batch : List Nat) (k : Nat) (owed : Bool),
      ∀ id ∈ (collect cap registered queue now fifo h batch k owed).2.1, id ∈ batch ∨ id ∈ fifo := by
  induction fifo with
  | nil => exact fun h batch k owed id among => Or.inl among
  | cons first rest ih =>
    intro h batch k owed id among
    unfold collect at among
    dsimp only at among
    split_ifs at among
    · exact Or.inl among
    · rcases ih _ _ _ _ id among with earlier | later
      · rcases List.mem_append.mp earlier with old | new
        · exact Or.inl old
        · exact Or.inr (List.mem_singleton.mp new ▸ List.mem_cons_self)
      · exact Or.inr (List.mem_cons_of_mem _ later)
    · exact (ih _ _ _ _ id among).imp_right (List.mem_cons_of_mem _)
    · exact (ih _ _ _ _ id among).imp_right (List.mem_cons_of_mem _)

theorem orderly_setHall {h : Hall Job Err} (start : Orderly st)
    (waiters : h.waiter = st.hall.waiter) : Orderly (st.setHall h) where
  counted := start.counted
  fifo := start.fifo
  batch := start.batch
  flight := start.flight
  clamps id := by
    change 0 < (h.waiter id).clamp
    rw [waiters]
    exact start.clamps id

theorem quiet_setHall {h : Hall Job Err} (moved : ∀ N, Moves N st.hall [] h) :
    Quiet st (st.setHall h) :=
  ⟨rfl, rfl, rfl, rfl, rfl, rfl, rfl, moved, fun start =>
    orderly_setHall start (moves_waiter (moved 0))⟩

theorem quiet_startSweep {queue : Queue} {trigger : Trigger} (free : flying st queue = false) :
    Quiet st (st.startSweep cap queue trigger) := by
  unfold startSweep
  by_cases ready : st.bound = true
  · rw [if_pos ready]
    cases known : st.queues queue with
    | none => exact Quiet.refl st
    | some qs =>
      dsimp only
      have moved : ∀ N, Moves N st.hall []
          (collect cap st.registered queue st.hall.now qs.fifo st.hall [] 0 false).1 :=
        fun N => moves_collect qs.fifo st.hall [] 0 false
      have chosen : ∀ id ∈ (collect cap st.registered queue st.hall.now qs.fifo st.hall
          [] 0 false).2.1, id ∈ ([] : List Nat) ∨ id ∈ qs.fifo :=
        collect_batch qs.fifo st.hall [] 0 false
      generalize collect cap st.registered queue st.hall.now qs.fifo st.hall [] 0 false =
        collected at moved chosen
      obtain ⟨h, batch, k, owed⟩ := collected
      dsimp only at moved chosen ⊢
      have grounded : qs.inFlight = false := by
        unfold flying at free
        rw [known] at free
        exact free
      by_cases nobody : batch = []
      · rw [if_pos nobody]
        exact (quiet_setHall moved).trans (quiet_setQueue known rfl rfl)
      · rw [if_neg nobody]
        refine ⟨rfl, rfl, rfl, rfl, rfl, rfl, rfl, moved, fun start => ?_⟩
        have settled := orderly_setHall start (moves_waiter (moved 0))
        constructor
        · exact start.counted
        · exact setQueue_fifo settled.fifo known rfl
        · intro sweep among
          rcases List.mem_append.mp among with old | new
          · exact start.batch sweep old
          · rw [List.mem_singleton.mp new]
            intro id inBatch
            rcases chosen id inBatch with none | listed
            · cases none
            · exact start.fifo queue qs known id listed
        · intro q
          dsimp only
          rw [List.filter_append, List.length_append, start.flight q]
          by_cases here : q = queue
          · subst here
            rw [free]
            change _ = if flying ((st.setHall h).setQueue q _) q then 1 else 0
            rw [flying_setQueue_self]
            simp
          · change _ = if flying ((st.setHall h).setQueue queue _) q then 1 else 0
            rw [flying_setQueue_of_ne here]
            simp [Ne.symm here]
            rfl
        · exact settled.clamps
  · rw [if_neg ready]
    exact Quiet.refl st

theorem quiet_triggerLocked {queue : Queue} {trigger : Trigger} :
    Quiet st (st.triggerLocked cap queue trigger) := by
  unfold triggerLocked
  cases known : st.queues queue with
  | none => exact Quiet.refl st
  | some qs =>
    dsimp only
    by_cases busy : qs.inFlight = true
    · rw [if_pos busy]
      exact quiet_setQueue known rfl rfl
    · rw [if_neg busy]
      apply quiet_startSweep
      unfold flying
      rw [known]
      exact Bool.eq_false_iff.mpr busy

theorem quiet_runDeferred (queue : Queue) : Quiet st (st.runDeferred cap queue) := by
  unfold runDeferred
  split
  · rename_i fifo t known
    have cleared : Quiet st
        (st.setQueue queue { fifo := fifo, inFlight := false, pending := none }) :=
      quiet_setQueue known rfl rfl
    exact cleared.trans (quiet_startSweep flying_setQueue_self)
  · exact Quiet.refl st

theorem quiet_forget {queue : Queue} {qs : QueueState} (known : st.queues queue = some qs)
    (free : qs.inFlight = false) :
    Quiet st { st with queues := Function.update st.queues queue none } := by
  have same : ∀ q, flying { st with queues := Function.update st.queues queue none } q =
      flying st q := by
    intro q
    unfold flying
    dsimp only
    by_cases here : q = queue
    · subst here
      rw [Function.update_self, known]
      exact free.symm
    · rw [Function.update_of_ne here]
  refine ⟨rfl, rfl, rfl, rfl, rfl, rfl, rfl, fun _ => .stay, fun start => ?_⟩
  constructor
  · exact start.counted
  · intro q other found
    dsimp only at found
    by_cases here : q = queue
    · subst here
      rw [Function.update_self] at found
      cases found
    · rw [Function.update_of_ne here] at found
      exact start.fifo q other found
  · exact start.batch
  · intro q
    rw [same]
    exact start.flight q
  · exact start.clamps

theorem quiet_followUp {queue : Queue} {nextArrivals freed : List Queue}
    (free : flying st queue = false) : Quiet st (st.followUp cap queue nextArrivals freed) := by
  unfold followUp
  extract_lets first second third
  have one : Quiet st first := by
    unfold first
    split
    · rename_i fifo inFlight t known
      have grounded : inFlight = false := by
        unfold flying at free
        rw [known] at free
        exact free
      have cleared : Quiet st
          (st.setQueue queue { fifo := fifo, inFlight := inFlight, pending := none }) :=
        quiet_setQueue known rfl rfl
      exact cleared.trans (quiet_startSweep (flying_setQueue_self.trans grounded))
    · exact Quiet.refl st
  have two : Quiet first second := quiet_foldl (fun st q => quiet_triggerLocked) _ _
  have three : Quiet second third := quiet_foldl (fun st q => quiet_runDeferred q) _ _
  refine (one.trans two).trans (three.trans ?_)
  split
  · rename_i pending known
    exact quiet_forget known rfl
  · exact Quiet.refl third

/-! ## Polling -/

theorem startSweep_other {queue other : Queue} {trigger : Trigger} (differ : other ≠ queue) :
    (st.startSweep cap queue trigger).queues other = st.queues other := by
  unfold startSweep
  by_cases ready : st.bound = true
  · rw [if_pos ready]
    cases known : st.queues queue with
    | none => rfl
    | some qs =>
      dsimp only
      by_cases nobody :
          (collect cap st.registered queue st.hall.now qs.fifo st.hall [] 0 false).2.1 = []
      · rw [if_pos nobody]
        exact Function.update_of_ne differ _ _
      · rw [if_neg nobody]
        exact Function.update_of_ne differ _ _
  · rw [if_neg ready]

theorem flying_startSweep_other {queue other : Queue} {trigger : Trigger} (differ : other ≠ queue) :
    flying (st.startSweep cap queue trigger) other = flying st other := by
  unfold flying
  rw [startSweep_other differ]

theorem quiet_sweepAll {due : List Queue} (distinct : due.Nodup) (st : Waker Job Err)
    (free : ∀ q ∈ due, flying st q = false) :
    Quiet st (due.foldl (fun st q => startSweep cap st q .interval) st) := by
  induction due generalizing st with
  | nil => exact Quiet.refl st
  | cons q rest ih =>
    rw [List.nodup_cons] at distinct
    refine (quiet_startSweep (free q List.mem_cons_self)).trans (ih distinct.2 _ ?_)
    intro other among
    have differ : other ≠ q := by
      rintro rfl
      exact distinct.1 among
    rw [flying_startSweep_other differ]
    exact free other (List.mem_cons_of_mem _ among)

/-- The walk over the map leaves the queues and picks free ones, each as often as it is walked. -/
theorem poll_walk (now : Nat) (order : List Queue) :
    ∀ (st : Waker Job Err) (due : List Queue), (due ++ order).Nodup →
      (∀ q ∈ due, flying st q = false) →
      Quiet st (order.foldl (pollOne now) (st, due)).1 ∧
        (order.foldl (pollOne now) (st, due)).2.Nodup ∧
        ∀ q ∈ (order.foldl (pollOne now) (st, due)).2,
          flying (order.foldl (pollOne now) (st, due)).1 q = false := by
  induction order with
  | nil =>
    intro st due distinct free
    rw [List.append_nil] at distinct
    exact ⟨Quiet.refl st, distinct, free⟩
  | cons queue rest ih =>
    intro st due distinct free
    rw [List.foldl_cons]
    have skip : (due ++ rest).Nodup :=
      distinct.sublist (List.Sublist.append_left (List.sublist_cons_self queue rest) due)
    unfold pollOne
    dsimp only
    split
    · rename_i fifo pending known
      have quiet : Quiet st (st.setHall (anyEligible st.registered queue now fifo st.hall).1) :=
        quiet_setHall fun N => moves_anyEligible fifo st.hall
      have grounded : flying st queue = false := by
        unfold flying
        rw [known]
      split_ifs
      · have all : (due ++ [queue] ++ rest).Nodup := by
          rw [List.append_assoc]
          exact distinct
        have next := ih (st.setHall (anyEligible st.registered queue now fifo st.hall).1)
          (due ++ [queue]) all (by
            intro q among
            rcases List.mem_append.mp among with old | new
            · exact free q old
            · rw [List.mem_singleton.mp new]
              exact grounded)
        exact ⟨quiet.trans next.1, next.2⟩
      · have next := ih (st.setHall (anyEligible st.registered queue now fifo st.hall).1) due skip
          free
        exact ⟨quiet.trans next.1, next.2⟩
    · exact ih st due skip free

theorem quiet_pollAll {now : Nat} {order : List Queue} (distinct : order.Nodup) :
    Quiet st (st.pollAll cap now order) := by
  have walked := poll_walk now order st [] distinct (fun q among => by cases among)
  unfold pollAll
  exact walked.1.trans (quiet_sweepAll walked.2.1 _ walked.2.2)

/-! ## Landing -/

/-- The only sweep of its queue. -/
theorem sweeps_of_queue {sweep : Sweep} (start : Orderly st) (running : sweep ∈ st.sweeps) :
    flying st sweep.queue = true ∧ st.sweeps.filter (·.queue = sweep.queue) = [sweep] := by
  have among : sweep ∈ st.sweeps.filter (·.queue = sweep.queue) :=
    List.mem_filter.mpr ⟨running, decide_eq_true rfl⟩
  have count := start.flight sweep.queue
  cases flag : flying st sweep.queue with
  | false =>
    rw [flag] at count
    rw [List.eq_nil_of_length_eq_zero count] at among
    cases among
  | true =>
    rw [flag] at count
    obtain ⟨only, single⟩ := List.length_eq_one_iff.mp count
    rw [single, List.mem_singleton] at among
    rw [single, among]
    exact ⟨rfl, rfl⟩

/-- The waker once the sweep is off its list and its queue is free again. -/
def landing (st : Waker Job Err) (sweep : Sweep) (h : Hall Job Err)
    (pending : Option Trigger → Option Trigger) : Waker Job Err :=
  (({ st with sweeps := st.sweeps.filter (· ≠ sweep) } : Waker Job Err).setHall h).land
    sweep.queue pending

theorem landing_eq {sweep : Sweep} (start : Orderly st) (running : sweep ∈ st.sweeps)
    (h : Hall Job Err) (pending : Option Trigger → Option Trigger) :
    ∃ qs, st.queues sweep.queue = some qs ∧
      landing st sweep h pending =
        { st with
          sweeps := st.sweeps.filter (· ≠ sweep)
          hall := h
          queues := Function.update st.queues sweep.queue
            (some { qs with inFlight := false, pending := pending qs.pending }) } := by
  have flag := (sweeps_of_queue start running).1
  unfold flying at flag
  cases known : st.queues sweep.queue with
  | none =>
    rw [known] at flag
    cases flag
  | some qs =>
    refine ⟨qs, rfl, ?_⟩
    unfold landing land setHall
    dsimp only
    rw [known]
    rfl

theorem orderly_landing {sweep : Sweep} {h : Hall Job Err} (start : Orderly st)
    (running : sweep ∈ st.sweeps) (waiters : h.waiter = st.hall.waiter)
    (pending : Option Trigger → Option Trigger) :
    Orderly (landing st sweep h pending) ∧
      flying (landing st sweep h pending) sweep.queue = false := by
  obtain ⟨flag, only⟩ := sweeps_of_queue start running
  obtain ⟨qs, known, shape⟩ := landing_eq start running h pending
  have flags : ∀ q, flying (landing st sweep h pending) q =
      if q = sweep.queue then false else flying st q := by
    intro q
    rw [shape]
    unfold flying
    dsimp only
    by_cases here : q = sweep.queue
    · rw [if_pos here, here, Function.update_self]
    · rw [if_neg here, Function.update_of_ne here]
  refine ⟨?_, by rw [flags, if_pos rfl]⟩
  constructor
  · rw [shape]
    exact start.counted
  · intro q other found
    rw [shape] at found ⊢
    dsimp only at found ⊢
    by_cases here : q = sweep.queue
    · rw [here, Function.update_self, Option.some.injEq] at found
      rw [← found]
      exact start.fifo _ qs known
    · rw [Function.update_of_ne here] at found
      exact start.fifo q other found
  · rw [shape]
    exact fun other among => start.batch other (List.mem_of_mem_filter among)
  · intro q
    rw [flags, shape]
    dsimp only
    rw [List.filter_comm]
    by_cases here : q = sweep.queue
    · subst here
      rw [only, if_pos rfl]
      simp
    · rw [if_neg here, ← start.flight q]
      congr 1
      rw [List.filter_eq_self]
      intro other among
      rw [decide_eq_true_eq]
      rintro rfl
      exact here (of_decide_eq_true (List.mem_filter.mp among).2).symm
  · intro id
    rw [shape]
    dsimp only
    rw [waiters]
    exact start.clamps id

/-! ## The ledger -/

def gifts (st : Waker Job Err) : List (Nat × List Job) :=
  st.completed.flatMap (·.offers)

def passed (st : Waker Job Err) : List (Nat × List Job) :=
  st.delivered ++ st.handedBack

/-- The jobs that a sweep reports are its offers, in order, and its leftovers; no offer is empty
or above its waiter's clamp. A sweep that fails offers nothing. -/
structure Accounted (st : Waker Job Err) (c : Completion Job Err) : Prop where
  partition : ∀ jobs, c.outcome = .answered jobs → jobs = c.offers.flatMap Prod.snd ++ c.leftovers
  failed : ∀ reserved error, c.outcome = .failed reserved error → c.offers = [] ∧ c.leftovers = []
  offers : ∀ id mine, (id, mine) ∈ c.offers →
    Issued st.nextId id ∧ mine ≠ [] ∧ mine.length ≤ (st.hall.waiter id).clamp

/-- The unreserve statements carry the leftovers of sweeps and the offers that were handed back,
each once. -/
structure Settled (st : Waker Job Err) : Prop where
  orderly : Orderly st
  sound : Sound st.nextId st.hall (gifts st) (passed st)
  ledger : ∀ c ∈ st.completed, Accounted st c
  unreserved : (st.unreserved.map Prod.snd).Perm
    ((st.completed.map (·.leftovers)).filter (fun jobs => !jobs.isEmpty) ++
      st.handedBack.map Prod.snd)

theorem Accounted.later {c : Completion Job Err} (accounted : Accounted st c)
    (nextId : st.nextId ≤ st'.nextId)
    (waiters : ∀ id, Issued st.nextId id → st'.hall.waiter id = st.hall.waiter id) : Accounted st' c where
  partition := accounted.partition
  failed := accounted.failed
  offers id mine given := by
    obtain ⟨low, some', fits⟩ := accounted.offers id mine given
    rw [waiters id low]
    exact ⟨⟨low.1, low.2.trans_le nextId⟩, some', fits⟩

theorem moves_given {N : Nat} {h h' : Hall Job Err} {given : List (Nat × List Job)}
    (moved : Moves N h given h') : ∀ id mine, (id, mine) ∈ given →
      Issued N id ∧ mine ≠ [] ∧ mine.length ≤ (h.waiter id).clamp := by
  induction moved with
  | stay => exact fun id mine among => by cases among
  | nudge n moved ih => exact ih
  | bursts later moved ih => exact ih
  | mark id arrival busy moved later ih => exact ih
  | jobs moved low unfinished some' fits ih =>
    intro id mine among
    rcases List.mem_append.mp among with old | new
    · exact ih id mine old
    · rw [List.mem_singleton, Prod.mk.injEq] at new
      obtain ⟨rfl, rfl⟩ := new
      rw [moves_waiter moved] at fits
      exact ⟨low, some', fits⟩
  | other moved low notJobs ih => exact ih

/-- A part of the waker that hands out nothing keeps all of it. -/
theorem Settled.quiet (settled : Settled st) (quiet : Quiet st st') : Settled st' where
  orderly := quiet.orderly settled.orderly
  sound := by
    have moved := (settled.sound.moves (quiet.hall st.nextId)).1
    rw [List.append_nil] at moved
    unfold gifts passed at moved ⊢
    rw [quiet.nextId, quiet.completed, quiet.delivered, quiet.handedBack]
    exact moved
  ledger c among := by
    rw [quiet.completed] at among
    refine (settled.ledger c among).later quiet.nextId.ge fun id _ => ?_
    rw [moves_waiter (quiet.hall 0)]
  unreserved := by
    rw [quiet.unreserved, quiet.completed, quiet.handedBack]
    exact settled.unreserved

/-! ## Completing a sweep -/

theorem perm_leftovers {waiting handed : List (List Job)} {jobs : List Job} {sent : List (List Job)}
    (before : sent.Perm (waiting.filter (fun jobs => !jobs.isEmpty) ++ handed)) :
    (if jobs.isEmpty then sent else sent ++ [jobs]).Perm
      ((waiting ++ [jobs]).filter (fun jobs => !jobs.isEmpty) ++ handed) := by
  rw [List.filter_append]
  cases jobs with
  | nil => simpa using before
  | cons job rest =>
    rw [if_neg (by simp)]
    have moved : ((waiting.filter fun jobs => !jobs.isEmpty) ++ handed ++ [job :: rest]).Perm
        ((waiting.filter fun jobs => !jobs.isEmpty) ++ [job :: rest] ++ handed) := by
      rw [List.append_assoc, List.append_assoc]
      exact List.Perm.append_left _ List.perm_append_comm
    exact (before.append_right _).trans moved

/-- An unreserve statement is sent when there are jobs for it; nothing else changes. -/
theorem unreserve_eq (st : Waker Job Err) (jobs : List Job) (cause : UnreserveCause) :
    ∃ sent, st.unreserve jobs cause = { st with unreserved := sent } ∧
      sent.map Prod.snd = if jobs.isEmpty then st.unreserved.map Prod.snd
        else st.unreserved.map Prod.snd ++ [jobs] := by
  unfold unreserve
  split_ifs
  · exact ⟨_, rfl, rfl⟩
  · refine ⟨_, rfl, ?_⟩
    rw [List.map_append]
    rfl

/-- The record of a sweep that came back, once its queue is in order again. -/
theorem Settled.completion {sweep : Sweep} {h : Hall Job Err} {followed : Waker Job Err}
    {pending : Option Trigger → Option Trigger} (settled : Settled st)
    (running : sweep ∈ st.sweeps) (c : Completion Job Err) (cause : UnreserveCause)
    (moved : Moves st.nextId st.hall c.offers h)
    (quiet : Quiet (landing st sweep h pending) followed)
    (partition : ∀ jobs, c.outcome = .answered jobs →
      jobs = c.offers.flatMap Prod.snd ++ c.leftovers)
    (failed : ∀ reserved error, c.outcome = .failed reserved error →
      c.offers = [] ∧ c.leftovers = []) :
    Settled { followed.unreserve c.leftovers cause with
      completed := (followed.unreserve c.leftovers cause).completed ++ [c] } := by
  have same := moves_waiter moved
  have order := quiet.orderly (orderly_landing settled.orderly running same pending).1
  obtain ⟨qs, -, shape⟩ := landing_eq settled.orderly running h pending
  rw [shape] at quiet
  have nextId : followed.nextId = st.nextId := quiet.nextId
  have completed : followed.completed = st.completed := quiet.completed
  have unreserved : followed.unreserved = st.unreserved := quiet.unreserved
  have delivered : followed.delivered = st.delivered := quiet.delivered
  have handedBack : followed.handedBack = st.handedBack := quiet.handedBack
  have waiters : followed.hall.waiter = st.hall.waiter :=
    (moves_waiter (quiet.hall 0)).trans same
  obtain ⟨sent, result, messages⟩ := unreserve_eq followed c.leftovers cause
  rw [result]
  constructor
  · exact ⟨order.counted, order.fifo, order.batch, order.flight, order.clamps⟩
  · have first := (settled.sound.moves moved).1
    have second := (first.moves (quiet.hall st.nextId)).1
    rw [List.append_nil] at second
    unfold gifts passed
    dsimp only
    rw [List.flatMap_append, List.flatMap_singleton, nextId, completed, delivered, handedBack]
    exact second
  · intro other among
    have accounted : Accounted st other := by
      rcases List.mem_append.mp among with old | new
      · rw [completed] at old
        exact settled.ledger other old
      · rw [List.mem_singleton.mp new]
        exact ⟨partition, failed, moves_given moved⟩
    refine accounted.later nextId.ge ?_
    intro id _
    dsimp only
    rw [waiters]
  · dsimp only
    rw [messages, unreserved, completed, handedBack, List.map_append]
    exact perm_leftovers settled.unreserved

theorem Settled.complete {sweep : Sweep} (settled : Settled st) (running : sweep ∈ st.sweeps)
    (read : Nat) (outcome : SweepOutcome Job Err) :
    Settled (st.complete cap sweep read outcome) := by
  have fifo := settled.orderly.fifo sweep.queue
  have batch := settled.orderly.batch sweep running
  unfold Waker.complete
  cases outcome with
  | answered jobs =>
    dsimp only
    have handed := serves_handOut { st with sweeps := st.sweeps.filter (· ≠ sweep) } sweep jobs
      read settled.orderly.clamps batch fifo
    generalize handOut { st with sweeps := st.sweeps.filter (· ≠ sweep) } sweep jobs read = r
      at handed ⊢
    have landed := orderly_landing settled.orderly running (moves_waiter handed.1) fun pending =>
      if decide (sweep.k ≤ jobs.length) then pending <|> some .refill else pending
    have followed : Quiet _ (followUp cap _ _ r.nextArrivals r.freed) := quiet_followUp landed.2
    apply settled.completion running ⟨sweep, .answered jobs, r.offers, r.jobs⟩ _ handed.1 followed
    · intro jobs' same
      cases same
      exact handed.2
    · exact fun reserved error wrong => by cases wrong
  | failed reserved error =>
    dsimp only
    have moved := moves_dismiss { st with sweeps := st.sweeps.filter (· ≠ sweep) } sweep error
      batch fifo
    have landed := orderly_landing settled.orderly running (moves_waiter moved) fun _ => none
    have followed : Quiet _ (followUp cap _ _ [] []) := quiet_followUp landed.2
    exact settled.completion running ⟨sweep, .failed reserved error, [], []⟩ .deadline moved
      followed (fun jobs wrong => by cases wrong) fun _ _ _ => ⟨rfl, rfl⟩

/-! ## Registering and leaving -/

/-- The waiter and its queues before the first sweep is triggered. -/
def entering (st : Waker Job Err) (ordered : List Queue) (clamp waitEnd hardEnd : Nat) :
    Waker Job Err :=
  { st with
    nextId := st.nextId + 1
    registered := Function.update st.registered st.nextId true
    queues := fun q =>
      if q ∈ ordered then
        let known := (st.queues q).getD { fifo := [], inFlight := false, pending := none }
        some { known with fifo := known.fifo ++ [st.nextId] }
      else st.queues q
    hall :=
      { st.hall with
        waiter := Function.update st.hall.waiter st.nextId
          { queues := ordered, clamp := max clamp 1, waitEnd := waitEnd }
        slot := Function.update st.hall.slot st.nextId
          { arrival := 0, busy := false, ended := none, offer := none }
        handler := Function.update st.hall.handler st.nextId (.waiting hardEnd) } }

theorem issued_succ {N id : Nat} (issued : Issued N id) : Issued (N + 1) id :=
  ⟨issued.1, issued.2.trans (Nat.lt_succ_self N)⟩

theorem orderly_entering {ordered : List Queue} {clamp waitEnd hardEnd : Nat}
    (start : Orderly st) : Orderly (entering st ordered clamp waitEnd hardEnd) := by
  constructor
  · exact Nat.succ_pos _
  · intro q qs found id among
    change Issued (st.nextId + 1) id
    unfold entering at found
    dsimp only at found
    by_cases asked : q ∈ ordered
    · rw [if_pos asked, Option.some.injEq] at found
      rw [← found] at among
      rcases List.mem_append.mp among with old | new
      · cases known : st.queues q with
        | none =>
          rw [known] at old
          cases old
        | some before =>
          rw [known] at old
          exact issued_succ (start.fifo q before known id old)
      · rw [List.mem_singleton.mp new]
        exact ⟨start.counted, Nat.lt_succ_self _⟩
    · rw [if_neg asked] at found
      exact issued_succ (start.fifo q qs found id among)
  · exact fun sweep among id inBatch => issued_succ (start.batch sweep among id inBatch)
  · intro q
    have same : flying (entering st ordered clamp waitEnd hardEnd) q = flying st q := by
      unfold flying entering
      dsimp only
      by_cases asked : q ∈ ordered
      · rw [if_pos asked]
        cases st.queues q <;> rfl
      · rw [if_neg asked]
    rw [same]
    exact start.flight q
  · intro id
    unfold entering
    dsimp only
    by_cases here : id = st.nextId
    · rw [here, Function.update_self]
      exact lt_of_lt_of_le Nat.zero_lt_one (le_max_right _ _)
    · rw [Function.update_of_ne here]
      exact start.clamps id

theorem Settled.entering {ordered : List Queue} {clamp waitEnd hardEnd : Nat}
    (settled : Settled st) : Settled (entering st ordered clamp waitEnd hardEnd) := by
  constructor
  · exact orderly_entering settled.orderly
  · intro id
    have at' := settled.sound id
    unfold QueueDelivery.entering
    dsimp only
    by_cases here : id = st.nextId
    · subst here
      obtain ⟨gone, unfinished, empty⟩ := at'.fresh fun issued => Nat.lt_irrefl _ issued.2
      have nothing : entries (gifts st) st.nextId = [] := by
        by_contra some'
        rw [at'.byOffer some'] at unfinished
        cases unfinished
      have unpassed : entries (passed st) st.nextId = [] := by
        have places := at'.places
        rw [nothing, empty, gone] at places
        exact (List.nil_eq_append_iff.mp places).2
      rw [Function.update_self, Function.update_self]
      change At (st.nextId + 1) st.nextId none none (.waiting hardEnd) _
        (entries (gifts st) st.nextId) (entries (passed st) st.nextId)
      rw [nothing, unpassed]
      constructor
      · rw [at'.logged, unfinished]
      · exact fun high => absurd ⟨settled.orderly.counted, Nat.lt_succ_self _⟩ high
      · exact fun _ _ => ⟨fun _ => rfl, fun _ => rfl⟩
      · exact fun _ away => absurd rfl (away hardEnd)
      · rfl
      · exact fun some' => absurd rfl some'
      · exact fun some' => absurd rfl some'
      · exact Nat.zero_le 1
    · rw [Function.update_of_ne here, Function.update_of_ne here]
      constructor
      · exact at'.logged
      · exact fun high => at'.fresh fun issued => high (issued_succ issued)
      · exact at'.waiting
      · exact fun low => at'.away ⟨low.1, lt_of_le_of_ne (Nat.lt_succ_iff.mp low.2) here⟩
      · exact at'.places
      · exact at'.passed
      · exact at'.byOffer
      · exact at'.single
  · intro c among
    refine (settled.ledger c among).later (Nat.le_succ _) fun id low => ?_
    exact Function.update_of_ne low.2.ne _ _
  · exact settled.unreserved

theorem Settled.register {queues : List Queue} {clamp waitEnd hardEnd : Nat}
    (settled : Settled st) : Settled (st.register cap queues clamp waitEnd hardEnd) := by
  have entered : Settled (QueueDelivery.entering st queues.eraseDups clamp waitEnd hardEnd) :=
    settled.entering
  unfold Waker.register
  dsimp only
  cases known : queues.eraseDups with
  | nil =>
    rw [known] at entered
    exact entered
  | cons first rest =>
    rw [known] at entered
    exact entered.quiet quiet_triggerLocked

theorem orderly_deregister {id : Nat} (start : Orderly st) : Orderly (st.deregister id) := by
  have shape : ∀ q, (st.deregister id).queues q = none ∧ flying st q = false ∨
      ∃ old qs, st.queues q = some old ∧ (st.deregister id).queues q = some qs ∧
        qs.inFlight = old.inFlight ∧ ∀ other ∈ qs.fifo, other ∈ old.fifo := by
    intro q
    unfold deregister flying
    dsimp only
    cases known : st.queues q with
    | none => exact Or.inl ⟨rfl, rfl⟩
    | some old =>
      dsimp only [Option.bind_some]
      have kept : ∀ qs : QueueState, qs.inFlight = old.inFlight →
          (∀ other ∈ qs.fifo, other ∈ old.fifo) →
          (if qs.fifo ≠ [] ∨ qs.inFlight = true then some qs else none) = none ∧
              old.inFlight = false ∨
            ∃ old' qs', some old = some old' ∧
              (if qs.fifo ≠ [] ∨ qs.inFlight = true then some qs else none) = some qs' ∧
              qs'.inFlight = old'.inFlight ∧ ∀ other ∈ qs'.fifo, other ∈ old'.fifo := by
        intro qs flag fewer
        by_cases stays : qs.fifo ≠ [] ∨ qs.inFlight = true
        · rw [if_pos stays]
          exact Or.inr ⟨old, qs, rfl, rfl, flag, fewer⟩
        · rw [if_neg stays]
          push Not at stays
          exact Or.inl ⟨rfl, by rw [← flag]; exact Bool.eq_false_iff.mpr stays.2⟩
      by_cases leaves : st.registered id = true ∧ q ∈ (st.hall.waiter id).queues
      · rw [if_pos leaves]
        exact kept _ rfl fun other among => List.mem_of_mem_filter among
      · rw [if_neg leaves]
        exact kept _ rfl fun other among => among
  constructor
  · exact start.counted
  · intro q qs found other among
    rcases shape q with ⟨none, -⟩ | ⟨old, qs', known, result, -, fewer⟩
    · rw [none] at found
      cases found
    · rw [result, Option.some.injEq] at found
      subst found
      exact start.fifo q old known other (fewer other among)
  · exact start.batch
  · intro q
    have same : flying (st.deregister id) q = flying st q := by
      rcases shape q with ⟨none, free⟩ | ⟨old, qs, known, result, flag, -⟩
      · rw [free]
        unfold flying
        rw [none]
      · unfold flying
        rw [known, result]
        exact flag
    rw [same]
    exact start.flight q
  · exact start.clamps

theorem held_leaving (o : Option (Offer Job Err)) (outcome : WaitOutcome Job Err) :
    held o (.leaving outcome) = held o (.returned outcome) := by
  cases o with
  | none =>
    cases outcome with
    | offer o => cases o <;> rfl
    | expired | cancelled | teardown | drained => rfl
  | some o =>
    cases o with
    | jobs mine => rfl
    | failed | empty =>
      cases outcome with
      | offer o => cases o <;> rfl
      | expired | cancelled | teardown | drained => rfl

theorem Settled.leaving {id : Nat} {outcome : WaitOutcome Job Err} (settled : Settled st)
    (back : st.hall.handler id = .returned outcome) :
    Settled ((st.deregister id).setHall
      { (st.deregister id).hall with
        handler := Function.update (st.deregister id).hall.handler id (.leaving outcome) }) := by
  constructor
  · exact orderly_setHall (orderly_deregister settled.orderly) rfl
  · intro other
    have at' := settled.sound other
    unfold setHall
    dsimp only
    by_cases here : other = id
    · subst here
      rw [Function.update_self]
      constructor
      · exact at'.logged
      · intro high
        have gone := (at'.fresh high).1
        rw [back] at gone
        cases gone
      · exact fun _ wrong => by cases wrong
      · intro low _
        refine at'.away low ?_
        rw [back]
        exact fun _ => nofun
      · change entries (gifts st) other = held (st.hall.slot other).offer (.leaving outcome) ++
          entries (passed st) other
        rw [at'.places, back, held_leaving]
      · intro some'
        have gone := at'.passed some'
        rw [back] at gone
        cases gone
      · exact at'.byOffer
      · exact at'.single
    · rw [Function.update_of_ne here]
      exact at'
  · exact fun c among => (settled.ledger c among).later le_rfl fun _ _ => rfl
  · exact settled.unreserved

theorem entries_append {α : Type} (first second : List (Nat × α)) (id : Nat) :
    entries (first ++ second) id = entries first id ++ entries second id := by
  unfold entries
  rw [List.filter_append, List.map_append]

/-- A handler that is done with its outcome, with what it held passed on. -/
theorem sound_gone {N id : Nat} {h : Hall Job Err} {outcome : WaitOutcome Job Err}
    {given settled' passed : List (Nat × List Job)} (sound : Sound N h given settled')
    (left : h.handler id = .leaving outcome)
    (mine : entries passed id = held (none : Option (Offer Job Err)) (.leaving outcome))
    (others : ∀ other, other ≠ id → entries passed other = entries settled' other) :
    Sound N { h with handler := Function.update h.handler id .gone } given passed := by
  intro other
  have at' := sound other
  dsimp only
  by_cases here : other = id
  · subst here
    have issued : Issued N other := by
      by_contra high
      have gone := (at'.fresh high).1
      rw [left] at gone
      cases gone
    have finished := at'.away issued (by rw [left]; exact fun _ => nofun)
    have unpassed : entries settled' other = [] := by
      by_contra some'
      have gone := at'.passed some'
      rw [left] at gone
      cases gone
    rw [Function.update_self]
    constructor
    · exact at'.logged
    · exact fun high => absurd issued high
    · exact fun _ wrong => by cases wrong
    · exact fun _ _ => finished
    · rw [at'.places, unpassed, finished.2, left, mine, List.append_nil]
      rfl
    · exact fun _ => rfl
    · exact at'.byOffer
    · exact at'.single
  · rw [Function.update_of_ne here, others other here]
    exact at'

theorem Settled.answer {id : Nat} {outcome : WaitOutcome Job Err} (settled : Settled st)
    (live : Bool) (left : st.hall.handler id = .leaving outcome) :
    Settled ((st.setHall
      { st.hall with handler := Function.update st.hall.handler id .gone }).answer id live
        outcome) := by
  have at' := settled.sound id
  have issued : Issued st.nextId id := by
    by_contra high
    have gone := (at'.fresh high).1
    rw [left] at gone
    cases gone
  have empty : (st.hall.slot id).offer = none :=
    (at'.away issued (by rw [left]; exact fun _ => nofun)).2
  have unpassed : entries st.delivered id ++ entries st.handedBack id = [] := by
    rw [← entries_append]
    by_contra some'
    have gone := at'.passed some'
    rw [left] at gone
    cases gone
  obtain ⟨undelivered, kept⟩ := List.append_eq_nil_iff.mp unpassed
  have order : Orderly (st.setHall
      { st.hall with handler := Function.update st.hall.handler id .gone }) :=
    orderly_setHall settled.orderly rfl
  have ledger : ∀ c ∈ st.completed, Accounted st c := settled.ledger
  have nothing : (∀ mine, outcome ≠ .offer (.jobs mine)) →
      Settled (st.setHall { st.hall with handler := Function.update st.hall.handler id .gone }) := by
    intro other
    refine ⟨order, ?_, fun c among => (ledger c among).later le_rfl fun _ _ => rfl,
      settled.unreserved⟩
    refine sound_gone settled.sound left ?_ fun _ _ => rfl
    change entries (st.delivered ++ st.handedBack) id = _
    rw [entries_append, unpassed]
    cases outcome with
    | offer o => cases o with
      | jobs mine => exact absurd rfl (other mine)
      | failed | empty => rfl
    | expired | cancelled | teardown | drained => rfl
  cases outcome with
  | expired | cancelled | teardown | drained => exact nothing fun _ => nofun
  | offer o => cases o with
    | failed | empty => exact nothing fun _ => nofun
    | jobs mine =>
      unfold Waker.answer
      dsimp only
      by_cases alive : live = true
      · rw [if_pos alive]
        refine ⟨⟨order.counted, order.fifo, order.batch, order.flight, order.clamps⟩, ?_,
          fun c among => (ledger c among).later le_rfl fun _ _ => rfl, settled.unreserved⟩
        refine sound_gone settled.sound left ?_ ?_
        · change entries (st.delivered ++ [(id, mine)] ++ st.handedBack) id = [mine]
          rw [entries_append, entries_append_self, undelivered, kept]
          rfl
        · intro other differ
          change entries (st.delivered ++ [(id, mine)] ++ st.handedBack) other =
            entries (st.delivered ++ st.handedBack) other
          rw [entries_append, entries_append_of_ne differ, entries_append]
      · rw [if_neg alive]
        have given : (id, mine) ∈ gifts st := by
          rw [← mem_entries, at'.places, empty, left]
          exact List.mem_append_left _ (List.mem_singleton_self _)
        have some' : mine ≠ [] := by
          obtain ⟨c, among, offered⟩ := List.mem_flatMap.mp given
          exact ((ledger c among).offers id mine offered).2.1
        obtain ⟨sent, result, messages⟩ := unreserve_eq (st.setHall
          { st.hall with handler := Function.update st.hall.handler id .gone }) mine .teardown
        rw [result]
        refine ⟨⟨order.counted, order.fifo, order.batch, order.flight, order.clamps⟩, ?_,
          fun c among => (ledger c among).later le_rfl fun _ _ => rfl, ?_⟩
        · refine sound_gone settled.sound left ?_ ?_
          · change entries (st.delivered ++ (st.handedBack ++ [(id, mine)])) id = [mine]
            rw [← List.append_assoc, entries_append_self, entries_append, unpassed]
            rfl
          · intro other differ
            change entries (st.delivered ++ (st.handedBack ++ [(id, mine)])) other =
              entries (st.delivered ++ st.handedBack) other
            rw [← List.append_assoc, entries_append_of_ne differ]
        · dsimp only
          rw [messages, if_neg (by simpa using some')]
          change (_ ++ [mine]).Perm (_ ++ (st.handedBack ++ [(id, mine)]).map Prod.snd)
          rw [List.map_append, ← List.append_assoc]
          exact settled.unreserved.append_right _

theorem Settled.step {before after : Waker Job Err} {label : List (List Nudge) × Event Job Err}
    (settled : Settled before) (taken : step cap before label = some after) : Settled after := by
  obtain ⟨bursts, event⟩ := label
  have ready : Settled (before.setHall { before.hall with bursts := bursts }) :=
    settled.quiet (quiet_setHall fun N => .bursts bursts .stay)
  unfold Waker.step at taken
  dsimp only at taken
  generalize before.setHall { before.hall with bursts := bursts } = st at ready taken
  cases event with
  | bind =>
    cases taken
    have order := ready.orderly
    exact ⟨⟨order.counted, order.fifo, order.batch, order.flight, order.clamps⟩, ready.sound, fun c among => (ready.ledger c among).later le_rfl fun _ _ => rfl,
      ready.unreserved⟩
  | register queues clamp waitEnd hardEnd =>
    dsimp only at taken
    split_ifs at taken
    cases taken
    exact ready.register
  | hint queue =>
    cases taken
    exact ready.quiet quiet_triggerLocked
  | poll read order =>
    dsimp only at taken
    split_ifs at taken with allowed
    cases taken
    exact ready.quiet (quiet_pollAll allowed.2.1)
  | complete sweep read outcome =>
    dsimp only at taken
    split_ifs at taken with allowed
    cases taken
    exact ready.complete allowed.2 read outcome
  | nudge nudge =>
    cases taken
    exact ready.quiet (quiet_setHall fun N => .nudge nudge .stay)
  | deregister id =>
    dsimp only at taken
    cases place : st.hall.handler id with
    | returned outcome =>
      rw [place] at taken
      cases taken
      exact ready.leaving place
    | waiting | leaving | gone =>
      rw [place] at taken
      cases taken
  | handOff id live =>
    dsimp only at taken
    cases place : st.hall.handler id with
    | leaving outcome =>
      rw [place] at taken
      cases taken
      exact ready.answer live place
    | waiting | returned | gone =>
      rw [place] at taken
      cases taken

theorem settled_init : Settled (init : Waker Job Err) := by
  constructor
  · constructor
    · exact Nat.zero_lt_one
    · exact fun q qs found => by cases found
    · exact fun sweep among => by cases among
    · exact fun q => rfl
    · exact fun id => Nat.zero_lt_one
  · intro id
    constructor
    · rfl
    · exact fun _ => ⟨rfl, rfl, rfl⟩
    · exact fun _ wrong => by cases wrong
    · exact fun low => absurd low.2 (Nat.not_lt.mpr low.1)
    · rfl
    · exact fun _ => rfl
    · exact fun some' => absurd rfl some'
    · exact Nat.zero_le 1
  · exact fun c among => by cases among
  · exact List.Perm.refl _

/-! ## Runs -/

theorem settled_run {labels : List (List (List Nudge) × Event Job Err)}
    (reached : run cap init labels = some st) : Settled st :=
  LabelledRuns.run_always (step cap) (fun settled taken => settled.step taken) settled_init reached

/-- A handler that looks at its slot past the hard end of its wait leaves. -/
theorem look_past_end {h : Hall Job Err} {id hardEnd : Nat} (waits : h.handler id = .waiting hardEnd)
    (late : hardEnd ≤ h.now) (cancelled live draining : Bool) :
    ∃ outcome, (h.look id cancelled live draining).handler id = .returned outcome := by
  unfold Hall.look
  rw [waits]
  dsimp only
  cases (h.slot id).offer with
  | some o => exact ⟨_, Function.update_self ..⟩
  | none =>
    dsimp only
    have done : ∃ result, Hall.finish (h.waiter id) (h.slot id) h.now hardEnd cancelled live
        draining = some result := by
      unfold Hall.finish
      by_cases stop : cancelled = true
      · rw [if_pos stop]
        exact ⟨_, rfl⟩
      · rw [if_neg stop, if_pos (Or.inl late)]
        exact ⟨_, rfl⟩
    obtain ⟨result, done⟩ := done
    rw [done]
    exact ⟨_, Function.update_self ..⟩

/-- The jobs of every sweep that answers are cut into its offers and its leftovers, and a job is
in an offer that its waiter holds or passed on, or in an unreserve statement. -/
structure DeliveredOrUnreserved (st : Waker Job Err) : Prop where
  /-- The endings of a waiter: none, or the one in its slot. -/
  finishedOnce : ∀ id, entries st.hall.finished id = (st.hall.slot id).ended.toList
  /-- A handler has left its wait only if its waiter is finished, and leaves it past its end. -/
  finished : ∀ id, 0 < id → id < st.nextId →
    ((∀ hardEnd, st.hall.handler id ≠ .waiting hardEnd) → (st.hall.slot id).ended ≠ none) ∧
    ∀ hardEnd, st.hall.handler id = .waiting hardEnd → hardEnd ≤ st.hall.now →
      ∀ cancelled live draining, ∃ outcome,
        (st.hall.look id cancelled live draining).handler id = .returned outcome
  singleFlight : ∀ q, (st.sweeps.filter (·.queue = q)).length ≤ 1
  partition : ∀ c ∈ st.completed, ∀ jobs, c.outcome = .answered jobs →
    jobs = c.offers.flatMap Prod.snd ++ c.leftovers
  clamped : ∀ c ∈ st.completed, ∀ id mine, (id, mine) ∈ c.offers →
    mine ≠ [] ∧ mine.length ≤ (st.hall.waiter id).clamp ∧
      (st.hall.slot id).ended = some .offered
  /-- A waiter's one offer of jobs is with it, delivered or handed back. -/
  places : ∀ id, (entries (gifts st) id).length ≤ 1 ∧
    entries (gifts st) id = held (st.hall.slot id).offer (st.hall.handler id) ++
      (entries st.delivered id ++ entries st.handedBack id)
  unreserved : (st.unreserved.map Prod.snd).Perm
    ((st.completed.map (·.leftovers)).filter (fun jobs => !jobs.isEmpty) ++
      st.handedBack.map Prod.snd)

theorem queue_jobs_settled {labels : List (List (List Nudge) × Event Job Err)}
    (reached : run cap init labels = some st) : DeliveredOrUnreserved st := by
  have settled := settled_run reached
  constructor
  · exact fun id => (settled.sound id).logged
  · intro id positive low
    exact ⟨fun away => ((settled.sound id).away ⟨positive, low⟩ away).1,
      fun hardEnd waits late => look_past_end waits late⟩
  · intro q
    rw [settled.orderly.flight q]
    split_ifs
    · exact le_rfl
    · exact Nat.zero_le 1
  · exact fun c among => (settled.ledger c among).partition
  · intro c among id mine offered
    have given : (id, mine) ∈ gifts st := List.mem_flatMap.mpr ⟨c, among, offered⟩
    have ended := (settled.sound id).byOffer (List.ne_nil_of_mem (mem_entries.mpr given))
    exact ⟨((settled.ledger c among).offers id mine offered).2.1,
      ((settled.ledger c among).offers id mine offered).2.2, ended⟩
  · intro id
    refine ⟨(settled.sound id).single, ?_⟩
    rw [← entries_append]
    exact (settled.sound id).places
  · exact settled.unreserved

def work : Queue := "work".toList

/-- Two waiters share a sweep of three jobs; one of them is cancelled while the sweep runs, and
its jobs go back. -/
def sharedSweep : List (List (List Nudge) × Event Nat Unit) :=
  [([], .bind),
    ([], .register [work] 2 100 110),
    ([], .complete { number := 0, queue := work, batch := [1], k := 2 } 0 (.answered [])),
    ([], .register [work] 1 100 110),
    ([[.look 1 true true false]], .complete
      { number := 1, queue := work, batch := [1, 2], k := 3 } 0 (.answered [7, 8, 9])),
    ([], .nudge (.look 2 false true false)),
    ([], .deregister 2),
    ([], .handOff 2 true)]

theorem queue_jobs_settled_on_sample :
    ∃ st : Waker Nat Unit, run 100 init sharedSweep = some st ∧
      st.hall.finished = [(1, .cancelled), (2, .offered)] ∧
      st.delivered = [(2, [7])] ∧ st.unreserved = [(.cancel, [8, 9])] ∧
      DeliveredOrUnreserved st := by
  have reached : run 100 init sharedSweep = some ((run 100 init sharedSweep).get rfl) := rfl
  exact ⟨_, reached, rfl, rfl, rfl, queue_jobs_settled reached⟩

/-- A sweep whose statement ran and whose answer was lost: the job that it reserved is in no offer
and no unreserve statement. -/
def lostAnswer : List (List (List Nudge) × Event Nat Unit) :=
  [([], .bind),
    ([], .register [work] 1 100 110),
    ([], .complete { number := 0, queue := work, batch := [1], k := 1 } 0 (.failed [7] ()))]

theorem failedSweep_leaves_reservation :
    ∃ st : Waker Nat Unit, run 100 init lostAnswer = some st ∧
      st.completed.map (fun c => (c.outcome.reserved, c.offers)) = [([7], [])] ∧
      gifts st = [] ∧ st.unreserved = [] := by
  have reached : run 100 init lostAnswer = some ((run 100 init lostAnswer).get rfl) := rfl
  exact ⟨_, reached, rfl, rfl, rfl⟩

end FerroEngine.QueueDelivery
