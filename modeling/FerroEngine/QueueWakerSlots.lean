import FerroEngine.QueueWaker

set_option autoImplicit false

/-! # Slots of the waker

What the waker and the handlers do to the slots while the waker's lock is held, and what that
keeps: a waiter is finished once, and an offer of jobs is in one place.
-/

namespace FerroEngine.QueueWakerSlots

open QueueWaker QueueWaker.Waker

variable {Job Err : Type} {N : Nat} {h h' : Hall Job Err} {given : List (Nat × List Job)}

/-! ## Moves -/

/-- Ids are handed out from 1 on; `N` is the next one. -/
def Issued (N id : Nat) : Prop :=
  0 < id ∧ id < N

/-- A walk over the slots, with the jobs that it gives away. -/
inductive Moves (N : Nat) (h : Hall Job Err) : List (Nat × List Job) → Hall Job Err → Prop where
  | stay : Moves N h [] h
  | nudge {h' : Hall Job Err} {given : List (Nat × List Job)} (n : Nudge) :
    Moves N h given h' → Moves N h given (h'.nudge n)
  | bursts {h' : Hall Job Err} {given : List (Nat × List Job)} (later : List (List Nudge)) :
    Moves N h given h' → Moves N h given { h' with bursts := later }
  | mark {h' : Hall Job Err} {given : List (Nat × List Job)} (id arrival : Nat) (busy : Bool) :
    Moves N h given h' → (h'.slot id).arrival ≤ arrival →
    Moves N h given (h'.setSlot id { h'.slot id with arrival := arrival, busy := busy })
  | jobs {h' : Hall Job Err} {given : List (Nat × List Job)} {id : Nat} {mine : List Job} :
    Moves N h given h' → Issued N id → (h'.slot id).ended = none → mine ≠ [] →
    mine.length ≤ (h'.waiter id).clamp →
    Moves N h (given ++ [(id, mine)]) (h'.offer id (.jobs mine))
  | other {h' : Hall Job Err} {given : List (Nat × List Job)} {id : Nat} {o : Offer Job Err} :
    Moves N h given h' → Issued N id → (∀ mine, o ≠ .jobs mine) → Moves N h given (h'.offer id o)

theorem Moves.trans {h'' : Hall Job Err} {more : List (Nat × List Job)} (first : Moves N h given h')
    (second : Moves N h' more h'') : Moves N h (given ++ more) h'' := by
  induction second with
  | stay =>
    rw [List.append_nil]
    exact first
  | nudge n moved ih => exact .nudge n ih
  | bursts later moved ih => exact .bursts later ih
  | mark id arrival busy moved later ih => exact .mark id arrival busy ih later
  | jobs moved low unfinished some' fits ih =>
    rw [← List.append_assoc]
    exact .jobs ih low unfinished some' fits
  | other moved low notJobs ih => exact .other ih low notJobs

theorem Moves.then' {h'' : Hall Job Err} (first : Moves N h given h') (second : Moves N h' [] h'') :
    Moves N h given h'' := by
  have both := first.trans second
  rwa [List.append_nil] at both

theorem moves_lock (h : Hall Job Err) : Moves N h [] h.lock := by
  have burst : ∀ (nudges : List Nudge) (k : Hall Job Err), Moves N h [] k →
      Moves N h [] (nudges.foldl Hall.nudge k) := by
    intro nudges
    induction nudges with
    | nil => exact fun k moved => moved
    | cons n rest ih => exact fun k moved => ih _ (.nudge n moved)
  unfold Hall.lock
  cases h.bursts with
  | nil => exact .stay
  | cons first later => exact burst first _ (.bursts later .stay)

/-- A loop of moves is a move. -/
theorem moves_foldl {f : Hall Job Err → Nat → Hall Job Err} {ids : List Nat}
    (turn : ∀ k id, id ∈ ids → Moves N k [] (f k id)) (h : Hall Job Err) :
    Moves N h [] (ids.foldl f h) := by
  induction ids generalizing h with
  | nil => exact .stay
  | cons id rest ih =>
    rw [List.foldl_cons]
    have first := turn h id List.mem_cons_self
    exact first.then' (ih (fun k other among => turn k other (List.mem_cons_of_mem _ among)) _)

/-! ## What a move leaves -/

@[simp] theorem setSlot_slot_self (h : Hall Job Err) (id : Nat) (s : Slot Job Err) :
    (h.setSlot id s).slot id = s := Function.update_self ..

theorem setSlot_slot_of_ne {id other : Nat} (h : Hall Job Err) (s : Slot Job Err)
    (differ : other ≠ id) : (h.setSlot id s).slot other = h.slot other :=
  Function.update_of_ne differ ..

theorem offer_of_ended {id : Nat} {o : Offer Job Err} (ended : (h.slot id).ended ≠ none) :
    h.offer id o = h := by
  unfold Hall.offer
  rw [if_pos (Option.isSome_iff_ne_none.mpr ended)]

theorem offer_of_unfinished {id : Nat} {o : Offer Job Err} (unfinished : (h.slot id).ended = none) :
    h.offer id o =
      { h.setSlot id { h.slot id with ended := some .offered, offer := some o } with
        finished := h.finished ++ [(id, .offered)] } := by
  unfold Hall.offer
  rw [if_neg (by rw [unfinished]; exact Bool.false_ne_true)]

/-- What a handler does when it looks at its slot: nothing, take the offer or finish. -/
theorem look_cases (h : Hall Job Err) (id : Nat) (cancelled live draining : Bool) :
    h.look id cancelled live draining = h ∨
      (∃ hardEnd o, h.handler id = .waiting hardEnd ∧ (h.slot id).offer = some o ∧
        h.look id cancelled live draining =
          { h.setSlot id { h.slot id with offer := none } with
            handler := Function.update h.handler id (.returned (.offer o)) }) ∨
      ∃ hardEnd ended outcome, h.handler id = .waiting hardEnd ∧ (h.slot id).offer = none ∧
        (∀ o, outcome ≠ .offer o) ∧ ended ≠ .offered ∧
        h.look id cancelled live draining =
          { h.setSlot id { h.slot id with ended := some ended } with
            handler := Function.update h.handler id (.returned outcome)
            finished := h.finished ++ [(id, ended)] } := by
  unfold Hall.look
  cases place : h.handler id with
  | returned outcome => exact Or.inl rfl
  | leaving outcome => exact Or.inl rfl
  | gone => exact Or.inl rfl
  | waiting hardEnd =>
    dsimp only
    cases held : (h.slot id).offer with
    | some o => exact Or.inr (Or.inl ⟨hardEnd, o, rfl, rfl, rfl⟩)
    | none =>
      dsimp only
      cases done : Hall.finish (h.waiter id) (h.slot id) h.now hardEnd cancelled live draining with
      | none => exact Or.inl rfl
      | some result =>
        obtain ⟨ended, outcome⟩ := result
        have kinds : (∀ o, outcome ≠ .offer o) ∧ ended ≠ .offered := by
          unfold Hall.finish at done
          split_ifs at done <;> cases done <;> exact ⟨fun o => nofun, nofun⟩
        exact Or.inr (Or.inr ⟨hardEnd, ended, outcome, rfl, rfl, kinds.1, kinds.2, rfl⟩)

/-- What stays of a waiter through every move. -/
structure Kept (h h' : Hall Job Err) : Prop where
  waiter : h'.waiter = h.waiter
  now : h.now ≤ h'.now
  arrival : ∀ id, (h.slot id).arrival ≤ (h'.slot id).arrival
  ended : ∀ id, (h.slot id).ended ≠ none → (h'.slot id).ended = (h.slot id).ended

theorem Kept.refl (h : Hall Job Err) : Kept h h :=
  ⟨rfl, le_rfl, fun _ => le_rfl, fun _ _ => rfl⟩

theorem Kept.trans {h'' : Hall Job Err} (first : Kept h h') (second : Kept h' h'') :
    Kept h h'' where
  waiter := second.waiter.trans first.waiter
  now := first.now.trans second.now
  arrival id := (first.arrival id).trans (second.arrival id)
  ended id done := by
    have same := first.ended id done
    rw [second.ended id (same ▸ done), same]

/-- A slot changed at one waiter, with its ending kept if it has one. -/
theorem kept_of_slot {id : Nat} {s : Slot Job Err} (waiters : h'.waiter = h.waiter)
    (clock : h'.now = h.now) (slots : h'.slot = Function.update h.slot id s)
    (arrival : (h.slot id).arrival ≤ s.arrival)
    (ended : (h.slot id).ended ≠ none → s.ended = (h.slot id).ended) : Kept h h' where
  waiter := waiters
  now := clock.ge
  arrival other := by
    rw [slots]
    by_cases same : other = id
    · subst same
      rw [Function.update_self]
      exact arrival
    · rw [Function.update_of_ne same]
  ended other done := by
    rw [slots]
    by_cases same : other = id
    · subst same
      rw [Function.update_self]
      exact ended done
    · rw [Function.update_of_ne same]

/-! ## What holds of every waiter -/

/-- The entries of one waiter in a log. -/
def entries {α : Type} (log : List (Nat × α)) (id : Nat) : List α :=
  (log.filter (·.1 = id)).map Prod.snd

section Entries

variable {α : Type} {log : List (Nat × α)} {id other : Nat} {a : α}

theorem mem_entries : a ∈ entries log id ↔ (id, a) ∈ log := by
  unfold entries
  rw [List.mem_map]
  constructor
  · rintro ⟨⟨owner, b⟩, listed, rfl⟩
    rw [List.mem_filter, decide_eq_true_eq] at listed
    obtain ⟨present, rfl⟩ := listed
    exact present
  · intro present
    exact ⟨(id, a), List.mem_filter.mpr ⟨present, decide_eq_true rfl⟩, rfl⟩

theorem entries_append_self : entries (log ++ [(id, a)]) id = entries log id ++ [a] := by
  unfold entries
  rw [List.filter_append, List.map_append]
  simp

theorem entries_append_of_ne (differ : other ≠ id) :
    entries (log ++ [(id, a)]) other = entries log other := by
  unfold entries
  rw [List.filter_append, List.map_append]
  simp [differ.symm]

end Entries

/-- The jobs that a waiter was offered and that its handler has not passed on. -/
def held : Option (Offer Job Err) → Handler Job Err → List (List Job)
  | some (.jobs mine), _ => [mine]
  | _, .returned (.offer (.jobs mine)) => [mine]
  | _, .leaving (.offer (.jobs mine)) => [mine]
  | _, _ => []

/-- A waiter's ending is logged once; what it was given is held or passed on; and while its
handler waits it is finished only by an offer that is still in the slot. -/
structure At (N id : Nat) (ended : Option Ended) (offer : Option (Offer Job Err))
    (handler : Handler Job Err) (endings : List Ended) (gifts passed : List (List Job)) :
    Prop where
  logged : endings = ended.toList
  fresh : ¬ Issued N id → handler = .gone ∧ ended = none ∧ offer = none
  waiting : ∀ hardEnd, handler = .waiting hardEnd → (ended = none ↔ offer = none)
  away : Issued N id → (∀ hardEnd, handler ≠ .waiting hardEnd) → ended ≠ none ∧ offer = none
  places : gifts = held offer handler ++ passed
  passed : passed ≠ [] → handler = .gone
  byOffer : gifts ≠ [] → ended = some .offered
  single : gifts.length ≤ 1

/-- With the jobs given away so far and those that handlers passed on. -/
def Sound (N : Nat) (h : Hall Job Err) (gifts passed : List (Nat × List Job)) : Prop :=
  ∀ id, At N id (h.slot id).ended (h.slot id).offer (h.handler id) (entries h.finished id)
    (entries gifts id) (entries passed id)

section Sound

variable {gifts passed : List (Nat × List Job)}

/-- A slot changed in its arrival and its flag only. -/
theorem Sound.mark {id arrival : Nat} {busy : Bool} (sound : Sound N h gifts passed) :
    Sound N (h.setSlot id { h.slot id with arrival := arrival, busy := busy }) gifts passed := by
  intro other
  by_cases same : other = id
  · subst same
    rw [setSlot_slot_self]
    exact sound other
  · rw [setSlot_slot_of_ne h _ same]
    exact sound other

theorem waiting_of_unfinished {id : Nat} (sound : Sound N h gifts passed) (low : Issued N id)
    (unfinished : (h.slot id).ended = none) : ∃ hardEnd, h.handler id = .waiting hardEnd := by
  by_contra none
  push Not at none
  exact ((sound id).away low none).1 unfinished

theorem Sound.offer {id : Nat} {o : Offer Job Err} (sound : Sound N h gifts passed) (low : Issued N id)
    (unfinished : (h.slot id).ended = none) (more : List (List Job))
    (holds : ∀ hardEnd, held (some o) (.waiting hardEnd) = more)
    (gifts' : List (Nat × List Job)) (mine : entries gifts' id = entries gifts id ++ more)
    (others : ∀ other, other ≠ id → entries gifts' other = entries gifts other) :
    Sound N (h.offer id o) gifts' passed := by
  obtain ⟨hardEnd, place⟩ := waiting_of_unfinished sound low unfinished
  rw [offer_of_unfinished unfinished]
  intro other
  by_cases same : other = id
  · subst same
    have at' := sound other
    have empty := (at'.waiting hardEnd place).mp unfinished
    have nothing : entries gifts other = [] := by
      by_contra some'
      have offered := at'.byOffer some'
      rw [unfinished] at offered
      cases offered
    have passedNone : entries passed other = [] := by
      by_contra some'
      have gone := at'.passed some'
      rw [place] at gone
      cases gone
    rw [setSlot_slot_self, mine, nothing, List.nil_append]
    dsimp only
    constructor
    · rw [entries_append_self, at'.logged, unfinished]
      rfl
    · exact fun high => absurd low high
    · exact fun _ _ => ⟨nofun, nofun⟩
    · exact fun _ away => absurd place (away hardEnd)
    · rw [passedNone, List.append_nil]
      change more = held (some o) (h.handler other)
      rw [place, holds]
    · exact fun some' => absurd passedNone some'
    · exact fun _ => rfl
    · rw [← holds hardEnd]
      cases o <;> simp [held]
  · rw [setSlot_slot_of_ne h _ same, others other same]
    dsimp only
    rw [entries_append_of_ne same]
    exact sound other

theorem Sound.look (sound : Sound N h gifts passed) (id : Nat) (cancelled live draining : Bool) :
    Sound N (h.look id cancelled live draining) gifts passed ∧
      Kept h (h.look id cancelled live draining) := by
  rcases look_cases h id cancelled live draining with
    same | ⟨hardEnd, o, place, offered, result⟩ |
      ⟨hardEnd, ended, outcome, place, empty, notOffer, -, result⟩
  · rw [same]
    exact ⟨sound, Kept.refl h⟩
  · rw [result]
    refine ⟨?_, kept_of_slot rfl rfl rfl le_rfl fun _ => rfl⟩
    intro other
    by_cases same : other = id
    · subst same
      have at' := sound other
      rw [setSlot_slot_self]
      dsimp only
      rw [Function.update_self]
      have finished : (h.slot other).ended ≠ none := by
        intro unfinished
        rw [(at'.waiting hardEnd place).mp unfinished] at offered
        cases offered
      constructor
      · exact at'.logged
      · intro high
        rw [(at'.fresh high).1] at place
        cases place
      · exact fun _ wrong => by cases wrong
      · exact fun _ _ => ⟨finished, rfl⟩
      · have places := at'.places
        rw [offered, place] at places
        rw [places]
        cases o <;> rfl
      · intro some'
        have gone := at'.passed some'
        rw [place] at gone
        cases gone
      · exact at'.byOffer
      · exact at'.single
    · rw [setSlot_slot_of_ne h _ same]
      dsimp only
      rw [Function.update_of_ne same]
      exact sound other
  · have unfinished := ((sound id).waiting hardEnd place).mpr empty
    rw [result]
    refine ⟨?_, kept_of_slot rfl rfl rfl le_rfl fun done => absurd unfinished done⟩
    intro other
    by_cases same : other = id
    · subst same
      have at' := sound other
      rw [setSlot_slot_self]
      dsimp only
      rw [Function.update_self, entries_append_self]
      have passedNone : entries passed other = [] := by
        by_contra some'
        have gone := at'.passed some'
        rw [place] at gone
        cases gone
      have nothing : entries gifts other = [] := by
        rw [at'.places, empty, place, passedNone]
        rfl
      rw [nothing]
      constructor
      · rw [at'.logged, unfinished]
        rfl
      · intro high
        rw [(at'.fresh high).1] at place
        cases place
      · exact fun _ wrong => by cases wrong
      · exact fun _ _ => ⟨nofun, empty⟩
      · rw [passedNone, empty, List.append_nil]
        cases outcome with
        | offer o => exact absurd rfl (notOffer o)
        | expired => rfl
        | cancelled => rfl
        | teardown => rfl
        | drained => rfl
      · exact fun some' => absurd passedNone some'
      · exact fun some' => absurd rfl some'
      · exact Nat.zero_le 1
    · rw [setSlot_slot_of_ne h _ same]
      dsimp only
      rw [Function.update_of_ne same, entries_append_of_ne same]
      exact sound other

theorem kept_offer {id : Nat} {o : Offer Job Err} : Kept h (h.offer id o) := by
  by_cases unfinished : (h.slot id).ended = none
  · rw [offer_of_unfinished unfinished]
    exact kept_of_slot rfl rfl rfl le_rfl fun done => absurd unfinished done
  · rw [offer_of_ended unfinished]
    exact Kept.refl h

/-- Every walk over the slots keeps the waiters sound and what is settled of them. -/
theorem Sound.moves (moved : Moves N h given h') (sound : Sound N h gifts passed) :
    Sound N h' (gifts ++ given) passed ∧ Kept h h' := by
  induction moved with
  | stay =>
    rw [List.append_nil]
    exact ⟨sound, Kept.refl h⟩
  | nudge n moved ih =>
    cases n with
    | advance by' =>
      exact ⟨ih.1, ih.2.trans ⟨rfl, Nat.le_add_right _ _, fun _ => le_rfl, fun _ _ => rfl⟩⟩
    | look id cancelled live draining =>
      have step := ih.1.look id cancelled live draining
      exact ⟨step.1, ih.2.trans step.2⟩
  | bursts later moved ih =>
    exact ⟨ih.1, ih.2.trans ⟨rfl, le_rfl, fun _ => le_rfl, fun _ _ => rfl⟩⟩
  | mark id arrival busy moved later ih =>
    exact ⟨ih.1.mark, ih.2.trans (kept_of_slot rfl rfl rfl later fun _ => rfl)⟩
  | @jobs h' given id mine moved low unfinished some' fits ih =>
    refine ⟨?_, ih.2.trans kept_offer⟩
    apply ih.1.offer low unfinished [mine] (fun _ => rfl)
    · rw [← List.append_assoc, entries_append_self]
    · intro other differ
      rw [← List.append_assoc, entries_append_of_ne differ]
  | @other h' given id o moved low notJobs ih =>
    refine ⟨?_, ih.2.trans kept_offer⟩
    by_cases unfinished : (h'.slot id).ended = none
    · apply ih.1.offer low unfinished [] _ _ (List.append_nil _).symm (fun _ _ => rfl)
      intro hardEnd
      cases o with
      | jobs mine => exact absurd rfl (notJobs mine)
      | failed error => rfl
      | empty => rfl
    · rw [offer_of_ended unfinished]
      exact ih.1

end Sound

/-! ## The loops of the waker -/

theorem offer_waiter (h : Hall Job Err) (id : Nat) (o : Offer Job Err) :
    (h.offer id o).waiter = h.waiter := by
  unfold Hall.offer
  dsimp only
  split_ifs <;> rfl

theorem moves_waiter (moved : Moves N h given h') : h'.waiter = h.waiter := by
  induction moved with
  | stay => rfl
  | nudge n moved ih =>
    cases n with
    | advance by' => exact ih
    | look id cancelled live draining =>
      rw [← ih, Hall.nudge]
      rcases look_cases _ id cancelled live draining with
        same | ⟨_, _, _, _, result⟩ | ⟨_, _, _, _, _, _, _, result⟩
      · rw [same]
      · rw [result]
        rfl
      · rw [result]
        rfl
  | bursts later moved ih => exact ih
  | mark id arrival busy moved later ih => exact ih
  | jobs moved low unfinished some' fits ih => rw [offer_waiter, ih]
  | other moved low notJobs ih => rw [offer_waiter, ih]

theorem moves_collect {cap : Nat} {registered : Nat → Bool} {queue : Queue} {now : Nat}
    (fifo : List Nat) : ∀ (h : Hall Job Err) (batch : List Nat) (k : Nat) (owed : Bool),
      Moves N h [] (collect cap registered queue now fifo h batch k owed).1 := by
  induction fifo with
  | nil => exact fun h batch k owed => .stay
  | cons id rest ih =>
    intro h batch k owed
    unfold collect
    by_cases known : registered id = true
    · rw [if_pos known]
      dsimp only
      by_cases fit : (h.lock.waiter id).eligible (h.lock.slot id) queue now = true
      · rw [if_pos fit]
        split_ifs
        · exact moves_lock h
        · exact ((moves_lock h).mark id _ true le_rfl).then' (ih _ _ _ _)
      · rw [if_neg fit]
        exact (moves_lock h).then' (ih _ _ _ _)
    · rw [if_neg known]
      exact ih _ _ _ _

theorem moves_anyEligible {registered : Nat → Bool} {queue : Queue} {now : Nat} (fifo : List Nat) :
    ∀ h : Hall Job Err, Moves N h [] (anyEligible registered queue now fifo h).1 := by
  induction fifo with
  | nil => exact fun h => .stay
  | cons id rest ih =>
    intro h
    unfold anyEligible
    by_cases known : registered id = true
    · rw [if_pos known]
      dsimp only
      split_ifs
      · exact moves_lock h
      · exact (moves_lock h).then' (ih _)
    · rw [if_neg known]
      exact ih _

theorem moves_failOne {error : Err} {id : Nat} (low : Issued N id) (h : Hall Job Err) :
    Moves N h [] (failOne error h id) :=
  .other ((moves_lock h).mark id _ false le_rfl) low fun _ => nofun

theorem moves_dismissOne {registered : Nat → Bool} {id : Nat} (low : Issued N id) (h : Hall Job Err) :
    Moves N h [] (dismissOne registered h id) := by
  unfold dismissOne
  dsimp only
  split_ifs
  · exact moves_lock h
  · exact .other (moves_lock h) low fun _ => nofun
  · exact .stay

theorem moves_dismiss (st : Waker Job Err) (sweep : Sweep) (error : Err)
    (batch : ∀ id ∈ sweep.batch, Issued N id)
    (fifo : ∀ qs, st.queues sweep.queue = some qs → ∀ id ∈ qs.fifo, Issued N id) :
    Moves N st.hall [] (st.dismiss sweep error) := by
  have failed : Moves N st.hall [] (sweep.batch.foldl (failOne error) st.hall) :=
    moves_foldl (fun k id among => moves_failOne (batch id among) k) _
  unfold dismiss
  cases known : st.queues sweep.queue with
  | none => exact failed
  | some qs =>
    exact failed.then' (moves_foldl (fun k id among => moves_dismissOne (fifo qs known id among) k) _)

/-! ## Handing out jobs -/

/-- Jobs taken from the front and given away. -/
def Serves (N : Nat) (r r' : Serving Job Err) : Prop :=
  ∃ given, Moves N r.hall given r'.hall ∧ r'.offers = r.offers ++ given ∧
    r.jobs = given.flatMap Prod.snd ++ r'.jobs

theorem Serves.trans {r r' r'' : Serving Job Err} (first : Serves N r r')
    (second : Serves N r' r'') : Serves N r r'' := by
  obtain ⟨given, moved, offers, jobs⟩ := first
  obtain ⟨more, moved', offers', jobs'⟩ := second
  refine ⟨given ++ more, moved.trans moved', ?_, ?_⟩
  · rw [offers', offers, List.append_assoc]
  · rw [jobs, jobs', List.flatMap_append, List.append_assoc]

theorem Serves.clamp {r r' : Serving Job Err} (serves : Serves N r r')
    (clamps : ∀ id, 0 < (r.hall.waiter id).clamp) (id : Nat) :
    0 < (r'.hall.waiter id).clamp := by
  obtain ⟨given, moved, -⟩ := serves
  rw [moves_waiter moved]
  exact clamps id

/-- A turn that only moves through the slots. -/
theorem serves_of_moves {r r' : Serving Job Err} (moved : Moves N r.hall [] r'.hall)
    (offers : r'.offers = r.offers) (jobs : r'.jobs = r.jobs) : Serves N r r' :=
  ⟨[], moved, by rw [offers, List.append_nil], by rw [jobs]; rfl⟩

theorem serves_give {r : Serving Job Err} {id : Nat} (low : Issued N id)
    (unfinished : (r.hall.slot id).ended = none) (some' : r.jobs ≠ [])
    (clamp : 0 < (r.hall.waiter id).clamp) : Serves N r (r.give id) := by
  have length : 0 < r.jobs.length := List.length_pos_iff.mpr some'
  refine ⟨_, .jobs (.stay) low unfinished ?_ ?_, rfl, ?_⟩
  · intro none
    have short := congrArg List.length none
    rw [List.length_take, List.length_nil] at short
    omega
  · rw [List.length_take]
    omega
  · rw [List.nil_append, List.flatMap_singleton]
    exact (List.take_append_drop _ _).symm

theorem serves_serveOne {queue : Queue} {r : Serving Job Err} {id : Nat} (low : Issued N id)
    (clamps : ∀ id, 0 < (r.hall.waiter id).clamp) : Serves N r (serveOne queue r id) := by
  unfold serveOne
  extract_lets h w found s here
  have cleared : Moves N r.hall [] (h.setSlot id s) :=
    (moves_lock r.hall).mark id _ false le_rfl
  have unmarked : Serves N r { r with hall := h.setSlot id s } := serves_of_moves cleared rfl rfl
  cases ended : s.ended with
  | some e => exact serves_of_moves cleared rfl rfl
  | none =>
    dsimp only
    by_cases takes : 0 < min w.clamp r.jobs.length
    · rw [if_pos takes]
      apply unmarked.trans
      apply serves_give low
      · rw [setSlot_slot_self]
        exact ended
      · intro none
        have short : r.jobs.length = 0 := congrArg List.length none
        omega
      · exact unmarked.clamp clamps id
    · rw [if_neg takes]
      refine serves_of_moves ?_ rfl rfl
      by_cases arriving : here
      · rw [if_pos arriving, ← ended]
        exact (moves_lock r.hall).mark id _ false (Nat.le_succ _)
      · rw [if_neg arriving]
        exact cleared

theorem serves_batch (queue : Queue) {batch : List Nat} (low : ∀ id ∈ batch, Issued N id)
    (r : Serving Job Err) (clamps : ∀ id, 0 < (r.hall.waiter id).clamp) :
    Serves N r (batch.foldl (serveOne queue) r) := by
  induction batch generalizing r with
  | nil => exact serves_of_moves .stay rfl rfl
  | cons id rest ih =>
    have first : Serves N r (serveOne queue r id) :=
      serves_serveOne (low id List.mem_cons_self) clamps
    exact first.trans (ih (fun other among => low other (List.mem_cons_of_mem _ among)) _
      (first.clamp clamps))

theorem serves_reoffer {registered : Nat → Bool} {queue : Queue} {now : Nat} {fifo : List Nat}
    (low : ∀ id ∈ fifo, Issued N id) (r : Serving Job Err)
    (clamps : ∀ id, 0 < (r.hall.waiter id).clamp) :
    Serves N r (reoffer registered queue now fifo r) := by
  induction fifo generalizing r with
  | nil => exact serves_of_moves .stay rfl rfl
  | cons id rest ih =>
    have lower : ∀ other ∈ rest, Issued N other := fun other among =>
      low other (List.mem_cons_of_mem _ among)
    unfold reoffer
    by_cases done : r.jobs = []
    · rw [if_pos done]
      exact serves_of_moves .stay rfl rfl
    rw [if_neg done]
    by_cases known : registered id = true
    · rw [if_pos known]
      dsimp only
      have locked : Serves N r { r with hall := r.hall.lock } :=
        serves_of_moves (moves_lock r.hall) rfl rfl
      by_cases fit : (r.hall.lock.waiter id).eligible (r.hall.lock.slot id) queue now = true
      · rw [if_pos fit]
        have unfinished : (r.hall.lock.slot id).ended = none := by
          unfold Waiter.eligible Waiter.owed at fit
          simp only [Bool.and_eq_true, Option.isNone_iff_eq_none] at fit
          exact fit.2.1.1
        have gave : Serves N r (Serving.give { r with hall := r.hall.lock } id) :=
          locked.trans (serves_give (low id List.mem_cons_self) unfinished done
            (locked.clamp clamps id))
        exact gave.trans (ih lower _ (gave.clamp clamps))
      · rw [if_neg fit]
        exact locked.trans (ih lower _ (locked.clamp clamps))
    · rw [if_neg known]
      exact ih lower r clamps

theorem serves_handOut (st : Waker Job Err) (sweep : Sweep) (jobs : List Job) (read : Nat)
    (clamps : ∀ id, 0 < (st.hall.waiter id).clamp) (batch : ∀ id ∈ sweep.batch, Issued N id)
    (fifo : ∀ qs, st.queues sweep.queue = some qs → ∀ id ∈ qs.fifo, Issued N id) :
    Moves N st.hall (st.handOut sweep jobs read).offers (st.handOut sweep jobs read).hall ∧
      jobs = (st.handOut sweep jobs read).offers.flatMap Prod.snd ++
        (st.handOut sweep jobs read).jobs := by
  have all : Serves N
      { hall := st.hall
        jobs := jobs
        cause := none
        nextArrivals := []
        freed := []
        offers := [] }
      (st.handOut sweep jobs read) := by
    unfold handOut
    dsimp only
    have first := serves_batch sweep.queue batch
      { hall := st.hall
        jobs := jobs
        cause := none
        nextArrivals := []
        freed := []
        offers := [] } clamps
    cases known : st.queues sweep.queue with
    | none => exact first
    | some qs => exact first.trans (serves_reoffer (fifo qs known) _ (first.clamp clamps))
  obtain ⟨given, moved, offers, rest⟩ := all
  rw [List.nil_append] at offers
  rw [offers]
  exact ⟨moved, rest⟩

end FerroEngine.QueueWakerSlots
