import FerroEngine.TxFate

set_option autoImplicit false

/-! # One reply for every command -/

namespace FerroEngine.TxReplies

open LabelledRuns FateMapping TxTerminals CopyRequests TxCommands TxActor TxActorSteps
  TxActorSoundness TxFate
open AutocommitExec (Terminal QueryResult)
open SessionTeardown (TxEnd)

/-! ## What becomes of a request -/

/-- Once answered, a request goes only from its reply to its terminal. -/
def Follows (r q : Request) : Prop :=
  q.command = r.command ∧ (r.sent = true → q.sent = true) ∧ (isAnswered r.phase = true →
    q.phase = r.phase ∨
    (∃ reply, r.phase = .replied reply ∧ q.phase = .done (declare r.command reply)) ∨
    ∃ p, r.phase = .dropped ∧ q.phase = .done (.error p) ∧ isTeardown p)

theorem follows_refl (r : Request) : Follows r r :=
  ⟨rfl, id, fun _ => Or.inl rfl⟩

theorem follows_waiting {r q : Request} (command : q.command = r.command)
    (sent : r.sent = true → q.sent = true) (waiting : isAnswered r.phase = false) :
    Follows r q := by
  refine ⟨command, sent, ?_⟩
  intro answered
  rw [waiting] at answered
  cases answered

theorem follows_set {rs : List Request} {k j : Nat} {r r' q : Request} (found : rs[k]? = some r)
    (follows : Follows r r') (before : rs[j]? = some q) :
    ∃ q', (rs.set k r')[j]? = some q' ∧ Follows q q' := by
  by_cases same : j = k
  · rw [same] at before ⊢
    rw [found, Option.some.injEq] at before
    refine ⟨r', List.getElem?_set_self (List.getElem?_eq_some_iff.mp found).1, ?_⟩
    exact before ▸ follows
  · refine ⟨q, ?_, follows_refl q⟩
    rw [List.getElem?_set_ne (Ne.symm same)]
    exact before

theorem follows_drain (reason : TxEnd) (r : Request) : Follows r (drainRequest reason r) := by
  unfold drainRequest
  split
  · next queued =>
    have waiting : isAnswered r.phase = false := by
      rw [queued]
      rfl
    split
    · exact follows_waiting rfl id waiting
    · exact follows_waiting rfl id waiting
    · exact follows_waiting rfl id waiting
  · exact follows_refl r

theorem isAnswered_of_stage {phase : Phase} (answered : stage phase = .answered) :
    isAnswered phase = true := by
  cases phase with
  | replied reply => rfl
  | dropped => rfl
  | done terminal => rfl
  | _ => cases answered

theorem phase_of_queued {phase : Phase} (queued : stage phase = .queued) : phase = .queued := by
  cases phase with
  | queued => rfl
  | _ => cases queued

theorem waiting_of_look {s : State} {k : Nat} {r : Request} {st : Stage} {b : Bool}
    (found : s.requests[k]? = some r) (looks : look s k = some (st, b)) (other : st ≠ .answered) :
    isAnswered r.phase = false := by
  rw [Bool.eq_false_iff]
  intro answered
  have same := look_of_found found
  rw [looks, Option.some.injEq, Prod.mk.injEq] at same
  rw [stage_of_answered answered] at same
  exact other same.1

/-- No request is forgotten, and none gets a second answer. -/
theorem follows_step {s t : State} (serial : Serial s) (move : Move s t) {j : Nat} {q : Request}
    (before : s.requests[j]? = some q) : ∃ q', t.requests[j]? = some q' ∧ Follows q q' := by
  have stays : t.requests = s.requests → ∃ q', t.requests[j]? = some q' ∧ Follows q q' := by
    intro same
    rw [same]
    exact ⟨q, before, follows_refl q⟩
  cases move with
  | arrive r _ fresh same =>
    rw [same]
    refine ⟨q, ?_, follows_refl q⟩
    rw [List.getElem?_append_left (List.getElem?_eq_some_iff.mp before).1]
    exact before
  | refuse k r p found phase _ same =>
    rw [same]
    exact follows_set found (follows_waiting rfl id (by rw [phase]; rfl)) before
  | send k r found phase _ same =>
    rw [same]
    exact follows_set found (follows_waiting rfl (fun _ => rfl) (by rw [phase]; rfl)) before
  | declare k r reply found phase same =>
    rw [same]
    refine follows_set found ⟨rfl, id, ?_⟩ before
    intro _
    exact Or.inr (Or.inl ⟨reply, phase, rfl⟩)
  | recover k r p found phase teardown _ same =>
    rw [same]
    refine follows_set found ⟨rfl, id, ?_⟩ before
    intro _
    exact Or.inr (Or.inr ⟨p, phase, rfl, teardown⟩)
  | abort same => exact stays (by rw [same])
  | forget same => exact stays (by rw [same])
  | leave reason idle cut same => exact stays (by rw [same]; rfl)
  | take k rest r savepoints idle channel found same =>
    obtain ⟨queued, _⟩ := serial.head channel
    rw [same]
    exact follows_set found
      (follows_waiting rfl id (waiting_of_look found queued Stage.noConfusion)) before
  | decline k rest r idle channel found other same =>
    obtain ⟨queued, _⟩ := serial.head channel
    rw [same]
    exact follows_set found
      (follows_waiting rfl id (waiting_of_look found queued Stage.noConfusion)) before
  | dispatch k step running same => exact stays (by rw [same])
  | answer k step sent r phase tag running found answers =>
    have taken : look s k = some (.taken, true) := (serial.taken k).mpr ⟨step, sent, running⟩
    rw [answers.requests]
    exact follows_set found
      (follows_waiting rfl id (waiting_of_look found taken Stage.noConfusion)) before
  | goOn k step running same actor _ => exact stays same.requests
  | tearDown reason rolledBack tearing ended same => exact stays (by rw [same]; rfl)
  | drain reason closing ended same =>
    rw [same]
    refine ⟨drainRequest reason q, ?_, follows_drain reason q⟩
    unfold drainStep
    simp only
    rw [List.getElem?_map, before]
    rfl

/-! ## Teardown answers -/

/-- What the tag of an answer says of its request. -/
def Tagged (tag : Answer) (r : Request) : Prop :=
  match tag with
  | .result => isAnswered r.phase = true ∧ r.phase ≠ .dropped
  | .teardown => TellsTeardown r.command r.phase

def Typed (s : State) : Prop :=
  ∀ (k : Nat) (tag : Answer), (k, tag) ∈ s.answers → ∃ r, s.requests[k]? = some r ∧ Tagged tag r

theorem isAnswered_of_tagged {tag : Answer} {r : Request} (tagged : Tagged tag r) :
    isAnswered r.phase = true := by
  cases tag with
  | result => exact tagged.1
  | teardown =>
    have answered : ∀ phase, TellsTeardown r.command phase → isAnswered phase = true := by
      intro phase told
      cases phase with
      | replied reply => rfl
      | dropped => rfl
      | done terminal => rfl
      | _ => cases told
    exact answered r.phase tagged

theorem tagged_follows {tag : Answer} {r q : Request} (follows : Follows r q)
    (tagged : Tagged tag r) : Tagged tag q := by
  obtain ⟨command, _, moved⟩ := follows
  rcases moved (isAnswered_of_tagged tagged) with same | ⟨reply, before, after⟩ |
    ⟨p, before, after, teardown⟩
  · unfold Tagged at tagged ⊢
    rw [same, command]
    exact tagged
  · cases tag with
    | result =>
      unfold Tagged
      rw [after]
      exact ⟨rfl, Phase.noConfusion⟩
    | teardown =>
      unfold Tagged at tagged ⊢
      rw [before] at tagged
      rw [after]
      exact tagged
  · cases tag with
    | result => exact absurd before tagged.2
    | teardown =>
      unfold Tagged
      rw [after]
      exact ⟨p, rfl, teardown⟩

theorem typed_start : Typed State.start :=
  fun _ _ member => (by cases member)

theorem isTeardown_tornDown (reason : TxEnd) : isTeardown (tornDown reason) := by
  cases reason with
  | ended => exact Or.inr (Or.inr rfl)
  | abort => exact Or.inl rfl
  | deadline => exact Or.inl rfl

theorem tagged_drained {reason : TxEnd} {r : Request} (queued : r.phase = .queued) :
    Tagged .teardown (drainRequest reason r) := by
  unfold drainRequest
  rw [queued]
  simp only
  split
  · exact ⟨tornDown reason, rfl, isTeardown_tornDown reason⟩
  · exact ⟨tornDown reason, rfl, isTeardown_tornDown reason⟩
  · trivial

theorem tagged_answers {s t : State} {k : Nat} {r : Request} {phase : Phase} {tag : Answer}
    (answers : Answers s t k r phase tag) : Tagged tag { r with phase := phase } := by
  cases tag with
  | result =>
    refine ⟨isAnswered_of_tells answers.told, ?_⟩
    intro dropped
    have told := answers.told
    rw [show phase = .dropped from dropped] at told
    cases told
  | teardown => exact answers.teardown rfl

theorem typed_step {s t : State} (serial : Serial s) (typed : Typed s) (move : Move s t) :
    Typed t := by
  have keeps : ∀ (k : Nat) (tag : Answer), (k, tag) ∈ s.answers →
      ∃ r, t.requests[k]? = some r ∧ Tagged tag r := by
    intro k tag member
    obtain ⟨r, found, tagged⟩ := typed k tag member
    obtain ⟨q, found', follows⟩ := follows_step serial move found
    exact ⟨q, found', tagged_follows follows tagged⟩
  have stays : t.answers = s.answers → Typed t := by
    intro same k tag member
    rw [same] at member
    exact keeps k tag member
  have extends' : ∀ {k : Nat} {r' : Request} {tag : Answer}, k < s.requests.length →
      t.requests = s.requests.set k r' → t.answers = s.answers ++ [(k, tag)] → Tagged tag r' →
      Typed t := by
    intro k r' tag inside requests answers tagged j tag' member
    rw [answers] at member
    rcases List.mem_append.mp member with old | new
    · exact keeps j tag' old
    · rw [List.mem_singleton, Prod.mk.injEq] at new
      rw [new.1, new.2, requests]
      exact ⟨r', List.getElem?_set_self inside, tagged⟩
  cases move with
  | arrive r _ fresh same => exact stays (by rw [same])
  | refuse k r p found phase _ same => exact stays (by rw [same]; rfl)
  | send k r found phase _ same => exact stays (by rw [same])
  | declare k r reply found phase same => exact stays (by rw [same]; rfl)
  | recover k r p found phase _ _ same => exact stays (by rw [same]; rfl)
  | abort same => exact stays (by rw [same])
  | forget same => exact stays (by rw [same])
  | leave reason idle cut same => exact stays (by rw [same]; rfl)
  | take k rest r savepoints idle channel found same => exact stays (by rw [same])
  | decline k rest r idle channel found other same =>
    have tagged : Tagged .result { r with phase := .replied (.ctl .unknownSavepoint) } :=
      ⟨rfl, Phase.noConfusion⟩
    exact extends' (List.getElem?_eq_some_iff.mp found).1 (by rw [same]; rfl) (by rw [same]; rfl)
      tagged
  | dispatch k step running same => exact stays (by rw [same])
  | answer k step sent r phase tag running found answers =>
    exact extends' (List.getElem?_eq_some_iff.mp found).1 answers.requests answers.answers
      (tagged_answers answers)
  | goOn k step running same actor _ => exact stays same.answers
  | tearDown reason rolledBack tearing ended same => exact stays (by rw [same]; rfl)
  | drain reason closing ended same =>
    intro k tag member
    rw [same] at member
    rcases List.mem_append.mp member with old | new
    · exact keeps k tag old
    · obtain ⟨j, inside, pair⟩ := List.mem_map.mp new
      rw [Prod.mk.injEq] at pair
      rw [← pair.1, ← pair.2]
      have queued := (serial.queued j).mp inside
      unfold look at queued
      rw [Option.map_eq_some_iff] at queued
      obtain ⟨r, found, looks⟩ := queued
      refine ⟨drainRequest reason r, ?_, tagged_drained (phase_of_queued (Prod.mk.inj looks).1)⟩
      rw [same]
      unfold drainStep
      simp only
      rw [List.getElem?_map, found]
      rfl

theorem reached_typed {labels : List Label} {s : State}
    (reached : run step State.start labels = some s) : Serial s ∧ Typed s := by
  have keep : ∀ {s t : State} {label : Label}, Serial s ∧ Typed s → step s label = some t →
      Serial t ∧ Typed t := by
    intro s t label holds moved
    have move := step_moves moved
    exact ⟨serial_step holds.1 move, typed_step holds.1 holds.2 move⟩
  exact run_always step keep ⟨serial_start, typed_start⟩ reached

/-! ## Continuations -/

theorem follows_trans {r q p : Request} (first : Follows r q) (second : Follows q p) :
    Follows r p := by
  obtain ⟨command, sent, moved⟩ := first
  obtain ⟨command', sent', moved'⟩ := second
  refine ⟨command'.trans command, fun yes => sent' (sent yes), ?_⟩
  have ends : ∀ terminal, q.phase = .done terminal → p.phase = .done terminal := by
    intro terminal done
    rcases moved' (by rw [done]; rfl) with same | ⟨_, replied, _⟩ | ⟨_, dropped, _⟩
    · rw [same, done]
    · rw [done] at replied
      cases replied
    · rw [done] at dropped
      cases dropped
  intro answered
  rcases moved answered with same | ⟨reply, before, after⟩ | ⟨payload, before, after, teardown⟩
  · rw [← same, ← command]
    exact moved' (by rw [same]; exact answered)
  · exact Or.inr (Or.inl ⟨reply, before, ends _ after⟩)
  · exact Or.inr (Or.inr ⟨payload, before, ends _ after, teardown⟩)

theorem follows_run {s t : State} {labels : List Label} (serial : Serial s)
    (reached : run step s labels = some t) {k : Nat} {r : Request}
    (found : s.requests[k]? = some r) : ∃ q, t.requests[k]? = some q ∧ Follows r q := by
  have keep : ∀ {u v : State} {label : Label},
      (Serial u ∧ ∃ q, u.requests[k]? = some q ∧ Follows r q) → step u label = some v →
      Serial v ∧ ∃ q, v.requests[k]? = some q ∧ Follows r q := by
    intro u v label holds moved
    obtain ⟨serial', q, found', follows⟩ := holds
    have move := step_moves moved
    obtain ⟨q', found'', follows'⟩ := follows_step serial' move found'
    exact ⟨serial_step serial' move, q', found'', follows_trans follows follows'⟩
  exact (run_always step keep ⟨serial, r, found, follows_refl r⟩ reached).2

/-- A sent command that is neither waiting nor in flight has been answered. -/
theorem answered_of_gone {s : State} (serial : Serial s) (gone : s.actor = .gone) {k : Nat}
    {r : Request} (found : s.requests[k]? = some r) (sent : r.sent = true) :
    isAnswered r.phase = true := by
  have looks := look_of_found found
  rw [sent] at looks
  cases phase : r.phase with
  | resolved =>
    rw [phase] at looks
    have unsent := serial.unsent k true looks
    cases unsent
  | queued =>
    rw [phase] at looks
    have member := (serial.queued k).mpr looks
    rw [serial.closed (serial.gone gone)] at member
    cases member
  | taken =>
    rw [phase] at looks
    obtain ⟨_, _, running⟩ := (serial.taken k).mp looks
    rw [gone] at running
    cases running
  | replied reply => rfl
  | dropped => rfl
  | done terminal => rfl

theorem gone_of_closing {s : State} (fated : Fated s) (closing : s.actor = .closing) :
    CanReach step (fun t => t.actor = .gone) s := by
  cases ended : s.ended with
  | none =>
    have live := fated.live.mp ended
    rw [closing] at live
    cases live
  | some reason =>
    have moved : step s .drains = some (drainStep s reason) := by
      unfold step actorStep
      simp only [closing, ended]
      rfl
    exact .next moved (.here rfl)

theorem gone_of_tearing {s : State} (fated : Fated s) (tearing : s.actor = .tearing) :
    CanReach step (fun t => t.actor = .gone) s := by
  cases ended : s.ended with
  | none =>
    have live := fated.live.mp ended
    rw [tearing] at live
    cases live
  | some reason =>
    have moved : step s (.tearsDown false) = some (tearDownStep s reason false) := by
      unfold step actorStep
      simp only [tearing, ended]
      rfl
    exact .next moved (gone_of_closing (fated_step fated (step_moves moved)) rfl)

theorem gone_of_idle {s : State} (fated : Fated s) (idle : s.actor = .idle) :
    CanReach step (fun t => t.actor = .gone) s := by
  cases abort : s.abort with
  | true =>
    have moved : step s (.ends .abort) = some (s.leave .abort) := by
      unfold step actorStep
      simp only [idle, endStep]
      rw [if_pos (Or.inl abort)]
    exact .next moved (gone_of_tearing (fated_step fated (step_moves moved)) rfl)
  | false =>
    have moved : step s (.ends .deadline) = some (s.leave .deadline) := by
      unfold step actorStep
      simp only [idle, endStep]
      rw [abort]
      rfl
    exact .next moved (gone_of_tearing (fated_step fated (step_moves moved)) rfl)

/-- A guard refuses, or the connection is lost. -/
theorem canAnswer_error (link sent : Bool) : ∃ e, canAnswer link sent (some e) = true := by
  cases sent with
  | true => exact ⟨.connectionLost, rfl⟩
  | false => exact ⟨.unsupported "", rfl⟩

theorem runningStep_of_found {s : State} {k i : Nat} {sent : Bool} {r : Request} {label : Label}
    (running : s.actor = .running k i sent) (found : s.requests[k]? = some r)
    (other : label ≠ .dispatch) : actorStep s label = commandStep s k i sent r label := by
  unfold actorStep
  rw [running]
  simp only
  unfold runningStep
  split
  · exact absurd rfl other
  · rw [found]

/-- The command in flight comes to an end. -/
theorem commandStep_ends (s : State) (k i : Nat) (sent : Bool) (r : Request) :
    ∃ label t, label ≠ .dispatch ∧ (∀ u, step u label = actorStep u label) ∧
      commandStep s k i sent r label = some t ∧ (t.actor = .idle ∨ t.actor = .tearing) := by
  unfold commandStep
  obtain ⟨e, can⟩ := canAnswer_error s.link sent
  split
  · exact ⟨.interrupts .deadline s.status, _, Label.noConfusion, fun _ => rfl, rfl, Or.inr rfl⟩
  · refine ⟨.streams (.stopped .aborted) s.status, _, Label.noConfusion, fun _ => rfl, rfl, ?_⟩
    right
    unfold produced
    simp only
    split_ifs
    · rfl
    · rfl
  · exact ⟨.copies (.ok []) .intact false s.status, _, Label.noConfusion, fun _ => rfl, rfl,
      Or.inl rfl⟩
  · exact ⟨.interrupts .deadline s.status, _, Label.noConfusion, fun _ => rfl, rfl, Or.inr rfl⟩
  · exact ⟨.controls (.error e) s.status, _, Label.noConfusion, fun _ => rfl, if_pos can, Or.inr rfl⟩
  · exact ⟨.controls (.error e) s.status, _, Label.noConfusion, fun _ => rfl, if_pos can, Or.inr rfl⟩
  all_goals
    exact ⟨.controls (.error e) s.status, _, Label.noConfusion, fun _ => rfl, if_pos can, Or.inl rfl⟩

theorem gone_of_running {s : State} (serial : Serial s) (fated : Fated s) {k i : Nat} {sent : Bool}
    (running : s.actor = .running k i sent) : CanReach step (fun t => t.actor = .gone) s := by
  have taken : look s k = some (.taken, true) := (serial.taken k).mpr ⟨i, sent, running⟩
  unfold look at taken
  rw [Option.map_eq_some_iff] at taken
  obtain ⟨r, found, _⟩ := taken
  obtain ⟨label, t, other, actors, ends, actor⟩ := commandStep_ends s k i sent r
  have moved : step s label = some t := by
    rw [actors, ← ends]
    exact runningStep_of_found running found other
  have fated' := fated_step fated (step_moves moved)
  rcases actor with idle | tearing
  · exact .next moved (gone_of_idle fated' idle)
  · exact .next moved (gone_of_tearing fated' tearing)

/-- The actor of every state can come to its end. -/
theorem canReach_gone {s : State} (serial : Serial s) (fated : Fated s) :
    CanReach step (fun t => t.actor = .gone) s := by
  cases actor : s.actor with
  | idle => exact gone_of_idle fated actor
  | running k i sent => exact gone_of_running serial fated actor
  | tearing => exact gone_of_tearing fated actor
  | closing => exact gone_of_closing fated actor
  | gone => exact .here actor

/-- The commands below `n` have their terminals. -/
def Settled (n : Nat) (s : State) : Prop :=
  ∀ (k : Nat) (r : Request), k < n → s.requests[k]? = some r → r.sent = true →
    ∃ terminal, r.phase = .done terminal

theorem settled_declared {s : State} {n : Nat} {r : Request} {terminal : Terminal}
    (settled : Settled n s) (found : s.requests[n]? = some r) :
    Settled (n + 1) (s.setPhase n r (.done terminal)) := by
  intro k q below found' sent
  unfold State.setPhase at found'
  simp only at found'
  by_cases same : k = n
  · rw [same, List.getElem?_set_self (List.getElem?_eq_some_iff.mp found).1,
      Option.some.injEq] at found'
    exact ⟨terminal, by rw [← found']⟩
  · rw [List.getElem?_set_ne (Ne.symm same)] at found'
    exact settled k q (by omega) found' sent

theorem settled_succ {s : State} {n : Nat} (settled : Settled n s)
    (done : ∀ r, s.requests[n]? = some r → r.sent = true → ∃ terminal, r.phase = .done terminal) :
    Settled (n + 1) s := by
  intro k r below found sent
  by_cases same : k = n
  · rw [same] at found
    exact done r found sent
  · exact settled k r (by omega) found sent

/-- The handlers of a finished transaction can declare all their terminals. -/
theorem canReach_settled {s : State} (serial : Serial s) (gone : s.actor = .gone) (n : Nat) :
    CanReach step (fun t => (Serial t ∧ t.actor = .gone ∧
      t.requests.length = s.requests.length) ∧ Settled n t) s := by
  induction n with
  | zero => exact .here ⟨⟨serial, gone, rfl⟩, fun k r below => absurd below (Nat.not_lt_zero k)⟩
  | succ n ih =>
    refine ih.trans ?_
    intro t holds
    obtain ⟨⟨serial', gone', same⟩, settled⟩ := holds
    by_cases done : ∀ r, t.requests[n]? = some r → r.sent = true → ∃ terminal, r.phase = .done terminal
    · exact .here ⟨⟨serial', gone', same⟩, settled_succ settled done⟩
    · push Not at done
      obtain ⟨r, found, sent, undone⟩ := done
      have answered := answered_of_gone serial' gone' found sent
      obtain ⟨terminal, moved⟩ : ∃ terminal,
          step t (.declares n) = some (t.setPhase n r (.done terminal)) := by
        obtain ⟨command, phase, sent'⟩ := r
        unfold step declareStep
        simp only
        rw [found]
        cases phase with
        | replied reply => exact ⟨_, rfl⟩
        | dropped => exact ⟨_, rfl⟩
        | done terminal => exact absurd rfl (undone terminal)
        | resolved => cases answered
        | queued => cases answered
        | taken => cases answered
      have length : (t.setPhase n r (.done terminal)).requests.length = s.requests.length := by
        rw [← same]
        exact List.length_set
      refine .next moved (.here ⟨⟨serial_step serial' (step_moves moved), gone', length⟩, ?_⟩)
      exact settled_declared settled found

/-- From every state reached, all commands can get their terminals. -/
theorem canReach_replied {labels : List Label} {s : State}
    (reached : run step State.start labels = some s) :
    CanReach step (fun t => t.actor = .gone ∧ ∀ (k : Nat) (r : Request),
      t.requests[k]? = some r → r.sent = true → ∃ terminal, r.phase = .done terminal) s := by
  obtain ⟨serial, fated⟩ := reached_sound reached
  obtain ⟨more, t, continued, gone⟩ := canReach_gone serial fated
  have reached' : run step State.start (labels ++ more) = some t := by
    rw [run_append, reached]
    exact continued
  have first : CanReach step (fun u => u = t) s := ⟨more, t, continued, rfl⟩
  refine first.trans ?_
  intro u same
  rw [same]
  refine (canReach_settled (reached_sound reached').1 gone t.requests.length).trans ?_
  intro v holds
  obtain ⟨⟨_, gone', length⟩, settled⟩ := holds
  refine .here ⟨gone', ?_⟩
  intro k r found sent
  refine settled k r ?_ found sent
  rw [← length]
  exact (List.getElem?_eq_some_iff.mp found).1

/-- Every command that was sent to the actor gets exactly one reply: no command is listed twice
among the answers, an answered command keeps its answer in every continuation, the answer is its
own result or tells the end of the transaction, no command is left when the actor has gone, and
from every state reached all of them can get their terminals. -/
theorem command_replied_once {labels : List Label} {s : State}
    (reached : run step State.start labels = some s) :
    (s.answers.map Prod.fst).Nodup ∧
    (∀ (k : Nat) (tag : Answer), (k, tag) ∈ s.answers →
      ∃ r, s.requests[k]? = some r ∧ r.sent = true ∧ Tagged tag r) ∧
    (∀ (k : Nat) (r : Request), s.requests[k]? = some r → r.sent = true →
      (isAnswered r.phase = true ↔ k ∈ s.answers.map Prod.fst)) ∧
    (s.actor = .gone → ∀ (k : Nat) (r : Request), s.requests[k]? = some r → r.sent = true →
      k ∈ s.answers.map Prod.fst) ∧
    (∀ (more : List Label) (t : State), run step s more = some t →
      ∀ (k : Nat) (r : Request), s.requests[k]? = some r →
        ∃ q, t.requests[k]? = some q ∧ Follows r q) ∧
    ∃ more t, run step s more = some t ∧ t.actor = .gone ∧
      ∀ (k : Nat) (r : Request), t.requests[k]? = some r → r.sent = true →
        ∃ terminal, r.phase = .done terminal := by
  obtain ⟨serial, typed⟩ := reached_typed reached
  have listed : ∀ (k : Nat) (r : Request), s.requests[k]? = some r → r.sent = true →
      (isAnswered r.phase = true ↔ k ∈ s.answers.map Prod.fst) := by
    intro k r found sent
    rw [serial.answered, look_of_found found, sent]
    refine ⟨fun answered => by rw [stage_of_answered answered], ?_⟩
    intro looks
    rw [Option.some.injEq, Prod.mk.injEq] at looks
    exact isAnswered_of_stage looks.1
  refine ⟨serial.answers, ?_, listed, ?_, ?_, ?_⟩
  · intro k tag member
    obtain ⟨r, found, tagged⟩ := typed k tag member
    refine ⟨r, found, ?_, tagged⟩
    have looks := (serial.answered k).mp (List.mem_map_of_mem (f := Prod.fst) member)
    rw [look_of_found found, Option.some.injEq, Prod.mk.injEq] at looks
    exact looks.2
  · intro gone k r found sent
    exact (listed k r found sent).mp (answered_of_gone serial gone found sent)
  · intro more t continued k r found
    exact follows_run serial continued found
  · exact canReach_replied reached

/-- A deadline under an EXEC, with a stream and a `COMMIT` in the channel. -/
def crowded : List Label :=
  [.arrives (.exec false 0), .sends 0, .takes, .arrives (.execStreamed true), .sends 1,
    .arrives .commit, .sends 2, .dispatch, .interrupts .deadline .failed, .tearsDown true, .drains]

theorem command_replied_once_on_sample :
    ∃ s, run step State.start crowded = some s ∧ s.actor = .gone ∧
      s.answers = [(0, .teardown), (1, .teardown), (2, .teardown)] ∧
      (∀ (k : Nat) (tag : Answer), (k, tag) ∈ s.answers →
        ∃ r, s.requests[k]? = some r ∧ r.sent = true ∧ Tagged tag r) ∧
      (s.answers.map Prod.fst).Nodup ∧
      ∃ more t, run step s more = some t ∧ t.actor = .gone ∧
        ∀ (k : Nat) (r : Request), t.requests[k]? = some r → r.sent = true →
          ∃ terminal, r.phase = .done terminal := by
  have reached : run step State.start crowded = some ((run step State.start crowded).get rfl) := rfl
  have once := command_replied_once reached
  exact ⟨_, reached, rfl, rfl, once.2.1, once.1, once.2.2.2.2.2⟩

end FerroEngine.TxReplies
