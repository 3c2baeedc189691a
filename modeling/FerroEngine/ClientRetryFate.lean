import FerroEngine.ClientRetry

set_option autoImplicit false

/-! # The fate of a call of several attempts

The loop computes a fate for each attempt, and the caller is told about all of them.
-/

namespace FerroEngine.ClientRetryFate

open ClientRetry

variable {α : Type}

/-! ## What an attempt leaves behind -/

def reaches (c : Client) (a : Attempt α) : Bool :=
  (requestSession c false a).isNone

/-- The request frame was completely written. -/
def written (c : Client) (a : Attempt α) : Bool :=
  reaches c a && match a.send with
    | .submitLost loss => loss.wasSent
    | .parked _ | .reentrant _ => false
    | .awaitLost _ | .undecodable _ | .terminal _ => true

def lossUnknown (loss : Loss) : Bool :=
  loss.wasSent && match loss.server with
    | none => true
    | some payload => decide (payload.branch = branchIndeterminate)

/-- The frame was completely written, and nothing says whether the statement was applied. -/
def unknown (c : Client) (a : Attempt α) : Bool :=
  reaches c a && match a.send with
    | .submitLost loss | .awaitLost loss => lossUnknown loss
    | .terminal (.error payload) => decide (payload.branch = branchIndeterminate)
    | _ => false

def succeeded (c : Client) (a : Attempt α) : Bool :=
  reaches c a && match a.send with
    | .terminal (.ok _) => true
    | _ => false

/-- The session can carry another attempt. -/
def recovers (a : Attempt α) : Bool :=
  match a.send with
  | .submitLost _ | .awaitLost _ => decide (a.reconnect = .fresh)
  | _ => true

/-- The branches and the unsent flags are true, and every terminal decodes. -/
structure Truthful (c : Client) (a : Attempt α) : Prop where
  applied : a.applied = true → unknown c a = true ∨ succeeded c a = true
  sent : ∀ loss, a.send = .awaitLost loss → loss.wasSent = true
  decodes : ∀ message, a.send ≠ .undecodable message

def licensed (c : Client) (byId : Option ManifestQuery) : Bool :=
  match byId with
  | some query => query.idempotent && c.policy.retryIdempotentWrites
  | none => false

/-- The promise to the caller about all the attempts of one call. -/
structure Sound (c : Client) (byId : Option ManifestQuery) (made : Call α) : Prop where
  once : licensed c byId = false → made.1.countP (written c) ≤ 1
  mild : ∀ payload, made.2 = .error (.retryable payload) ∨ made.2 = .error (.nonRetryable payload) →
    ∀ a ∈ made.1, a.applied = false
  unknown : ∀ before a after, made.1 = before ++ a :: after → unknown c a = true →
    (∀ b ∈ after, succeeded c b = false) →
      ∃ payload cause, made.2 = .error (.indeterminate payload cause)

/-! ## One attempt of a write -/

/-- The attempt is one that the licence sends again. -/
def resent (c : Client) (byId : Option ManifestQuery) (a : Attempt α) : Bool :=
  c.resilient && licensed c byId && unknown c a && recovers a

/-- How a call ends with this attempt. -/
def final (c : Client) (a : Attempt α) : Except Thrown α :=
  (attempt c false none a none).2

theorem mayRetryException_write (retryReads : Bool) (ex : Thrown) :
    mayRetryException retryReads ex false (opKindOf false) = false := by
  simp [mayRetryException, mayRetry, opKindOf]

def isIndeterminate : Thrown → Bool
  | .indeterminate _ _ => true
  | _ => false

theorem idempotentLicence_eq (c : Client) (byId : Option ManifestQuery) (ex : Thrown) :
    idempotentLicence c.policy ex byId = (licensed c byId && isIndeterminate ex) := by
  cases byId with
  | none => rfl
  | some query => cases ex <;> simp [idempotentLicence, licensed, isIndeterminate]

theorem fromErrorPayload_indeterminate (payload : ErrorPayload) :
    isIndeterminate (fromErrorPayload payload) = decide (payload.branch = branchIndeterminate) := by
  rw [fromErrorPayload]
  split
  · rename_i retryable
    rw [retryable]
    rfl
  · split
    · rename_i indeterminate
      rw [indeterminate]
      rfl
    · rename_i other
      rw [decide_eq_false other]
      rfl

/-- A lost write is indeterminate exactly when its fate is unknown. -/
theorem lossFate_indeterminate (a : Attempt α) (loss : Loss) :
    isIndeterminate (lossFate false a loss) = lossUnknown loss := by
  rw [lossFate, lossUnknown]
  unfold classifyLoss
  cases sent : loss.wasSent with
  | false => rfl
  | true =>
    cases server : loss.server with
    | none => rfl
    | some payload => exact fromErrorPayload_indeterminate payload

theorem attempt_none (c : Client) (byId : Option ManifestQuery) (a : Attempt α) :
    attempt c false byId a none = ([a], final c a) := by
  have byId_unread : attempt c false byId a none = attempt c false none a none := rfl
  rw [byId_unread, final, attempt]
  split
  · rfl
  · split <;> rfl

theorem lostAttempt_some {c : Client} {byId : Option ManifestQuery} {a : Attempt α} {loss : Loss}
    (reached : reaches c a = true) (send : a.send = .submitLost loss ∨ a.send = .awaitLost loss)
    (rest : Call α) :
    lostAttempt c false byId a (some rest) loss =
      if resent c byId a then (a :: rest.1, rest.2) else ([a], .error (lossFate false a loss)) := by
  have fate : unknown c a = isIndeterminate (lossFate false a loss) := by
    rw [lossFate_indeterminate, unknown, reached]
    rcases send with send | send <;> rw [send] <;> rfl
  have recovers : recovers a = decide (a.reconnect = .fresh) := by
    rw [ClientRetryFate.recovers]
    rcases send with send | send <;> rw [send]
  rw [lostAttempt, mayRetryException_write, idempotentLicence_eq, resent, fate, recovers,
    Bool.and_false, if_neg Bool.false_ne_true, ← Bool.and_assoc]
  cases c.resilient && licensed c byId && isIndeterminate (lossFate false a loss) with
  | false => rfl
  | true =>
    cases a.reconnect with
    | fresh => rfl
    | fails ex => rfl

theorem erredAttempt_some (c : Client) (byId : Option ManifestQuery) (a : Attempt α) (ex : Thrown)
    (rest : Call α) :
    erredAttempt c false byId a (some rest) ex =
      if c.resilient && licensed c byId && isIndeterminate ex then (a :: rest.1, rest.2)
      else ([a], .error ex) := by
  rw [erredAttempt, mayRetryException_write, idempotentLicence_eq, Bool.false_or, Bool.and_assoc]

/-- An attempt of a write is sent again under the licence, or the call ends with it. -/
theorem attempt_some (c : Client) (byId : Option ManifestQuery) (a : Attempt α) (rest : Call α) :
    attempt c false byId a (some rest) =
      if resent c byId a then (a :: rest.1, rest.2) else ([a], final c a) := by
  cases reached : requestSession c false a with
  | some ex =>
    have stays : resent c byId a = false := by
      rw [resent, unknown, reaches, reached]
      simp
    rw [stays, final, attempt, attempt, reached]
    rfl
  | none =>
    have reaches : reaches c a = true := by
      rw [ClientRetryFate.reaches, reached]
      rfl
    rw [final, attempt, attempt, reached]
    dsimp only
    cases send : a.send with
    | submitLost loss => exact lostAttempt_some reaches (.inl send) rest
    | awaitLost loss => exact lostAttempt_some reaches (.inr send) rest
    | parked message =>
      have stays : resent c byId a = false := by simp [resent, unknown, send]
      rw [stays]
      rfl
    | reentrant message =>
      have stays : resent c byId a = false := by simp [resent, unknown, send]
      rw [stays]
      rfl
    | undecodable message =>
      have stays : resent c byId a = false := by simp [resent, unknown, send]
      rw [stays]
      rfl
    | terminal outcome =>
      cases outcome with
      | ok decoded =>
        have stays : resent c byId a = false := by simp [resent, unknown, send]
        rw [stays]
        rfl
      | cancelled =>
        have stays : resent c byId a = false := by simp [resent, unknown, send]
        rw [stays]
        dsimp only
        rw [erredAttempt_some]
        simp [isIndeterminate, fromOutcome, erredAttempt]
      | error payload =>
        have same : resent c byId a =
            (c.resilient && licensed c byId && isIndeterminate (fromErrorPayload payload)) := by
          rw [resent, unknown, recovers, reaches, send, fromErrorPayload_indeterminate]
          simp
        rw [same]
        dsimp only
        rw [erredAttempt_some]
        rfl

/-! ## The last attempt -/

def endsUnsure : Except Thrown α → Bool
  | .error ex => isIndeterminate ex
  | .ok _ => false

def endsOk : Except Thrown α → Bool
  | .error _ => false
  | .ok _ => true

theorem endsUnsure_iff (result : Except Thrown α) :
    endsUnsure result = true ↔ ∃ payload cause, result = .error (.indeterminate payload cause) := by
  constructor
  · intro unsure
    match result with
    | .error (.indeterminate payload cause) => exact ⟨payload, cause, rfl⟩
  · rintro ⟨payload, cause, rfl⟩
    rfl

theorem requestSession_sure {c : Client} {a : Attempt α} {ex : Thrown}
    (failed : requestSession c false a = some ex) : isIndeterminate ex = false := by
  rw [requestSession] at failed
  split at failed
  · split at failed
    · cases failed
    · cases failed
    · cases failed
      rfl
    · cases failed
      rfl
  · cases failed

/-- The last attempt tells its own fate. -/
theorem final_fate (c : Client) (a : Attempt α) :
    endsUnsure (final c a) = unknown c a ∧ endsOk (final c a) = succeeded c a := by
  rw [final, attempt]
  cases reached : requestSession c false a with
  | some ex =>
    have none : reaches c a = false := by rw [reaches, reached]; rfl
    rw [unknown, succeeded, none]
    exact ⟨requestSession_sure reached, rfl⟩
  | none =>
    have reaches : reaches c a = true := by rw [ClientRetryFate.reaches, reached]; rfl
    rw [unknown, succeeded, reaches]
    cases a.send with
    | submitLost loss => exact ⟨lossFate_indeterminate a loss, rfl⟩
    | awaitLost loss => exact ⟨lossFate_indeterminate a loss, rfl⟩
    | parked message => exact ⟨rfl, rfl⟩
    | reentrant message => exact ⟨rfl, rfl⟩
    | undecodable message => exact ⟨rfl, rfl⟩
    | terminal outcome =>
      cases outcome with
      | ok decoded => exact ⟨rfl, rfl⟩
      | cancelled => exact ⟨rfl, rfl⟩
      | error payload => exact ⟨fromErrorPayload_indeterminate payload, rfl⟩

/-! ## The loop -/

/-- An attempt that follows one sent again succeeds or is of unknown fate itself. -/
def Settles (c : Client) (byId : Option ManifestQuery) (env : Nat → Attempt α) (left : Nat) : Prop :=
  ∀ i, i < left → (∀ j ≤ i, resent c byId (env j) = true) →
    succeeded c (env (i + 1)) = true ∨ unknown c (env (i + 1)) = true

/-- The loop makes attempts up to the first that is not sent again. -/
theorem attempts_eq (c : Client) (byId : Option ManifestQuery) (env : Nat → Attempt α)
    (left n : Nat) :
    ∃ k, k ≤ left ∧ (∀ j < k, resent c byId (env (n + j)) = true) ∧
      (k < left → resent c byId (env (n + k)) = false) ∧
      attempts c false byId env left n =
        ((List.range (k + 1)).map (fun j => env (n + j)), final c (env (n + k))) := by
  induction left generalizing n with
  | zero =>
    refine ⟨0, Nat.le_refl 0, fun j impossible => absurd impossible (Nat.not_lt_zero j),
      fun impossible => absurd impossible (Nat.not_lt_zero 0), ?_⟩
    rw [attempts, attempt_none]
    rfl
  | succ left ih =>
    rw [attempts, attempt_some]
    by_cases again : resent c byId (env n) = true
    · obtain ⟨k, le, before, stops, made⟩ := ih (n + 1)
      refine ⟨k + 1, Nat.succ_le_succ le, ?_, ?_, ?_⟩
      · intro j less
        cases j with
        | zero => exact again
        | succ j =>
          have here := before j (Nat.lt_of_succ_lt_succ less)
          rwa [Nat.add_right_comm] at here
      · intro less
        have here := stops (Nat.lt_of_succ_lt_succ less)
        rwa [Nat.add_right_comm] at here
      · rw [if_pos again, made, List.range_succ_eq_map (n := k + 1), List.map_cons, List.map_map]
        have shift : ∀ j, n + 1 + j = n + (j + 1) := by
          intro j
          omega
        simp only [Function.comp_def, shift, Nat.add_zero]
    · refine ⟨0, Nat.zero_le _, fun j impossible => absurd impossible (Nat.not_lt_zero j),
        fun _ => Bool.eq_false_iff.mpr again, ?_⟩
      rw [if_neg again]
      rfl

/-! ## What the caller is told -/

theorem not_succeeded_of_unknown {c : Client} {a : Attempt α} (unsure : unknown c a = true) :
    succeeded c a = false := by
  rw [unknown, Bool.and_eq_true] at unsure
  rw [succeeded, unsure.1, Bool.true_and]
  split
  · rename_i decoded send
    have never := unsure.2
    rw [send] at never
    cases never
  · rfl

theorem resent_unknown {c : Client} {byId : Option ManifestQuery} {a : Attempt α}
    (again : resent c byId a = true) : licensed c byId = true ∧ unknown c a = true := by
  rw [resent, Bool.and_eq_true, Bool.and_eq_true, Bool.and_eq_true] at again
  exact ⟨again.1.1.2, again.1.2⟩

theorem last_of_append {pre before after : List (Attempt α)} {last a : Attempt α}
    (same : pre ++ [last] = before ++ a :: after) :
    (after = [] ∧ a = last ∧ before = pre) ∨ (last ∈ after ∧ pre ≠ []) := by
  rcases List.eq_nil_or_concat after with rfl | ⟨front, z, rfl⟩
  · have ends := List.append_inj' same rfl
    exact .inl ⟨rfl, (List.cons.inj ends.2).1.symm, ends.1.symm⟩
  · rw [List.concat_eq_append, ← List.cons_append, ← List.append_assoc] at same
    have ends := List.append_inj' same rfl
    refine .inr ⟨?_, ?_⟩
    · rw [List.concat_eq_append, (List.cons.inj ends.2).1]
      exact List.mem_append_right _ (List.mem_singleton_self z)
    · rw [ends.1]
      simp

/-- A call whose attempts but the last were sent again is sound exactly when the last settles. -/
theorem sound_chain {c : Client} {byId : Option ManifestQuery} {pre : List (Attempt α)}
    {last : Attempt α} (truthful : Truthful c last)
    (sent : ∀ a ∈ pre, resent c byId a = true) :
    Sound c byId (pre ++ [last], final c last) ↔
      pre = [] ∨ succeeded c last = true ∨ unknown c last = true := by
  obtain ⟨unsure, ok⟩ := final_fate c last
  constructor
  · intro sound
    cases pre with
    | nil => exact .inl rfl
    | cons first pre =>
      right
      by_cases succeeds : succeeded c last = true
      · exact .inl succeeds
      right
      rw [← unsure, endsUnsure_iff]
      apply sound.unknown [] first (pre ++ [last]) rfl (resent_unknown (sent first (.head pre))).2
      intro b member
      rcases List.mem_append.mp member with early | late
      · exact not_succeeded_of_unknown (resent_unknown (sent b (.tail first early))).2
      · rw [List.mem_singleton.mp late]
        exact Bool.eq_false_iff.mpr succeeds
  · intro settles
    refine ⟨?_, ?_, ?_⟩
    · intro unlicensed
      cases pre with
      | nil => exact List.countP_le_length
      | cons first pre =>
        rw [(resent_unknown (sent first (.head pre))).1] at unlicensed
        cases unlicensed
    · intro payload mild a member
      dsimp only at mild
      have never : unknown c last = false ∧ succeeded c last = false := by
        rw [← unsure, ← ok]
        rcases mild with mild | mild <;> rw [mild] <;> exact ⟨rfl, rfl⟩
      rcases settles with rfl | settled | settled
      · rw [List.mem_singleton.mp member, Bool.eq_false_iff]
        intro applied
        rcases truthful.applied applied with holds | holds
        · exact Bool.eq_false_iff.mp never.1 holds
        · exact Bool.eq_false_iff.mp never.2 holds
      · rw [never.2] at settled
        cases settled
      · rw [never.1] at settled
        cases settled
    · intro before a after same here failed
      rw [← endsUnsure_iff, unsure]
      rcases last_of_append same with ⟨-, rfl, -⟩ | ⟨member, some'⟩
      · exact here
      · rcases settles with empty | settled | settled
        · exact absurd empty some'
        · rw [failed last member] at settled
          cases settled
        · exact settled

theorem sound_attempts {c : Client} {byId : Option ManifestQuery} {env : Nat → Attempt α}
    (truthful : ∀ n, Truthful c (env n)) (left : Nat) :
    Sound c byId (attempts c false byId env left 0) ↔ Settles c byId env left := by
  obtain ⟨k, le, before, stops, made⟩ := attempts_eq c byId env left 0
  simp only [Nat.zero_add] at before stops made
  have sent : ∀ a ∈ (List.range k).map env, resent c byId a = true := by
    intro a member
    obtain ⟨j, inside, rfl⟩ := List.mem_map.mp member
    exact before j (List.mem_range.mp inside)
  rw [made, List.range_succ, List.map_append, List.map_singleton, sound_chain (truthful k) sent]
  constructor
  · intro settles i less all
    -- The loop stops at the attempt after a chain of attempts sent again.
    have follows : i < k := by
      by_contra short
      have le' : k ≤ i := Nat.le_of_not_lt short
      have again := all k le'
      rw [stops (Nat.lt_of_le_of_lt le' less)] at again
      cases again
    by_cases last : i + 1 = k
    · rw [last]
      rcases settles with empty | settled
      · rw [List.map_eq_nil_iff, List.range_eq_nil] at empty
        omega
      · exact settled
    · exact .inr (resent_unknown (before (i + 1) (by omega))).2
  · intro settles
    cases k with
    | zero => exact .inl rfl
    | succ k =>
      right
      exact settles k le (fun j inside => before j (Nat.lt_succ_of_le inside))

/-! ## A future -/

/-- An attempt that was not written changes nothing for those after it. -/
theorem sound_cons_unwritten {c : Client} {byId : Option ManifestQuery} {a : Attempt α}
    {rest : Call α} (unwritten : written c a = false) (sure : unknown c a = false)
    (absent : a.applied = false) (sound : Sound c byId rest) :
    Sound c byId (a :: rest.1, rest.2) := by
  refine ⟨?_, ?_, ?_⟩
  · intro unlicensed
    rw [List.countP_cons_of_neg (by rw [unwritten]; exact Bool.false_ne_true)]
    exact sound.once unlicensed
  · intro payload mild b member
    rcases List.mem_cons.mp member with rfl | member
    · exact absent
    · exact sound.mild payload mild b member
  · intro before b after same here failed
    cases before with
    | nil =>
      obtain ⟨rfl, -⟩ := List.cons.inj same
      rw [sure] at here
      cases here
    | cons first before => exact sound.unknown before b after (List.cons.inj same).2 here failed

theorem resent_none (c : Client) (a : Attempt α) : resent c none a = false := by
  rw [resent, licensed, Bool.and_false, Bool.false_and, Bool.false_and]

/-- A write of unknown licence is never sent twice. -/
theorem sound_unlicensed {c : Client} {a : Attempt α} (truthful : Truthful c a) :
    Sound c none ([a], final c a) := by
  have sent : ∀ b ∈ ([] : List (Attempt α)), resent c none b = true :=
    fun _ member => (nomatch member)
  rw [← List.nil_append [a], sound_chain truthful sent]
  exact .inl rfl

theorem dispatchAutocommit_none (c : Client) (env : Nat → Attempt α) (start n : Nat) :
    dispatchAutocommit c false start none env n = ([env n], final c (env n)) := by
  rw [dispatchAutocommit]
  cases c.policy.maxAttempts - (start + 1) with
  | zero => exact attempt_none c none (env n)
  | succ left =>
    rw [attempts, attempt_some, resent_none]
    rfl

theorem reissue_write (c : Client) (env : Nat → Attempt α) (ex : Thrown) :
    reissue c false env ex = ([env 0], .error ex) := by
  rw [reissue, mayRetryException_write, Bool.and_false, if_neg Bool.false_ne_true]

/-- The submission of a future fails after its frame was completely written. -/
def SubmitLost (c : Client) (a : Attempt α) : Prop :=
  c.multiplexing = true ∧ unknown c a = true ∧ ∃ loss, a.send = .submitLost loss

theorem thrown_plain (loss : Loss) (payload : ErrorPayload) (cause : Cause) :
    loss.thrown ≠ .retryable payload ∧ loss.thrown ≠ .nonRetryable payload ∧
      loss.thrown ≠ .indeterminate payload cause := by
  cases loss <;> exact ⟨nofun, nofun, nofun⟩

/-- The raw exception of a failed submission says nothing of its fate. -/
theorem sound_thrown (c : Client) (a : Attempt α) (loss : Loss) :
    Sound c none ([a], .error loss.thrown) ↔ unknown c a = false := by
  constructor
  · intro sound
    rw [Bool.eq_false_iff]
    intro unsure
    obtain ⟨payload, cause, told⟩ :=
      sound.unknown [] a [] rfl unsure (fun _ member => (nomatch member))
    exact (thrown_plain loss payload cause).2.2 (Except.error.inj told)
  · intro sure
    refine ⟨fun _ => List.countP_le_length, ?_, ?_⟩
    · intro payload mild
      rcases mild with mild | mild
      · exact absurd (Except.error.inj mild) (thrown_plain loss payload .linkLost).1
      · exact absurd (Except.error.inj mild) (thrown_plain loss payload .linkLost).2.1
    · intro before b after same here
      have member : b ∈ [a] := by
        rw [show [a] = before ++ b :: after from same]
        exact List.mem_append_right before (.head after)
      have only : b = a := List.mem_singleton.mp member
      rw [only, sure] at here
      cases here

theorem sound_future {c : Client} {env : Nat → Attempt α} (truthful : ∀ n, Truthful c (env n)) :
    Sound c none (dispatchAsync c false env) ↔ ¬SubmitLost c (env 0) := by
  -- Where the future ends with its own attempt, that attempt tells its fate.
  have ends : dispatchAsync c false env = ([env 0], final c (env 0)) →
      ¬SubmitLost c (env 0) →
        (Sound c none (dispatchAsync c false env) ↔ ¬SubmitLost c (env 0)) := by
    intro whole fine
    rw [whole]
    exact iff_of_true (sound_unlicensed (truthful 0)) fine
  cases reached : requestSession c false (env 0) with
  | some ex =>
    apply ends
    · rw [final, attempt, dispatchAsync, reached]
    · rintro ⟨-, unsure, -⟩
      rw [unknown, reaches, reached] at unsure
      cases unsure
  | none =>
    by_cases multiplexing : c.multiplexing = true
    · have others : (∀ loss, (env 0).send ≠ .submitLost loss) → ¬SubmitLost c (env 0) := by
        rintro other ⟨-, -, loss, send⟩
        exact other loss send
      cases send : (env 0).send with
      | submitLost loss =>
        cases sent : loss.wasSent with
        | true =>
          have whole : dispatchAsync c false env = ([env 0], .error loss.thrown) := by
            rw [dispatchAsync, reached, multiplexing, send]
            exact (if_neg Bool.false_ne_true).trans (if_pos sent)
          rw [whole, sound_thrown, ← Bool.not_eq_true]
          exact not_congr ⟨fun unsure => ⟨multiplexing, unsure, loss, send⟩, fun lost => lost.2.1⟩
        | false =>
          have sure : unknown c (env 0) = false := by
            rw [unknown, send]
            dsimp only
            rw [lossUnknown, sent, Bool.false_and, Bool.and_false]
          have unwritten : written c (env 0) = false := by
            rw [written, send]
            dsimp only
            rw [sent, Bool.and_false]
          have absent : (env 0).applied = false := by
            rw [Bool.eq_false_iff]
            intro applied
            rcases (truthful 0).applied applied with holds | holds
            · rw [sure] at holds
              cases holds
            · rw [succeeded, send, Bool.and_false] at holds
              cases holds
          have whole : dispatchAsync c false env = (env 0 :: [env 1], final c (env 1)) := by
            rw [dispatchAsync, reached, multiplexing, send]
            refine (if_neg Bool.false_ne_true).trans ?_
            dsimp only
            rw [sent, if_neg Bool.false_ne_true, dispatchAutocommit_none]
          rw [whole]
          refine iff_of_true
            (sound_cons_unwritten unwritten sure absent (sound_unlicensed (truthful 1))) ?_
          rintro ⟨-, unsure, -⟩
          rw [sure] at unsure
          cases unsure
      | parked message =>
        apply ends
        · rw [final, attempt, dispatchAsync, reached, multiplexing, send]
          rfl
        · exact others (fun loss => by rw [send]; nofun)
      | reentrant message =>
        apply ends
        · rw [final, attempt, dispatchAsync, reached, multiplexing, send]
          rfl
        · exact others (fun loss => by rw [send]; nofun)
      | undecodable message => exact absurd send ((truthful 0).decodes message)
      | awaitLost loss =>
        apply ends
        · rw [final, attempt, dispatchAsync, reached, multiplexing, send]
          refine (if_neg Bool.false_ne_true).trans ?_
          exact reissue_write c env _
        · exact others (fun loss => by rw [send]; nofun)
      | terminal outcome =>
        apply ends
        · rw [final, attempt, dispatchAsync, reached, multiplexing, send]
          refine (if_neg Bool.false_ne_true).trans ?_
          cases outcome with
          | ok decoded => rfl
          | cancelled => exact reissue_write c env _
          | error payload => exact reissue_write c env _
        · exact others (fun loss => by rw [send]; nofun)
    · have whole : dispatchAsync c false env = ([env 1], final c (env 1)) := by
        rw [dispatchAsync, reached, Bool.eq_false_iff.mpr multiplexing]
        exact (if_pos rfl).trans (dispatchAutocommit_none c env 0 1)
      rw [whole]
      exact iff_of_true (sound_unlicensed (truthful 1)) (fun lost => multiplexing lost.1)

/-! ## Both entries -/

def Entry.byId : Entry → Option ManifestQuery
  | .sync byId => byId
  | .future => none

/-- What the attempts of a call must meet for its caller to be told the truth. -/
def Clean (c : Client) (env : Nat → Attempt α) : Entry → Prop
  | .sync byId => Settles c byId env (c.policy.maxAttempts - 1)
  | .future => ¬SubmitLost c (env 0)

theorem call_sound_iff {c : Client} {entry : Entry} {env : Nat → Attempt α}
    (truthful : ∀ n, Truthful c (env n)) :
    Sound c (Entry.byId entry) (call c false entry env) ↔ Clean c env entry := by
  cases entry with
  | sync byId => exact sound_attempts truthful (c.policy.maxAttempts - 1)
  | future => exact sound_future truthful

def resilientClient : Client :=
  { policy := { retryReads := true, maxAttempts := 3, retryIdempotentWrites := true }
    resilient := true
    multiplexing := true }

/-- A statement by the id of an idempotent query meets a lost link and then the events given. -/
def afterLoss (second : SendEvent Nat) : Nat → Attempt Nat
  | 0 =>
    { session := .live
      send := .awaitLost (.transport false "broken pipe")
      reconnect := .fresh
      epochChanged := false
      applied := true }
  | _ =>
    { session := .live
      send := second
      reconnect := .fresh
      epochChanged := false
      applied := false }

theorem afterLoss_truthful (second : SendEvent Nat)
    (sent : ∀ loss, second = .awaitLost loss → loss.wasSent = true)
    (decodes : ∀ message, second ≠ .undecodable message) (n : Nat) :
    Truthful resilientClient (afterLoss second n) := by
  cases n with
  | zero =>
    refine ⟨fun _ => .inl rfl, ?_, ?_⟩
    · intro loss same
      cases same
      rfl
    · exact nofun
  | succ n => exact ⟨nofun, sent, decodes⟩

theorem call_sound_afterLoss :
    Sound resilientClient (some ⟨true⟩)
        (call resilientClient false (.sync (some ⟨true⟩)) (afterLoss (.terminal (.ok 7)))) ∧
      (call resilientClient false (.sync (some ⟨true⟩)) (afterLoss (.terminal (.ok 7)))).2 =
        .ok 7 := by
  have truthful := afterLoss_truthful (.terminal (.ok 7)) nofun nofun
  have clean : Clean resilientClient (afterLoss (.terminal (.ok 7))) (.sync (some ⟨true⟩)) :=
    fun _ _ _ => .inl rfl
  exact ⟨(call_sound_iff truthful).mpr clean, rfl⟩

/-- The write is applied by an attempt of unknown fate, its licensed repetition is refused before
anything runs, and the caller is told that nothing was applied. -/
theorem refusedRepetition_mild :
    let env := afterLoss (.terminal (.error ⟨errPoolTimeout, branchRetryable, "no connection"⟩))
    (∀ n, Truthful resilientClient (env n)) ∧
      ∃ a ∈ (call resilientClient false (.sync (some ⟨true⟩)) env).1, a.applied = true ∧
        (call resilientClient false (.sync (some ⟨true⟩)) env).2 =
          .error (.retryable ⟨errPoolTimeout, branchRetryable, "no connection"⟩) :=
  ⟨afterLoss_truthful _ nofun nofun, _, .head _, rfl, rfl⟩

end FerroEngine.ClientRetryFate
