import FerroEngine.ClientTransaction

set_option autoImplicit false

/-! # What a transaction closure leaves behind -/

namespace FerroEngine.ClientTransactionSafety

open ClientRetry ClientTransaction

variable {α : Type}

/-! ## What an attempt does -/

/-- BEGIN was answered with success. -/
def opened (resilient : Bool) (a : TxAttempt α) : Bool :=
  (beginSession resilient a).isNone && match a.begin_ with
    | .terminal (.ok _) => true
    | _ => false

/-- The closure was run. -/
def ran (resilient : Bool) (a : TxAttempt α) : Bool :=
  (beginSession resilient a).isNone && match a.begin_ with
    | .terminal (.ok (some _)) => true
    | _ => false

def returned (a : TxAttempt α) : Bool :=
  match a.closure with
  | .returned _ => true
  | _ => false

/-- A COMMIT was completely written. -/
def commitSent (resilient : Bool) (a : TxAttempt α) : Bool :=
  ran resilient a && returned a && a.control.written

/-- A COMMIT or a ROLLBACK was completely written. -/
def settled (resilient : Bool) (a : TxAttempt α) : Bool :=
  ran resilient a && a.control.written

/-- The engine answered with a retryable error. -/
def answeredRetryable : Control Unit → Bool
  | .terminal (.error payload) => decide (payload.branch = branchRetryable)
  | _ => false

/-- The session is alive after the attempt, if the reconnect loop was not asked. -/
def survives (resilient : Bool) (a : TxAttempt α) : Bool :=
  a.spared && !a.begin_.loses && !(ran resilient a && a.control.loses)

/-- The attempt's session is that of the attempt before it. -/
def sameSession (resilient : Bool) (a : TxAttempt α) : Bool :=
  !resilient || decide (a.session = .live)

/-- The session of the first of these attempts is alive when the call ends. -/
def Lives (resilient : Bool) (first : Made α) (after : List (Made α)) : Prop :=
  (∀ m ∈ first :: after, survives resilient m.attempt = true ∧ m.reconnected = false) ∧
    ∀ m ∈ after, sameSession resilient m.attempt = true

/-- A transaction that was sent neither a COMMIT nor a ROLLBACK is open on a live session. -/
def LeftOpen (resilient : Bool) (made : List (Made α)) : Prop :=
  ∃ before m after, made = before ++ m :: after ∧ opened resilient m.attempt = true ∧
    settled resilient m.attempt = false ∧ Lives resilient m after

/-- The client refuses to write the attempt's COMMIT or ROLLBACK, or cannot read its BEGIN. -/
def Stranded (resilient : Bool) (a : TxAttempt α) : Prop :=
  opened resilient a = true ∧ (ran resilient a = true → a.control.refused = true)

/-! ## One attempt -/

theorem classifyLoss_commit (reason : String) (server : Option ErrorPayload) (epochChanged : Bool) :
    ∃ payload cause, (.threw (classifyLoss .txCommit reason server epochChanged true) : TxEnd α) =
      .threw (.indeterminate payload cause) :=
  ⟨_, _, rfl⟩

theorem fromErrorPayload_retryable {payload shown : ErrorPayload}
    (same : fromErrorPayload payload = .retryable shown) : payload.branch = branchRetryable := by
  unfold fromErrorPayload at same
  split at same
  · assumption
  · split at same <;> cases same

/-- A retryable exception of a control request is a refusal or the engine's own answer. -/
theorem control_retryable {event : Control Unit} {payload : ErrorPayload}
    (threw : control event = .error (.retryable payload)) :
    event.written = false ∨ answeredRetryable event = true := by
  cases event with
  | terminal outcome =>
    cases outcome with
    | error shown =>
      exact .inr (decide_eq_true (fromErrorPayload_retryable (Except.error.inj threw)))
    | _ => cases threw
  | parked message => exact .inl rfl
  | _ => cases threw

theorem unanswered_of_retryable {event : Control Unit} (answer : answeredRetryable event = true) :
    event.unanswered = false := by
  cases event with
  | terminal _ => rfl
  | _ => cases answer

/-- How one pass of the loop ends: the call stops, or the loop goes on. -/
inductive Pass (resilient : Bool) (a : TxAttempt α) (again : Option (TxCall α)) : TxCall α → Prop
  | stop {reconnected : Bool} {result : TxEnd α} :
      (commitSent resilient a = true → a.control.unanswered = true →
        ∃ payload cause, result = .threw (.indeterminate payload cause)) →
      Pass resilient a again (stop a reconnected result)
  | again {reconnected : Bool} {rest : TxCall α} : again = some rest →
      (commitSent resilient a = true → answeredRetryable a.control = true) →
      Pass resilient a again (continue_ a reconnected rest)

theorem pass_reconnect {resilient : Bool} {a : TxAttempt α} (rest : TxCall α)
    (quiet : commitSent resilient a = false) :
    Pass resilient a (some rest) (reconnectAndContinue a rest) := by
  have never (sent : commitSent resilient a = true) : False := by
    rw [quiet] at sent
    cases sent
  unfold reconnectAndContinue
  cases a.reconnect with
  | fresh => exact .again rfl fun sent => (never sent).elim
  | fails ex => exact .stop fun sent => (never sent).elim

/-- A pass without a COMMIT. -/
theorem pass_stop {resilient : Bool} {a : TxAttempt α} {again : Option (TxCall α)}
    {reconnected : Bool} {result : TxEnd α} (quiet : commitSent resilient a = false) :
    Pass resilient a again (stop a reconnected result) := by
  refine .stop fun sent => ?_
  rw [quiet] at sent
  cases sent

theorem pass_again {resilient : Bool} {a : TxAttempt α} {rest : TxCall α} {reconnected : Bool}
    (quiet : commitSent resilient a = false) :
    Pass resilient a (some rest) (continue_ a reconnected rest) := by
  refine .again rfl fun sent => ?_
  rw [quiet] at sent
  cases sent

theorem pass_beginLost {resilient : Bool} {a : TxAttempt α} (again : Option (TxCall α)) (loss : Loss)
    (quiet : commitSent resilient a = false) :
    Pass resilient a again (beginLost resilient a again loss) := by
  unfold beginLost
  cases again with
  | none => exact pass_stop quiet
  | some rest =>
    dsimp only
    split
    · exact pass_reconnect rest quiet
    · exact pass_stop quiet

theorem pass_beginErred {resilient : Bool} {a : TxAttempt α} (again : Option (TxCall α)) (ex : Thrown)
    (quiet : commitSent resilient a = false) :
    Pass resilient a again (beginErred a again ex) := by
  unfold beginErred
  split
  · exact pass_again quiet
  · exact pass_stop quiet

theorem pass_closureError {resilient : Bool} {a : TxAttempt α} (again : Option (TxCall α))
    (quiet : commitSent resilient a = false) :
    Pass resilient a again (closureError resilient a again) := by
  unfold closureError
  dsimp only
  split
  · split
    · exact pass_stop quiet
    · split <;> exact pass_stop quiet
  · split
    · exact pass_stop quiet
    · split <;> exact pass_stop quiet
  · exact pass_reconnect _ quiet
  · exact pass_again quiet

/-- A stop without an unanswered COMMIT. -/
theorem pass_answered {resilient : Bool} {a : TxAttempt α} {again : Option (TxCall α)}
    {reconnected : Bool} {result : TxEnd α} (answered : a.control.unanswered = false) :
    Pass resilient a again (stop a reconnected result) := by
  refine .stop fun _ unanswered => ?_
  rw [answered] at unanswered
  cases unanswered

theorem pass_commit {resilient : Bool} {a : TxAttempt α} (value : α) (again : Option (TxCall α)) :
    Pass resilient a again (commit resilient a value again) := by
  unfold commit
  dsimp only
  cases event : a.control with
  | streamOpen message => exact pass_answered (by rw [event]; rfl)
  | reentrant message => exact pass_answered (by rw [event]; rfl)
  | undecodable message => exact pass_answered (by rw [event]; rfl)
  | unsent message => exact pass_answered (by rw [event]; rfl)
  | cut message => exact .stop fun _ _ => classifyLoss_commit _ _ _
  | connectionLost server message => exact .stop fun _ _ => classifyLoss_commit _ _ _
  | parked message =>
    -- The refusal has the type of a retryable answer, and the loop goes on.
    have unsent : commitSent resilient a = false := by
      rw [commitSent, event]
      exact Bool.and_false _
    cases again with
    | none => exact pass_stop unsent
    | some rest => exact pass_again unsent
  | terminal outcome =>
    cases outcome with
    | ok done => exact pass_answered (by rw [event]; rfl)
    | cancelled => exact pass_answered (by rw [event]; rfl)
    | error payload =>
      have answered : a.control.unanswered = false := by
        rw [event]
        rfl
      have shown : ClientTransaction.control (.terminal (.error payload)) =
          .error (fromErrorPayload payload) := rfl
      rw [shown]
      unfold fromErrorPayload
      by_cases retryable : payload.branch = branchRetryable
      · rw [if_pos retryable]
        cases again with
        | none => exact pass_answered answered
        | some rest =>
          refine .again rfl fun _ => ?_
          rw [event]
          exact decide_eq_true retryable
      · rw [if_neg retryable]
        by_cases unsure : payload.branch = branchIndeterminate
        · rw [if_pos unsure]
          exact pass_answered answered
        · rw [if_neg unsure]
          exact pass_answered answered

theorem txAttempt_pass (resilient : Bool) (a : TxAttempt α) (again : Option (TxCall α)) :
    Pass resilient a again (txAttempt resilient a again) := by
  unfold txAttempt
  cases session : beginSession resilient a with
  | some ex =>
    refine pass_stop ?_
    rw [commitSent, ran, session]
    rfl
  | none =>
    have quiet (body : ∀ id, a.begin_ ≠ .terminal (.ok (some id))) : commitSent resilient a = false := by
      unfold commitSent ran
      split
      · rename_i id begun
        exact absurd begun (body id)
      · rw [Bool.and_false]
        rfl
    cases begun : a.begin_ with
    | unsent message => exact pass_beginLost again _ (quiet fun id => by rw [begun]; nofun)
    | cut message => exact pass_beginLost again _ (quiet fun id => by rw [begun]; nofun)
    | connectionLost server message => exact pass_beginLost again _ (quiet fun id => by rw [begun]; nofun)
    | streamOpen message => exact pass_stop (quiet fun id => by rw [begun]; nofun)
    | parked message => exact pass_stop (quiet fun id => by rw [begun]; nofun)
    | reentrant message => exact pass_stop (quiet fun id => by rw [begun]; nofun)
    | undecodable message => exact pass_stop (quiet fun id => by rw [begun]; nofun)
    | terminal outcome =>
      cases outcome with
      | cancelled => exact pass_beginErred again _ (quiet fun id => by rw [begun]; nofun)
      | error payload => exact pass_beginErred again _ (quiet fun id => by rw [begun]; nofun)
      | ok body =>
        cases body with
        | none => exact pass_stop (quiet fun id => by rw [begun]; nofun)
        | some id =>
          dsimp only
          cases ending : a.closure with
          | returned value => exact pass_commit value again
          | _ =>
            refine pass_closureError again ?_
            rw [commitSent, returned, ending, Bool.and_false, Bool.false_and]

/-! ## A call -/

/-- The shape of a call from the attempt `n` on, with `left` further attempts allowed. -/
inductive Run (resilient : Bool) (env : Nat → TxAttempt α) : Nat → Nat → TxCall α → Prop
  | stop {left n : Nat} {reconnected : Bool} {result : TxEnd α} :
      (commitSent resilient (env n) = true → (env n).control.unanswered = true →
        ∃ payload cause, result = .threw (.indeterminate payload cause)) →
      Run resilient env left n (stop (env n) reconnected result)
  | again {left n : Nat} {reconnected : Bool} {rest : TxCall α} :
      (commitSent resilient (env n) = true → answeredRetryable (env n).control = true) →
      Run resilient env left (n + 1) rest →
      Run resilient env (left + 1) n (continue_ (env n) reconnected rest)

theorem run_of_last {resilient : Bool} {env : Nat → TxAttempt α} {n : Nat} {call : TxCall α}
    (pass : Pass resilient (env n) none call) : Run resilient env 0 n call := by
  cases pass with
  | stop unsure => exact .stop unsure
  | again some _ => cases some

theorem run_of_pass {resilient : Bool} {env : Nat → TxAttempt α} {left n : Nat}
    {rest call : TxCall α} (run : Run resilient env left (n + 1) rest)
    (pass : Pass resilient (env n) (some rest) call) : Run resilient env (left + 1) n call := by
  cases pass with
  | stop unsure => exact .stop unsure
  | again same retryable =>
    cases same
    exact .again retryable run

theorem txAttempts_run (resilient : Bool) (env : Nat → TxAttempt α) (left n : Nat) :
    Run resilient env left n (txAttempts resilient env left n) := by
  induction left generalizing n with
  | zero => exact run_of_last (txAttempt_pass resilient (env n) none)
  | succ left ih => exact run_of_pass (ih (n + 1)) (txAttempt_pass resilient (env n) _)

namespace Run

variable {resilient : Bool} {env : Nat → TxAttempt α} {left n : Nat} {call : TxCall α}

theorem length_le (run : Run resilient env left n call) : call.1.length ≤ left + 1 := by
  induction run with
  | stop _ => exact Nat.succ_le_succ (Nat.zero_le _)
  | again _ _ ih => exact Nat.succ_le_succ ih

theorem attempt_mem (run : Run resilient env left n call) {m : Made α} (made : m ∈ call.1) :
    ∃ k, m.attempt = env k := by
  induction run with
  | @stop _ n =>
    rw [List.mem_singleton.mp made]
    exact ⟨n, rfl⟩
  | @again _ n _ _ _ _ ih =>
    cases List.mem_cons.mp made with
    | inl first =>
      rw [first]
      exact ⟨n, rfl⟩
    | inr later => exact ih later

theorem retryable (run : Run resilient env left n call) {before after : List (Made α)}
    {m : Made α} (made : call.1 = before ++ m :: after) (more : after ≠ [])
    (sent : commitSent resilient m.attempt = true) :
    answeredRetryable m.attempt.control = true := by
  induction run generalizing before with
  | stop _ =>
    cases before with
    | nil => exact absurd (List.cons.inj made).2.symm more
    | cons first before =>
      have empty := (List.cons.inj made).2
      exact absurd empty.symm (List.append_ne_nil_of_right_ne_nil before (List.cons_ne_nil m after))
  | again answered _ ih =>
    cases before with
    | nil =>
      have same := (List.cons.inj made).1
      subst same
      exact answered sent
    | cons first before => exact ih (List.cons.inj made).2

theorem indeterminate (run : Run resilient env left n call) {m : Made α} (made : m ∈ call.1)
    (sent : commitSent resilient m.attempt = true)
    (unanswered : m.attempt.control.unanswered = true) :
    ∃ payload cause, call.2 = .threw (.indeterminate payload cause) := by
  induction run with
  | stop unsure =>
    have same := List.mem_singleton.mp made
    subst same
    exact unsure sent unanswered
  | again answered _ ih =>
    cases List.mem_cons.mp made with
    | inl first =>
      -- An attempt that was followed by another had an answer to its COMMIT.
      subst first
      have silent := unanswered_of_retryable (answered sent)
      rw [silent] at unanswered
      cases unanswered
    | inr later => exact ih later

end Run

/-! ## Transactions left open -/

theorem refused_of_unwritten {event : Control Unit} (unwritten : event.written = false)
    (alive : event.loses = false) : event.refused = true := by
  cases event with
  | streamOpen _ | parked _ | reentrant _ => rfl
  | unsent _ => cases alive
  | _ => cases unwritten

theorem unwritten_of_refused {event : Control Unit} (refused : event.refused = true) :
    event.written = false := by
  cases event with
  | streamOpen _ | parked _ | reentrant _ => rfl
  | _ => cases refused

theorem stranded_of_survives {resilient : Bool} {a : TxAttempt α}
    (begun : opened resilient a = true) (unsettled : settled resilient a = false)
    (alive : survives resilient a = true) : Stranded resilient a := by
  refine ⟨begun, fun run => ?_⟩
  rw [settled, run, Bool.true_and] at unsettled
  rw [survives, run, Bool.true_and, Bool.and_eq_true, Bool.not_eq_true'] at alive
  exact refused_of_unwritten unsettled alive.2

theorem Stranded.unsettled {resilient : Bool} {a : TxAttempt α} (stranded : Stranded resilient a) :
    settled resilient a = false := by
  rw [settled]
  cases run : ran resilient a with
  | false => rfl
  | true => rw [unwritten_of_refused (stranded.2 run), Bool.and_false]

theorem leftOpen_iff (resilient : Bool) (made : List (Made α)) :
    LeftOpen resilient made ↔ ∃ before m after, made = before ++ m :: after ∧
      Stranded resilient m.attempt ∧ Lives resilient m after := by
  constructor
  · rintro ⟨before, m, after, shape, begun, unsettled, lives⟩
    have alive := (lives.1 m (List.mem_cons_self ..)).1
    exact ⟨before, m, after, shape, stranded_of_survives begun unsettled alive, lives⟩
  · rintro ⟨before, m, after, shape, stranded, lives⟩
    exact ⟨before, m, after, shape, stranded.1, stranded.unsettled, lives⟩

/-! ## The call -/

/-- The closure is run again only where its COMMIT was not sent or was answered with a retryable
error, within the budget; an unanswered COMMIT ends the call; and a transaction stays open on a live
session only after a refused COMMIT or ROLLBACK, or an unreadable BEGIN. -/
theorem transaction_safe (resilient : Bool) (policy : RetryPolicy) (valid : 1 ≤ policy.maxAttempts)
    (env : Nat → TxAttempt α) :
    (∀ before m after, (transaction resilient policy env).1 = before ++ m :: after →
      (∃ later ∈ after, ran resilient later.attempt = true) →
      commitSent resilient m.attempt = true → answeredRetryable m.attempt.control = true) ∧
    (transaction resilient policy env).1.countP (fun m => ran resilient m.attempt) ≤
      policy.maxAttempts ∧
    (∀ m ∈ (transaction resilient policy env).1, commitSent resilient m.attempt = true →
      m.attempt.control.unanswered = true → ∃ payload cause,
        (transaction resilient policy env).2 = .threw (.indeterminate payload cause)) ∧
    (LeftOpen resilient (transaction resilient policy env).1 ↔
      ∃ before m after, (transaction resilient policy env).1 = before ++ m :: after ∧
        Stranded resilient m.attempt ∧ Lives resilient m after) ∧
    ((∀ n, ¬Stranded resilient (env n)) →
      ¬LeftOpen resilient (transaction resilient policy env).1) := by
  have run := txAttempts_run resilient env (policy.maxAttempts - 1) 0
  rw [← transaction] at run
  refine ⟨fun before m after made again sent => ?_, ?_, fun m made sent silent => ?_,
    leftOpen_iff resilient _, fun never left => ?_⟩
  · obtain ⟨later, member, _⟩ := again
    exact run.retryable made (List.ne_nil_of_mem member) sent
  · have bound := run.length_le
    have counted := List.countP_le_length
      (p := fun m : Made α => ran resilient m.attempt) (l := (transaction resilient policy env).1)
    omega
  · exact run.indeterminate made sent silent
  · obtain ⟨before, m, after, made, stranded, _⟩ := (leftOpen_iff resilient _).mp left
    have member : m ∈ (transaction resilient policy env).1 := by
      rw [made]
      exact List.mem_append_right before (List.mem_cons_self ..)
    obtain ⟨k, attempt⟩ := run.attempt_mem member
    rw [attempt] at stranded
    exact never k stranded

/-- A closure that returned while a stream that it opened is still read. -/
def openStream : TxAttempt Nat :=
  { session := .live
    begin_ := .terminal (.ok (some 7))
    closure := .returned 1
    control := .streamOpen "this session has an open stream"
    reconnect := .fresh
    epochChanged := false
    spared := true }

theorem transaction_safe_openStream :
    (transaction true ⟨true, 3, false⟩ fun _ => openStream).1.countP
      (fun m => ran true m.attempt) ≤ 3 :=
  (transaction_safe true ⟨true, 3, false⟩ (by decide) fun _ => openStream).2.1

/-- The COMMIT is refused, and the transaction stays open on its session. -/
theorem openStream_leftOpen :
    (transaction true ⟨true, 3, false⟩ fun _ => openStream).2 =
        .threw (.protocol "this session has an open stream") ∧
      LeftOpen true (transaction true ⟨true, 3, false⟩ fun _ => openStream).1 := by
  have ends : transaction true ⟨true, 3, false⟩ (fun _ => openStream) =
      ([⟨openStream, false⟩], .threw (.protocol "this session has an open stream")) := rfl
  rw [ends]
  refine ⟨rfl, [], ⟨openStream, false⟩, [], rfl, rfl, rfl, fun m member => ?_, fun m member => ?_⟩
  · rw [List.mem_singleton.mp member]
    exact ⟨rfl, rfl⟩
  · cases member

end FerroEngine.ClientTransactionSafety
