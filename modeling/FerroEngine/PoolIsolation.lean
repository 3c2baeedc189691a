import FerroEngine.PoolCapacity

set_option autoImplicit false

/-! # The isolation of tenants

What a connection brings along when `checkout` hands it out, read off the history of its session.
-/

namespace FerroEngine.PoolIsolation

open LabelledRuns PoolStatements PoolCheckout

/-! ## Histories -/

/-- The transaction that the session is in; a fresh one is in none. -/
def sessionOf : List Event → TxStatus
  | [] => .idle
  | .ran _ _ _ after :: _ => after
  | .rolledBack true :: _ => .idle
  | _ :: log => sessionOf log

/-- Since the last Full reset a statement failed, was reported by the tracker, was classified as
session-mutating, or left the transaction failed. -/
def dirty : List Event → Bool
  | [] => false
  | .ran failed mutated classified after :: log =>
    failed || mutated || classified || after == .failed || dirty log
  | .reset .full true :: _ => false
  | _ :: log => dirty log

def condemns : Event → Bool
  | .halfDrained | .discarded | .rolledBack false | .reset _ false => true
  | _ => false

def condemned (log : List Event) : Bool :=
  log.any condemns

/-- Every reset ran outside a transaction. -/
def ResetsOutside : List Event → Prop
  | [] => True
  | .reset _ _ :: log => sessionOf log = .idle ∧ ResetsOutside log
  | _ :: log => ResetsOutside log

/-- Every hand-out was of a connection in no transaction, with nothing left since its last Full
reset, and never condemned. -/
def HandOutsClean : List Event → Prop
  | [] => True
  | .handedOut :: log =>
    sessionOf log = .idle ∧ dirty log = false ∧ condemned log = false ∧ HandOutsClean log
  | _ :: log => HandOutsClean log

/-- What every connection of the pool has behind it. -/
structure Past (log : List Event) : Prop where
  resets : ResetsOutside log
  handOuts : HandOutsClean log

/-! ## The flags cover the history -/

structure Covered (log : List Event) (txOpen tainted : Bool) : Prop where
  past : Past log
  tx : sessionOf log ≠ .idle → txOpen = true
  taint : dirty log = true → tainted = true

structure CheckoutCovered (co : Checkout) : Prop where
  flags : Covered co.conn.log co.txOpen co.tainted
  latch : condemned co.conn.log = true → co.discard = true

structure IdleCovered (popped : IdleConn) : Prop where
  flags : Covered popped.conn.log popped.txOpen popped.tainted
  sound : condemned popped.conn.log = false

/-- A connection that may be handed out. -/
structure Ready (log : List Event) : Prop where
  past : Past log
  session : sessionOf log = .idle
  clean : dirty log = false
  sound : condemned log = false

theorem ready_hands {log : List Event} (ready : Ready log) : Past (.handedOut :: log) :=
  ⟨ready.past.resets, ready.session, ready.clean, ready.sound, ready.past.handOuts⟩

/-! ## Statements -/

/-- `tx_status` is the session's own where the statement has ended without an error. -/
def Truthful (ok : Bool) (after : After) : Prop :=
  ok = true → after.status = after.session

/-- What every statement leaves, whatever entry it came through. -/
def concludes (co : Checkout) (ok : Bool) (after : After) (classified : Bool) : Checkout :=
  { co with
    conn := co.conn.logs (.ran (!ok) after.mutated classified after.session)
    txOpen := (txStatusBits after.status).1 || !ok
    tainted := co.tainted || (txStatusBits after.status).2 || after.mutated || !ok || classified }

theorem txControl_concludes (co : Checkout) (ok : Bool) (after : After) :
    co.txControl ok after = concludes co ok after false := by
  simp [Checkout.txControl, Checkout.settles, Checkout.applyTxStatus, Checkout.applySessionTracker,
    Checkout.forces, Checkout.ran, Checkout.logs, concludes]

theorem beginTxWith_concludes (co : Checkout) (ok : Bool) (after : After) :
    co.beginTxWith ok after = concludes co ok after false := by
  simp [Checkout.beginTxWith, Checkout.settles, Checkout.applyTxStatus,
    Checkout.applySessionTracker, Checkout.forces, Checkout.ran, Checkout.logs, concludes]

theorem endTx_concludes (co : Checkout) (ok : Bool) (after : After) :
    co.endTx ok after = concludes co ok after false := by
  simp [Checkout.endTx, Checkout.settles, Checkout.applyTxStatus, Checkout.applySessionTracker,
    Checkout.forces, Checkout.ran, Checkout.logs, concludes]

theorem runs_concludes (cfg : Config) (co : Checkout) (verdict : TxControlGuard.TxControlVerdict)
    (sql : SourceText.Text) (ok : Bool) (after : After) : ∃ classified,
    co.runs cfg verdict sql ok after = concludes co ok after classified := by
  cases verdict with
  | proceed =>
    refine ⟨cfg.classifies sql, ?_⟩
    simp [Checkout.runs, Checkout.settles, Checkout.applyTxStatus, Checkout.applySessionTracker,
      Checkout.forces, Checkout.applyClassifyFor, Checkout.applyClassify, Checkout.ran,
      Checkout.logs, concludes]
  | savepointPassthrough =>
    refine ⟨false, ?_⟩
    have skipped : (TxControlGuard.TxControlVerdict.savepointPassthrough == .proceed) = false := rfl
    simp [Checkout.runs, Checkout.settles, Checkout.applyTxStatus, Checkout.applySessionTracker,
      Checkout.forces, Checkout.applyClassifyFor, Checkout.ran, Checkout.logs, concludes, skipped]

theorem finalizeStream_concludes (cfg : Config) (co : Checkout) (errored : Bool)
    (sql : SourceText.Text) (after : After) :
    co.finalizeStream cfg errored sql after =
      concludes co (!errored) after (cfg.classifies sql) := by
  simp [Checkout.finalizeStream, Checkout.settles, Checkout.applyTxStatus,
    Checkout.applySessionTracker, Checkout.forces, Checkout.applyClassify, Checkout.ran,
    Checkout.logs, concludes]

theorem concludes_covered {co : Checkout} (inv : CheckoutCovered co) {ok : Bool} {after : After}
    (truthful : Truthful ok after) (classified : Bool) :
    CheckoutCovered (concludes co ok after classified) := by
  obtain ⟨⟨past, tx, taint⟩, latch⟩ := inv
  refine ⟨⟨⟨past.resets, past.handOuts⟩, ?_, ?_⟩, latch⟩
  · intro inside
    cases ok with
    | false => exact Bool.or_true _
    | true =>
      have inside' : after.session ≠ .idle := inside
      rw [← truthful rfl] at inside'
      dsimp only [concludes]
      cases status : after.status with
      | idle => exact absurd status inside'
      | inTx => rfl
      | failed => rfl
  · intro left
    have split : (!ok || after.mutated || classified || after.session == .failed ||
        dirty co.conn.log) = true := left
    dsimp only [concludes]
    cases ok with
    | false => simp
    | true =>
      rw [← truthful rfl] at split
      simp only [Bool.not_true, Bool.false_or, Bool.or_eq_true, beq_iff_eq] at split
      rcases split with ((mutated | classified) | failed) | old
      · simp [mutated]
      · simp [classified]
      · simp [failed, txStatusBits]
      · simp [taint old]

/-- The latch goes with every condemning event. -/
theorem condemns_covered {co : Checkout} (inv : CheckoutCovered co) {event : Event}
    (kind : event = .halfDrained ∨ event = .discarded) : CheckoutCovered (co.condemns event) := by
  obtain ⟨⟨past, tx, taint⟩, -⟩ := inv
  rcases kind with rfl | rfl
  · exact ⟨⟨⟨past.resets, past.handOuts⟩, tx, taint⟩, fun _ => rfl⟩
  · exact ⟨⟨⟨past.resets, past.handOuts⟩, tx, taint⟩, fun _ => rfl⟩

def erroredHandle : Handle → Bool
  | .rows _ errored | .copyOut _ errored => errored
  | .copyIn _ => false

/-- The backend keeps its word on every statement that ends in this operation. -/
def TruthfulOp (handle : Option Handle) : Op → Prop
  | .beginTxWith ok after | .txControl ok after | .commitTx ok after | .rollbackTx ok after
  | .exec _ ok after | .query _ _ ok after | .finishCopyIn ok after => Truthful ok after
  | .finishRows (.reclaimed lateError) after | .finishCopyOut (.drained lateError) after =>
    Truthful (!(handle.any erroredHandle || lateError)) after
  | _ => True

theorem errored_truthful (after : After) : Truthful (!true) after := by
  intro ok
  cases ok

theorem finalizeStream_covered {cfg : Config} {co : Checkout} (inv : CheckoutCovered co)
    {errored : Bool} {after : After} (truthful : Truthful (!errored) after)
    (sql : SourceText.Text) : CheckoutCovered (co.finalizeStream cfg errored sql after) := by
  rw [finalizeStream_concludes]
  exact concludes_covered inv truthful _

theorem query_covered {cfg : Config} {co : Checkout} (inv : CheckoutCovered co) {ok : Bool}
    {after : After} (truthful : Truthful ok after) (sql : SourceText.Text) (params : Nat) :
    CheckoutCovered (co.query cfg sql params ok after) := by
  rw [Checkout.query]
  split
  · rename_i verdict admitted
    obtain ⟨classified, same⟩ := runs_concludes cfg co verdict sql ok after
    rw [same]
    exact concludes_covered inv truthful classified
  · exact inv

theorem handle_covered {co : Checkout} (inv : CheckoutCovered co) (handle : Option Handle) :
    CheckoutCovered { co with handle := handle } :=
  ⟨inv.flags, inv.latch⟩

theorem queryStream_covered {cfg : Config} {co : Checkout} (inv : CheckoutCovered co)
    (sql : SourceText.Text) (params : Nat) (opened : Bool) (after : After) :
    CheckoutCovered (co.queryStream cfg sql params opened after) := by
  rw [Checkout.queryStream]
  split
  · split
    · exact handle_covered inv _
    · exact finalizeStream_covered inv (errored_truthful after) sql
  · exact inv

theorem copy_covered {cfg : Config} {co : Checkout} (inv : CheckoutCovered co)
    (want : CopyShape.CopyDirection) (sql : SourceText.Text) (answer : Checkout.CopyOpen) :
    CheckoutCovered (co.copy cfg want sql answer) := by
  unfold Checkout.copy
  split
  · cases answer with
    | opened => exact handle_covered inv _
    | failed sqlError after =>
      refine finalizeStream_covered ?_ (errored_truthful after) sql
      cases sqlError with
      | true => exact inv
      | false => exact condemns_covered inv (.inr rfl)
  · exact inv

theorem finishRows_covered {cfg : Config} {co : Checkout} (inv : CheckoutCovered co)
    (handle : Handle) {answer : Checkout.RowsEnd} {after : After}
    (truthful : TruthfulOp (some handle) (.finishRows answer after)) (sql : SourceText.Text) :
    CheckoutCovered (co.finishRows cfg sql (erroredHandle handle) after answer) := by
  cases answer with
  | drainTimedOut =>
    exact finalizeStream_covered (condemns_covered inv (.inl rfl)) (errored_truthful after) sql
  | reclaimed lateError => exact finalizeStream_covered inv truthful sql
  | notReclaimed =>
    exact finalizeStream_covered (condemns_covered inv (.inr rfl)) (errored_truthful after) sql

theorem finishCopyOut_covered {cfg : Config} {co : Checkout} (inv : CheckoutCovered co)
    (handle : Handle) {answer : Checkout.CopyOutEnd} {after : After}
    (truthful : TruthfulOp (some handle) (.finishCopyOut answer after)) (sql : SourceText.Text) :
    CheckoutCovered (co.finishCopyOut cfg sql (erroredHandle handle) after answer) := by
  cases answer with
  | drained lateError => exact finalizeStream_covered inv truthful sql
  | timedOut =>
    exact finalizeStream_covered (condemns_covered inv (.inl rfl)) (errored_truthful after) sql

theorem abortCopyIn_covered {cfg : Config} {co : Checkout} (inv : CheckoutCovered co)
    (sql : SourceText.Text) (acknowledged : Bool) (after : After) :
    CheckoutCovered (co.abortCopyIn cfg sql acknowledged after) := by
  refine finalizeStream_covered ?_ (errored_truthful after) sql
  cases acknowledged with
  | true => exact inv
  | false => exact condemns_covered inv (.inr rfl)

theorem tainted_covered {co : Checkout} (inv : CheckoutCovered co) :
    CheckoutCovered { co with tainted := true } :=
  ⟨⟨inv.flags.past, inv.flags.tx, fun _ => rfl⟩, inv.latch⟩

/-- No operation on a guard or on its handles leaves the flags behind the history. -/
theorem apply_covered {cfg : Config} {co co' : Checkout} {op : Op} (inv : CheckoutCovered co)
    (truthful : TruthfulOp co.handle op) (taken : co.apply cfg op = some co') :
    CheckoutCovered co' := by
  unfold Checkout.apply at taken
  split at taken
  · cases taken
    rw [beginTxWith_concludes]
    exact concludes_covered inv truthful false
  · cases taken
    rw [txControl_concludes]
    exact concludes_covered inv truthful false
  · cases taken
    rw [endTx_concludes]
    exact concludes_covered inv truthful false
  · cases taken
    rw [endTx_concludes]
    exact concludes_covered inv truthful false
  · cases taken
    exact query_covered inv truthful _ 0
  · cases taken
    exact query_covered inv truthful _ _
  · cases taken
    exact queryStream_covered inv _ _ _ _
  · cases taken
    exact copy_covered inv _ _ _
  · cases taken
    exact tainted_covered inv
  · cases taken
    exact condemns_covered inv (.inr rfl)
  · cases taken
    exact handle_covered inv _
  · rename_i sql errored answer after alive
    cases taken
    rw [alive] at truthful
    exact handle_covered (finishRows_covered inv (.rows sql errored) truthful sql) none
  · cases taken
    exact inv
  · cases taken
    refine handle_covered (finalizeStream_covered inv ?_ _) none
    rw [Bool.not_not]
    exact truthful
  · cases taken
    exact handle_covered (abortCopyIn_covered inv _ _ _) none
  · cases taken
    exact handle_covered inv _
  · rename_i sql errored answer after alive
    cases taken
    rw [alive] at truthful
    exact handle_covered (finishCopyOut_covered inv (.copyOut sql errored) truthful sql) none
  · cases taken
    exact handle_covered (tainted_covered (condemns_covered inv (.inl rfl))) none
  · cases taken

/-! ## The cleanup -/

/-- Between the ROLLBACK and the reset. -/
structure Resettable (log : List Event) (profile : Option ResetProfile) : Prop where
  past : Past log
  session : sessionOf log = .idle
  full : dirty log = true → profile = some .full
  sound : condemned log = false

def PhaseCovered : Phase → Prop
  | .armingFresh _ conn => Ready conn.log
  | .inspecting _ popped | .reapInspecting _ popped _ | .pinging _ popped _ => IdleCovered popped
  | .rollingBack _ popped profile =>
    IdleCovered popped ∧ (dirty popped.conn.log = true → profile = some .full)
  | .resetting _ popped profile => Resettable popped.conn.log (some profile)
  | .arming _ popped => Ready popped.conn.log
  | .guarded _ co => CheckoutCovered co
  | _ => True

theorem afterRollback_covered {permit : Nat} {popped : IdleConn} {profile : Option ResetProfile}
    (inv : Resettable popped.conn.log profile) :
    PhaseCovered (afterRollback permit popped profile) := by
  cases profile with
  | some profile => exact inv
  | none =>
    refine ⟨inv.past, inv.session, ?_, inv.sound⟩
    rw [Bool.eq_false_iff]
    intro left
    cases inv.full left

/-- A tainted connection gets the Full reset. -/
theorem profileOf_full (cfg : Config) {popped : IdleConn} (inv : IdleCovered popped)
    (left : dirty popped.conn.log = true) : profileOf cfg popped = some .full := by
  rw [profileOf, if_pos (inv.flags.taint left)]

theorem cleanup_covered (cfg : Config) (permit : Nat) {popped : IdleConn}
    (inv : IdleCovered popped) : PhaseCovered (cleanup cfg permit popped) := by
  rw [cleanup]
  split
  · exact ⟨inv, profileOf_full cfg inv⟩
  · rename_i shut
    apply afterRollback_covered
    refine ⟨inv.flags.past, ?_, profileOf_full cfg inv, inv.sound⟩
    by_contra inside
    exact shut (inv.flags.tx inside)

theorem rolledBack_covered {popped : IdleConn} {profile : Option ResetProfile}
    (inv : IdleCovered popped) (full : dirty popped.conn.log = true → profile = some .full) :
    Resettable (.rolledBack true :: popped.conn.log) profile :=
  ⟨⟨inv.flags.past.resets, inv.flags.past.handOuts⟩, rfl, full, inv.sound⟩

theorem reset_covered {log : List Event} {profile : ResetProfile}
    (inv : Resettable log (some profile)) : Ready (.reset profile true :: log) := by
  refine ⟨⟨⟨inv.session, inv.past.resets⟩, inv.past.handOuts⟩, inv.session, ?_, inv.sound⟩
  cases profile with
  | full => rfl
  | targeted =>
    rw [Bool.eq_false_iff]
    intro left
    cases inv.full left

theorem fresh_ready : Ready [] :=
  ⟨⟨trivial, trivial⟩, rfl, rfl, rfl⟩

theorem handsOut_covered (permit : Nat) {conn : Conn} (ready : Ready conn.log) :
    PhaseCovered (handsOut permit conn) := by
  have past := ready_hands ready
  refine ⟨⟨past, ?_, ?_⟩, ?_⟩
  · intro inside
    exact absurd ready.session inside
  · intro left
    exact absurd (left : dirty conn.log = true) (Bool.eq_false_iff.mp ready.clean)
  · intro bad
    exact absurd (bad : condemned conn.log = true) (Bool.eq_false_iff.mp ready.sound)

/-! ## Steps -/

structure PoolCovered (s : State) : Prop where
  idle : ∀ popped ∈ s.idle, IdleCovered popped
  tasks : ∀ phase ∈ s.tasks, PhaseCovered phase

def TruthfulLabel (s : State) : Label → Prop
  | .task i (.uses op) =>
    ∀ permit co, s.tasks[i]? = some (.guarded permit co) → TruthfulOp co.handle op
  | _ => True

theorem put_covered {s t : State} (inv : PoolCovered s) {i : Nat} {new : Phase}
    (idle : ∀ popped ∈ t.idle, popped ∈ s.idle ∨ IdleCovered popped)
    (tasks : t.tasks = s.tasks.set i new) (covered : PhaseCovered new) : PoolCovered t := by
  refine ⟨?_, ?_⟩
  · intro popped member
    rcases idle popped member with old | new
    · exact inv.idle popped old
    · exact new
  · intro phase member
    rw [tasks] at member
    rcases List.mem_or_eq_of_mem_set member with old | rfl
    · exact inv.tasks phase old
    · exact covered

theorem checkoutStep_covered {cfg : Config} {s t : State} {i : Nat} {old : Phase} {e : Step}
    (inv : PoolCovered s) (here : PhaseCovered old)
    (truthful : ∀ permit co op, old = .guarded permit co → e = .uses op → TruthfulOp co.handle op)
    (taken : checkoutStep cfg s i old e = some t) : PoolCovered t := by
  have same : ∀ {new : Phase}, PhaseCovered new → PoolCovered (s.put i new) := fun covered =>
    put_covered inv (fun _ member => .inl member) rfl covered
  have gone : ∀ {conn : Conn} {new : Phase}, PhaseCovered new →
      PoolCovered ((s.lets conn).put i new) := fun covered =>
    put_covered inv (fun _ member => .inl member) rfl covered
  unfold checkoutStep at taken
  split at taken
  · split at taken
    · cases taken
      exact put_covered inv (fun _ member => .inl member) rfl trivial
    · cases taken
  · cases taken
    exact same trivial
  · cases taken
    exact same trivial
  · split at taken
    · rename_i popped idle stack
      cases taken
      refine put_covered inv ?_ rfl (inv.idle popped (by rw [stack]; exact .head _))
      intro other member
      rw [stack]
      exact .inl (.tail _ member)
    · cases taken
      exact same trivial
  · cases taken
    exact put_covered inv (fun _ member => .inl member) rfl fresh_ready
  · cases taken
    exact same trivial
  · cases taken
    exact same trivial
  · cases taken
    exact same trivial
  · cases taken
    exact same (handsOut_covered _ here)
  · cases taken
    exact gone trivial
  · cases taken
    exact gone trivial
  · split at taken
    · cases taken
      exact gone trivial
    · cases taken
      exact same (cleanup_covered cfg _ here)
  · cases taken
    exact same (afterRollback_covered (rolledBack_covered here.1 here.2))
  · cases taken
    exact same (reset_covered here)
  · cases taken
    exact gone trivial
  · cases taken
    exact gone trivial
  · cases taken
    exact gone trivial
  · cases taken
    exact gone trivial
  · cases taken
    exact gone trivial
  · cases taken
    exact gone trivial
  · cases taken
    exact gone trivial
  · cases taken
    exact same (handsOut_covered _ here)
  · cases taken
    exact gone trivial
  · rename_i permit co op
    obtain ⟨co', applied, rfl⟩ := Option.map_eq_some_iff.mp taken
    have covered : PhaseCovered (.guarded permit co') :=
      apply_covered here (truthful permit co op rfl rfl) applied
    exact same covered
  · rename_i permit co closed
    split at taken
    · cases taken
    split at taken
    · cases taken
      exact gone trivial
    · rename_i keeps
      cases taken
      have returned : IdleCovered ⟨co.conn, co.txOpen, co.tainted⟩ := by
        refine ⟨here.flags, ?_⟩
        rw [Bool.eq_false_iff]
        intro bad
        exact keeps (by rw [here.latch bad]; rfl)
      refine put_covered inv ?_ rfl trivial
      intro other member
      rcases List.mem_cons.mp member with rfl | old
      · exact .inr returned
      · exact .inl old
  · cases taken
    exact put_covered inv (fun _ member => .inl member) rfl trivial
  · cases taken

theorem reaperStep_covered {s t : State} {i : Nat} {old : Phase} {e : Step}
    (inv : PoolCovered s) (here : PhaseCovered old) (taken : reaperStep s i old e = some t) :
    PoolCovered t := by
  have same : ∀ {new : Phase}, PhaseCovered new → PoolCovered (s.put i new) := fun covered =>
    put_covered inv (fun _ member => .inl member) rfl covered
  unfold reaperStep at taken
  split at taken
  · cases taken
    exact same trivial
  · cases taken
    exact same trivial
  · split at taken
    · cases taken
      exact put_covered inv (fun _ member => .inl member) rfl trivial
    · cases taken
      exact same trivial
  · split at taken
    · rename_i popped idle stack
      cases taken
      refine put_covered inv ?_ rfl (inv.idle popped (by rw [stack]; exact .head _))
      intro other member
      rw [stack]
      exact .inl (.tail _ member)
    · cases taken
      exact same trivial
  · rename_i tooOld closed
    cases taken
    cases tooOld || closed with
    | true => exact same trivial
    | false => exact same here
  · rename_i popped budget
    cases taken
    refine put_covered inv ?_ rfl trivial
    intro other member
    rcases List.mem_cons.mp member with rfl | old
    · exact .inr here
    · exact .inl old
  · cases taken
    exact same trivial
  · cases taken
    exact put_covered inv (fun _ member => .inl member) rfl trivial
  · cases taken
    exact put_covered inv (fun _ member => .inl member) rfl trivial
  · cases taken
    exact put_covered inv (fun _ member => .inl member) rfl trivial
  · cases taken
    exact put_covered inv (fun _ member => .inl member) rfl trivial
  · cases taken

theorem step_covered {cfg : Config} {s t : State} {a : Label} (inv : PoolCovered s)
    (truthful : TruthfulLabel s a) (taken : step cfg s a = some t) : PoolCovered t := by
  cases a with
  | checksOut =>
    cases taken
    refine ⟨inv.idle, ?_⟩
    intro phase member
    rcases List.mem_append.mp member with old | new
    · exact inv.tasks phase old
    · rw [List.mem_singleton.mp new]
      trivial
  | task i e =>
    rw [step] at taken
    split at taken
    · rename_i phase found
      have here := inv.tasks phase (List.mem_of_getElem? found)
      split at taken
      · exact reaperStep_covered inv here taken
      · refine checkoutStep_covered inv here ?_ taken
        rintro permit co op rfl rfl
        exact truthful permit co found
    · cases taken

/-! ## One place for each connection -/

def idOf : Phase → Option Nat
  | .armingFresh _ conn => some conn.id
  | .inspecting _ popped | .rollingBack _ popped _ | .resetting _ popped _ | .arming _ popped
  | .reapInspecting _ popped _ | .pinging _ popped _ | .evicting popped _ => some popped.conn.id
  | .guarded _ co => some co.conn.id
  | .reapLeaving _ evicted _ => evicted.map fun popped => popped.conn.id
  | _ => none

def idleIds (s : State) : List Nat :=
  s.idle.map fun popped => popped.conn.id

def droppedIds (s : State) : List Nat :=
  s.dropped.map Conn.id

/-- The connections that the pool has now or has let go. -/
def known (s : State) : List Nat :=
  s.tasks.filterMap idOf ++ (idleIds s ++ droppedIds s)

/-- A step moves a connection, or dials one. -/
structure Carried (s t : State) (old new : Phase) (fresh : List Nat) : Prop where
  dialled : List.range t.dialled = List.range s.dialled ++ fresh
  moved : ∀ id, (idOf new).toList.count id + ((idleIds t).count id + (droppedIds t).count id) =
    (idOf old).toList.count id + ((idleIds s).count id + (droppedIds s).count id) + fresh.count id

theorem same_carried {s t : State} {old new : Phase} (dialled : t.dialled = s.dialled)
    (idle : t.idle = s.idle) (dropped : t.dropped = s.dropped) (same : idOf new = idOf old) :
    Carried s t old new [] := by
  refine ⟨?_, ?_⟩
  · rw [dialled, List.append_nil]
  · intro id
    rw [same, idleIds, idleIds, droppedIds, droppedIds, idle, dropped, List.count_nil, Nat.add_zero]

theorem lets_carried (s : State) (i : Nat) {conn : Conn} {old new : Phase}
    (before : idOf old = some conn.id) (after : idOf new = none) :
    Carried s ((s.lets conn).put i new) old new [] := by
  refine ⟨(List.append_nil _).symm, ?_⟩
  intro id
  have added : droppedIds ((s.lets conn).put i new) = [conn.id] ++ droppedIds s := rfl
  rw [before, after, added, List.count_append, List.count_nil]
  dsimp only [Option.toList, idleIds, State.put, State.lets]
  rw [List.count_nil]
  omega

theorem pushes_carried (s : State) (i : Nat) {popped : IdleConn} {old new : Phase}
    (before : idOf old = some popped.conn.id) (after : idOf new = none) :
    Carried s ((s.pushes popped).put i new) old new [] := by
  refine ⟨(List.append_nil _).symm, ?_⟩
  intro id
  have added : idleIds ((s.pushes popped).put i new) = [popped.conn.id] ++ idleIds s := rfl
  rw [before, after, added, List.count_append, List.count_nil]
  dsimp only [Option.toList, droppedIds, State.put, State.pushes]
  rw [List.count_nil]
  omega

theorem pops_carried {s : State} (i : Nat) {popped : IdleConn} {idle : List IdleConn}
    (stack : s.idle = popped :: idle) {old new : Phase} (before : idOf old = none)
    (after : idOf new = some popped.conn.id) :
    Carried s ({ s with idle := idle }.put i new) old new [] := by
  refine ⟨(List.append_nil _).symm, ?_⟩
  intro id
  have split : idleIds s = [popped.conn.id] ++ idle.map fun popped => popped.conn.id := by
    rw [idleIds, stack]
    rfl
  rw [before, after, split, List.count_append, List.count_nil]
  dsimp only [Option.toList, idleIds, droppedIds, State.put]
  rw [List.count_nil]
  omega

theorem dials_carried (s : State) (i permit : Nat) :
    Carried s ({ s with dialled := s.dialled + 1 }.put i (.armingFresh permit ⟨s.dialled, []⟩))
      (.dialling permit) (.armingFresh permit ⟨s.dialled, []⟩) [s.dialled] := by
  refine ⟨List.range_succ, ?_⟩
  intro id
  dsimp only [idOf, Option.toList, idleIds, droppedIds, State.put]
  rw [List.count_nil]
  omega

/-- No operation exchanges the connection of a guard. -/
theorem apply_id {cfg : Config} {co co' : Checkout} {op : Op} (taken : co.apply cfg op = some co') :
    co'.conn.id = co.conn.id := by
  have runs : ∀ (verdict : TxControlGuard.TxControlVerdict) sql ok after,
      (co.runs cfg verdict sql ok after).conn.id = co.conn.id := by
    intro verdict sql ok after
    obtain ⟨classified, same⟩ := runs_concludes cfg co verdict sql ok after
    rw [same]
    rfl
  have query : ∀ sql params ok after, (co.query cfg sql params ok after).conn.id = co.conn.id := by
    intro sql params ok after
    rw [Checkout.query]
    split
    · exact runs _ _ _ _
    · rfl
  unfold Checkout.apply at taken
  split at taken
  · cases taken
    rfl
  · cases taken
    rfl
  · cases taken
    rfl
  · cases taken
    rfl
  · cases taken
    exact query _ _ _ _
  · cases taken
    exact query _ _ _ _
  · cases taken
    rw [Checkout.queryStream]
    split
    · split
      · rfl
      · rfl
    · rfl
  · cases taken
    unfold Checkout.copy
    split
    · split
      · rfl
      · unfold Checkout.copyOpenFailed
        split
        · rfl
        · rfl
    · rfl
  · cases taken
    rfl
  · cases taken
    rfl
  · cases taken
    rfl
  · rename_i answer after alive
    cases taken
    cases answer with
    | drainTimedOut => rfl
    | reclaimed lateError => rfl
    | notReclaimed => rfl
  · cases taken
    rfl
  · cases taken
    rfl
  · rename_i acknowledged after alive
    cases taken
    cases acknowledged with
    | true => rfl
    | false => rfl
  · cases taken
    rfl
  · rename_i answer after alive
    cases taken
    cases answer with
    | drained lateError => rfl
    | timedOut => rfl
  · cases taken
    rfl
  · cases taken

theorem afterRollback_id (permit : Nat) (popped : IdleConn) (profile : Option ResetProfile) :
    idOf (afterRollback permit popped profile) = some popped.conn.id := by
  cases profile with
  | none => rfl
  | some profile => rfl

theorem cleanup_id (cfg : Config) (permit : Nat) (popped : IdleConn) :
    idOf (cleanup cfg permit popped) = some popped.conn.id := by
  rw [cleanup]
  split
  · rfl
  · exact afterRollback_id permit popped _

theorem checkoutStep_carried {cfg : Config} {s t : State} {i : Nat} {old : Phase} {e : Step}
    (taken : checkoutStep cfg s i old e = some t) :
    ∃ new fresh, t.tasks = s.tasks.set i new ∧ Carried s t old new fresh := by
  unfold checkoutStep at taken
  split at taken
  · split at taken
    · cases taken
      exact ⟨_, _, rfl, same_carried rfl rfl rfl rfl⟩
    · cases taken
  · cases taken
    exact ⟨_, _, rfl, same_carried rfl rfl rfl rfl⟩
  · cases taken
    exact ⟨_, _, rfl, same_carried rfl rfl rfl rfl⟩
  · split at taken
    · rename_i popped idle stack
      cases taken
      exact ⟨_, _, rfl, pops_carried i stack rfl rfl⟩
    · cases taken
      exact ⟨_, _, rfl, same_carried rfl rfl rfl rfl⟩
  · cases taken
    exact ⟨_, _, rfl, dials_carried s i _⟩
  · cases taken
    exact ⟨_, _, rfl, same_carried rfl rfl rfl rfl⟩
  · cases taken
    exact ⟨_, _, rfl, same_carried rfl rfl rfl rfl⟩
  · cases taken
    exact ⟨_, _, rfl, same_carried rfl rfl rfl rfl⟩
  · cases taken
    exact ⟨_, _, rfl, same_carried rfl rfl rfl rfl⟩
  · cases taken
    exact ⟨_, _, rfl, lets_carried s i rfl rfl⟩
  · cases taken
    exact ⟨_, _, rfl, lets_carried s i rfl rfl⟩
  · rename_i permit popped tooOld closed
    split at taken
    · cases taken
      exact ⟨_, _, rfl, lets_carried s i rfl rfl⟩
    · cases taken
      exact ⟨_, _, rfl, same_carried rfl rfl rfl (cleanup_id cfg permit popped)⟩
  · cases taken
    exact ⟨_, _, rfl, same_carried rfl rfl rfl (afterRollback_id _ _ _)⟩
  · cases taken
    exact ⟨_, _, rfl, same_carried rfl rfl rfl rfl⟩
  · cases taken
    exact ⟨_, _, rfl, lets_carried s i rfl rfl⟩
  · cases taken
    exact ⟨_, _, rfl, lets_carried s i rfl rfl⟩
  · cases taken
    exact ⟨_, _, rfl, lets_carried s i rfl rfl⟩
  · cases taken
    exact ⟨_, _, rfl, lets_carried s i rfl rfl⟩
  · cases taken
    exact ⟨_, _, rfl, lets_carried s i rfl rfl⟩
  · cases taken
    exact ⟨_, _, rfl, lets_carried s i rfl rfl⟩
  · cases taken
    exact ⟨_, _, rfl, lets_carried s i rfl rfl⟩
  · cases taken
    exact ⟨_, _, rfl, same_carried rfl rfl rfl rfl⟩
  · cases taken
    exact ⟨_, _, rfl, lets_carried s i rfl rfl⟩
  · obtain ⟨co, applied, rfl⟩ := Option.map_eq_some_iff.mp taken
    exact ⟨_, _, rfl, same_carried rfl rfl rfl (congrArg some (apply_id applied))⟩
  · split at taken
    · cases taken
    split at taken
    · cases taken
      exact ⟨_, _, rfl, lets_carried s i rfl rfl⟩
    · cases taken
      exact ⟨_, _, rfl, pushes_carried s i rfl rfl⟩
  · cases taken
    exact ⟨_, _, rfl, same_carried rfl rfl rfl rfl⟩
  · cases taken

theorem reaperStep_carried {s t : State} {i : Nat} {old : Phase} {e : Step}
    (taken : reaperStep s i old e = some t) :
    ∃ new fresh, t.tasks = s.tasks.set i new ∧ Carried s t old new fresh := by
  unfold reaperStep at taken
  split at taken
  · cases taken
    exact ⟨_, _, rfl, same_carried rfl rfl rfl rfl⟩
  · cases taken
    exact ⟨_, _, rfl, same_carried rfl rfl rfl rfl⟩
  · split at taken
    · cases taken
      exact ⟨_, _, rfl, same_carried rfl rfl rfl rfl⟩
    · cases taken
      exact ⟨_, _, rfl, same_carried rfl rfl rfl rfl⟩
  · split at taken
    · rename_i popped idle stack
      cases taken
      exact ⟨_, _, rfl, pops_carried i stack rfl rfl⟩
    · cases taken
      exact ⟨_, _, rfl, same_carried rfl rfl rfl rfl⟩
  · rename_i tooOld closed
    cases taken
    cases tooOld || closed with
    | true => exact ⟨_, _, rfl, same_carried rfl rfl rfl rfl⟩
    | false => exact ⟨_, _, rfl, same_carried rfl rfl rfl rfl⟩
  · cases taken
    exact ⟨_, _, rfl, pushes_carried s i rfl rfl⟩
  · cases taken
    exact ⟨_, _, rfl, same_carried rfl rfl rfl rfl⟩
  · cases taken
    exact ⟨_, _, rfl, same_carried rfl rfl rfl rfl⟩
  · cases taken
    exact ⟨_, _, rfl, same_carried rfl rfl rfl rfl⟩
  · cases taken
    exact ⟨_, _, rfl, same_carried rfl rfl rfl rfl⟩
  · cases taken
    exact ⟨_, _, rfl, lets_carried s i rfl rfl⟩
  · cases taken

def Known (s : State) : Prop :=
  (known s).Perm (List.range s.dialled)

theorem known_count {s : State} {phase : Phase} {others : List Phase}
    (perm : s.tasks.Perm (phase :: others)) (id : Nat) :
    (known s).count id = (others.filterMap idOf).count id +
      ((idOf phase).toList.count id + ((idleIds s).count id + (droppedIds s).count id)) := by
  have mapped := (perm.filterMap idOf).count_eq id
  rw [known, List.count_append, List.count_append, mapped, List.filterMap_cons]
  cases idOf phase with
  | none =>
    dsimp only [Option.toList]
    rw [List.count_nil]
    omega
  | some here =>
    dsimp only [Option.toList]
    rw [← List.singleton_append, List.count_append]
    omega

theorem step_known {cfg : Config} {s t : State} {a : Label} (inv : Known s)
    (taken : step cfg s a = some t) : Known t := by
  cases a with
  | checksOut =>
    cases taken
    have same : known { s with tasks := s.tasks ++ [.waiting] } = known s := by
      simp [known, idOf, idleIds, droppedIds]
    rw [Known, same]
    exact inv
  | task i e =>
    have moved : ∃ old new fresh, s.tasks[i]? = some old ∧ t.tasks = s.tasks.set i new ∧
        Carried s t old new fresh := by
      rw [step] at taken
      split at taken
      · rename_i old found
        split at taken
        · obtain ⟨new, fresh, tasks, carried⟩ := reaperStep_carried taken
          exact ⟨old, new, fresh, found, tasks, carried⟩
        · obtain ⟨new, fresh, tasks, carried⟩ := checkoutStep_carried taken
          exact ⟨old, new, fresh, found, tasks, carried⟩
      · cases taken
    obtain ⟨old, new, fresh, found, tasks, carried⟩ := moved
    obtain ⟨others, before, after⟩ := PoolCapacity.tasks_split found tasks
    rw [Known, carried.dialled]
    refine List.Perm.trans ?_ (List.Perm.append_right fresh inv)
    rw [List.perm_iff_count]
    intro id
    have here := carried.moved id
    rw [List.count_append, known_count before, known_count after]
    omega

/-! ## Runs -/

/-- Every hand-out was of a connection in no transaction, with every taint behind a Full reset, and
never condemned; no condemned connection is idle; and a connection is in one place or let go for
good. -/
theorem poolIsolation_safe {cfg : Config} {reaper : Bool} {labels : List Label} {s : State}
    (truthful : Meets (step cfg) TruthfulLabel (.start cfg reaper) labels)
    (reached : run (step cfg) (.start cfg reaper) labels = some s) :
    (∀ permit co, .guarded permit co ∈ s.tasks →
      HandOutsClean co.conn.log ∧ ResetsOutside co.conn.log) ∧
    (∀ popped ∈ s.idle, condemned popped.conn.log = false) ∧
    (known s).Perm (List.range s.dialled) := by
  have start : PoolCovered (.start cfg reaper) ∧ Known (.start cfg reaper) := by
    cases reaper with
    | true => exact ⟨⟨by simp [State.start], by simp [State.start, PhaseCovered]⟩, .refl _⟩
    | false => exact ⟨⟨by simp [State.start], by simp [State.start]⟩, .refl _⟩
  have covered : PoolCovered s :=
    run_invariant (step cfg) (fun inv truthful taken => step_covered inv truthful taken) start.1
      truthful reached
  have known : Known s :=
    run_always (step cfg) (fun inv taken => step_known inv taken) start.2 reached
  refine ⟨?_, fun popped member => (covered.idle popped member).sound, known⟩
  intro permit co member
  have here : CheckoutCovered co := covered.tasks _ member
  exact ⟨here.flags.past.handOuts, here.flags.past.resets⟩

/-- A statement fails inside a transaction, the guard goes back, and the next tenant gets the
connection. -/
def handover : List Label :=
  [.checksOut, .task 0 .acquires, .task 0 .pops, .task 0 (.dials true), .task 0 (.arms true),
    .task 0 (.uses (.beginTxWith true ⟨.inTx, false, .inTx⟩)),
    .task 0 (.uses (.txControl false ⟨.inTx, false, .failed⟩)), .task 0 (.drops false),
    .task 0 .returnsPermit, .checksOut, .task 1 .acquires, .task 1 .pops,
    .task 1 (.inspects false false), .task 1 (.rollsBack true), .task 1 (.resets true),
    .task 1 (.arms true)]

def tenantLog : List Event :=
  [.handedOut, .reset .full true, .rolledBack true, .ran true false false .failed,
    .ran false false false .inTx, .handedOut]

def handedOver : State :=
  { available := 1
    idle := []
    tasks := [.finished, .guarded 1 (.new ⟨0, tenantLog⟩)]
    next := 2
    returned := [0]
    dialled := 1
    dropped := [] }

theorem handover_truthful (a : Label) (member : a ∈ handover) (s : State) : TruthfulLabel s a := by
  simp only [handover, List.mem_cons, List.not_mem_nil, or_false] at member
  rcases member with rfl | rfl | rfl | rfl | rfl | rfl | rfl | rfl | rfl | rfl | rfl | rfl | rfl |
    rfl | rfl | rfl
  case inr.inr.inr.inr.inr.inl => exact fun _ _ _ _ => rfl
  case inr.inr.inr.inr.inr.inr.inl => exact fun _ _ _ ok => by cases ok
  all_goals trivial

theorem poolIsolation_safe_handover :
    run (step PoolCapacity.pgPool) (.start PoolCapacity.pgPool false) handover = some handedOver ∧
      HandOutsClean tenantLog ∧ ResetsOutside tenantLog := by
  have reached : run (step PoolCapacity.pgPool) (.start PoolCapacity.pgPool false) handover =
      some handedOver := by decide
  have truthful := meets_of_forall (step PoolCapacity.pgPool) handover_truthful
    (.start PoolCapacity.pgPool false)
  obtain ⟨handOuts, -, -⟩ := poolIsolation_safe truthful reached
  have clean := handOuts 1 (.new ⟨0, tenantLog⟩) (.tail _ (.head _))
  exact ⟨reached, clean⟩

end FerroEngine.PoolIsolation
