import FerroEngine.DecimalText
import Mathlib.Data.List.Basic

set_option autoImplicit false

/-! # Savepoints of a transaction

The `SavepointStack` of `ferrod/src/tx/actor.rs`, the actor's three savepoint commands and the
backend's own stack.
-/

namespace FerroEngine.TxSavepoints

open DecimalText

structure SavepointEntry where
  engineName : Text
  clientName : Option Text
  deriving DecidableEq, Repr

/-- The entries stand in the order of their commands; the last one is the top. -/
structure SavepointStack where
  counter : Nat
  stack : List SavepointEntry
  deriving DecidableEq, Repr

namespace SavepointStack

def new : SavepointStack :=
  ⟨0, []⟩

end SavepointStack

/-- `sp_{n}`. -/
def engineName (n : Nat) : Text :=
  [115, 112, 95] ++ decimal n

namespace SavepointStack

variable (sp : SavepointStack)

def push (clientName : Option Text) : Text × SavepointStack :=
  (engineName (sp.counter + 1),
    ⟨sp.counter + 1, sp.stack ++ [⟨engineName (sp.counter + 1), clientName⟩]⟩)

def pop : SavepointStack :=
  ⟨sp.counter, sp.stack.dropLast⟩

end SavepointStack

def SavepointEntry.named (e : SavepointEntry) (n : Text) : Bool :=
  e.clientName == some n || e.engineName == n

namespace SavepointStack

variable (sp : SavepointStack)

def resolve : Option Text → Option (Nat × Text)
  | none => sp.stack.getLast?.map fun e => (sp.stack.length - 1, e.engineName)
  | some n =>
    (sp.stack.zipIdx.reverse.find? fun p => p.1.named n).map fun p => (p.2, p.1.engineName)

def truncateRelease (idx : Nat) : SavepointStack :=
  ⟨sp.counter, sp.stack.take idx⟩

def truncateRollbackTo (idx : Nat) : SavepointStack :=
  ⟨sp.counter, sp.stack.take (idx + 1)⟩

end SavepointStack

/-! ## The commands -/

inductive TxCommand where
  | savepoint (name : Option Text)
  | release (name : Option Text)
  | rollbackTo (name : Option Text)
  deriving DecidableEq, Repr

inductive CtlReply where
  | ok
  | err
  | unknownSavepoint
  deriving DecidableEq, Repr

/-- What `tx_control` sends: `SAVEPOINT {engine}`, `RELEASE {engine}` or `ROLLBACK TO {engine}`. -/
inductive Control where
  | savepoint (engine : Text)
  | release (engine : Text)
  | rollbackTo (engine : Text)
  deriving DecidableEq, Repr

/-- The statement of a command, if the command reaches the backend. -/
def control (sp : SavepointStack) : TxCommand → Option Control
  | .savepoint name => some (.savepoint (sp.push name).1)
  | .release name => (sp.resolve name).map fun p => .release p.2
  | .rollbackTo name => (sp.resolve name).map fun p => .rollbackTo p.2

/-- One command, by whether the backend takes its statement. -/
def command (sp : SavepointStack) (accepted : Bool) : TxCommand → SavepointStack × CtlReply
  | .savepoint name =>
    let pushed := (sp.push name).2
    if accepted then (pushed, .ok) else (pushed.pop, .err)
  | .release name =>
    match sp.resolve name with
    | none => (sp, .unknownSavepoint)
    | some (idx, _) => if accepted then (sp.truncateRelease idx, .ok) else (sp, .err)
  | .rollbackTo name =>
    match sp.resolve name with
    | none => (sp, .unknownSavepoint)
    | some (idx, _) => if accepted then (sp.truncateRollbackTo idx, .ok) else (sp, .err)

/-! ## The backend -/

/-- A backend's savepoints through one statement. A name that is used again hides the older
savepoint, or replaces it; a release and a rollback go to the newest savepoint of the name. -/
inductive Backend : List Text → Control → Bool → List Text → Prop
  | failed {names : List Text} {c : Control} : Backend names c false names
  | hides {names : List Text} {n : Text} : Backend names (.savepoint n) true (names ++ [n])
  | replaces {names : List Text} {n : Text} :
      Backend names (.savepoint n) true (names.filter (· ≠ n) ++ [n])
  | release {below above : List Text} {n : Text} :
      n ∉ above → Backend (below ++ n :: above) (.release n) true below
  | rollbackTo {below above : List Text} {n : Text} :
      n ∉ above → Backend (below ++ n :: above) (.rollbackTo n) true (below ++ [n])

/-- The engine's stack, the backend's savepoints and every name that the engine made. -/
structure Tx where
  sp : SavepointStack
  names : List Text
  issued : List Text

def issue (sp : SavepointStack) : TxCommand → List Text
  | .savepoint name => [(sp.push name).1]
  | _ => []

/-- One command of a transaction with the backend's answer. -/
inductive Step : Tx → TxCommand → Bool → Tx → Prop
  | sent {tx : Tx} {cmd : TxCommand} {c : Control} {accepted : Bool} {names : List Text} :
      control tx.sp cmd = some c → Backend tx.names c accepted names →
      Step tx cmd accepted ⟨(command tx.sp accepted cmd).1, names, tx.issued ++ issue tx.sp cmd⟩
  | unknown {tx : Tx} {cmd : TxCommand} {accepted : Bool} :
      control tx.sp cmd = none →
      Step tx cmd accepted ⟨(command tx.sp accepted cmd).1, tx.names, tx.issued⟩

inductive Run : List (TxCommand × Bool) → Tx → Prop
  | start : Run [] ⟨.new, [], []⟩
  | step {history : List (TxCommand × Bool)} {tx tx' : Tx} {cmd : TxCommand} {accepted : Bool} :
      Run history tx → Step tx cmd accepted tx' → Run (history ++ [(cmd, accepted)]) tx'

/-! ## Names -/

theorem engineName_inj {m n : Nat} (same : engineName m = engineName n) : m = n := by
  have digits := congrArg value (List.append_cancel_left same)
  rw [value_decimal, value_decimal] at digits
  exact digits

/-- The numbers of the live savepoints grow from the bottom, and none is above the counter. -/
structure Ordered (sp : SavepointStack) : Prop where
  numbers : ∃ ns : List Nat, sp.stack.map (·.engineName) = ns.map engineName ∧
    ns.Pairwise (· < ·) ∧ ∀ n ∈ ns, n ≤ sp.counter

theorem ordered_new : Ordered .new :=
  ⟨[], rfl, List.Pairwise.nil, nofun⟩

theorem ordered_take {sp : SavepointStack} (ordered : Ordered sp) (k : Nat) :
    Ordered ⟨sp.counter, sp.stack.take k⟩ := by
  obtain ⟨ns, names, grow, bounded⟩ := ordered
  refine ⟨ns.take k, ?_, grow.sublist (List.take_sublist k ns), ?_⟩
  · rw [List.map_take, names, List.map_take]
  · intro n member
    exact bounded n (List.mem_of_mem_take member)

theorem ordered_push {sp : SavepointStack} (ordered : Ordered sp) (name : Option Text) :
    Ordered (sp.push name).2 := by
  obtain ⟨ns, names, grow, bounded⟩ := ordered
  refine ⟨ns ++ [sp.counter + 1], ?_, ?_, ?_⟩
  · rw [SavepointStack.push, List.map_append, names, List.map_append]
    rfl
  · refine List.pairwise_append.mpr ⟨grow, List.pairwise_singleton _ _, ?_⟩
    intro a member b last
    rw [List.mem_singleton.mp last]
    exact Nat.lt_succ_of_le (bounded a member)
  · intro n member
    obtain old | new := List.mem_append.mp member
    · exact Nat.le_succ_of_le (bounded n old)
    · exact (List.mem_singleton.mp new).le

theorem pop_push (sp : SavepointStack) (name : Option Text) :
    (sp.push name).2.pop = ⟨sp.counter + 1, sp.stack⟩ := by
  unfold SavepointStack.push SavepointStack.pop
  rw [List.dropLast_concat]

theorem ordered_pop_push {sp : SavepointStack} (ordered : Ordered sp) (name : Option Text) :
    Ordered (sp.push name).2.pop := by
  obtain ⟨ns, names, grow, bounded⟩ := ordered
  rw [pop_push]
  exact ⟨ns, names, grow, fun n member => Nat.le_succ_of_le (bounded n member)⟩

theorem ordered_nodup {sp : SavepointStack} (ordered : Ordered sp) :
    (sp.stack.map (·.engineName)).Nodup := by
  obtain ⟨ns, names, grow, -⟩ := ordered
  rw [names]
  apply List.pairwise_map.mpr
  apply grow.imp
  intro m n less same
  exact Nat.ne_of_lt less (engineName_inj same)

/-! ## Resolution -/

/-- The top of a stack that is split at an entry. -/
theorem split_top {front below above : List SavepointEntry} {top e : SavepointEntry}
    (whole : front ++ [top] = below ++ e :: above) :
    (above = [] ∧ front = below ∧ top = e) ∨
      ∃ rest, above = rest ++ [top] ∧ front = below ++ e :: rest := by
  obtain rfl | ⟨rest, last, rfl⟩ := List.eq_nil_or_concat' above
  · obtain ⟨same, tops⟩ := List.append_inj' whole rfl
    cases tops
    exact .inl ⟨rfl, same, rfl⟩
  · rw [← List.cons_append, ← List.append_assoc] at whole
    obtain ⟨same, tops⟩ := List.append_inj' whole rfl
    cases tops
    exact .inr ⟨rest, rfl, same⟩

/-- A resolved name stands for the entry at its index, and no higher entry has the name. -/
theorem resolve_some {sp : SavepointStack} {n : Text} {idx : Nat} {engine : Text} :
    sp.resolve (some n) = some (idx, engine) ↔
      ∃ below e above, sp.stack = below ++ e :: above ∧ below.length = idx ∧
        e.engineName = engine ∧ e.named n = true ∧ ∀ a ∈ above, a.named n = false := by
  obtain ⟨counter, stack⟩ := sp
  unfold SavepointStack.resolve
  dsimp only
  induction stack using List.reverseRecOn with
  | nil =>
    constructor
    · intro found
      cases found
    · rintro ⟨below, e, above, whole, -⟩
      exact absurd whole.symm (by simp)
  | append_singleton front top ih =>
    have turned : (front ++ [top]).zipIdx.reverse = (top, front.length) :: front.zipIdx.reverse := by
      rw [List.zipIdx_append]
      simp
    rw [turned, List.find?_cons]
    cases hit : top.named n with
    | true =>
      simp only [Option.map_some, Option.some.injEq, Prod.mk.injEq]
      constructor
      · rintro ⟨rfl, rfl⟩
        exact ⟨front, top, [], rfl, rfl, rfl, hit, nofun⟩
      · rintro ⟨below, e, above, whole, rfl, rfl, named, none⟩
        obtain ⟨rfl, rfl, rfl⟩ | ⟨rest, rfl, -⟩ := split_top whole
        · exact ⟨rfl, rfl⟩
        · have miss := none top (List.mem_append_right _ (List.mem_singleton_self top))
          rw [hit] at miss
          cases miss
    | false =>
      dsimp only
      rw [ih]
      constructor
      · rintro ⟨below, e, above, rfl, length, name, named, none⟩
        refine ⟨below, e, above ++ [top], by simp, length, name, named, ?_⟩
        intro a member
        obtain old | new := List.mem_append.mp member
        · exact none a old
        · rw [List.mem_singleton.mp new]
          exact hit
      · rintro ⟨below, e, above, whole, length, name, named, none⟩
        obtain ⟨-, -, rfl⟩ | ⟨rest, rfl, same⟩ := split_top whole
        · rw [named] at hit
          cases hit
        · exact ⟨below, e, rest, same, length, name, named,
            fun a member => none a (List.mem_append_left _ member)⟩

/-- A resolution leads to a live savepoint. -/
theorem resolve_live {sp : SavepointStack} {name : Option Text} {idx : Nat} {engine : Text}
    (found : sp.resolve name = some (idx, engine)) :
    ∃ below e above, sp.stack = below ++ e :: above ∧ below.length = idx ∧
      e.engineName = engine := by
  cases name with
  | some n =>
    obtain ⟨below, e, above, whole, length, same, -⟩ := resolve_some.mp found
    exact ⟨below, e, above, whole, length, same⟩
  | none =>
    unfold SavepointStack.resolve at found
    obtain ⟨e, last, same⟩ := Option.map_eq_some_iff.mp found
    obtain ⟨below, whole⟩ := List.getLast?_eq_some_iff.mp last
    cases same
    refine ⟨below, e, [], whole, ?_, rfl⟩
    rw [whole, List.length_append, List.length_singleton, Nat.add_sub_cancel]

/-! ## The simulation -/

/-- The names of the live savepoints, from the bottom. -/
def liveNames (sp : SavepointStack) : List Text :=
  sp.stack.map (·.engineName)

/-- What holds between the engine and the backend. -/
structure Agrees (tx : Tx) : Prop where
  same : tx.names = liveNames tx.sp
  ordered : Ordered tx.sp
  issued : tx.issued = (List.range tx.sp.counter).map fun n => engineName (n + 1)

theorem agrees_start : Agrees ⟨.new, [], []⟩ :=
  ⟨rfl, ordered_new, rfl⟩

theorem fresh_name {sp : SavepointStack} (ordered : Ordered sp) :
    engineName (sp.counter + 1) ∉ liveNames sp := by
  obtain ⟨ns, names, -, bounded⟩ := ordered
  unfold liveNames
  rw [names]
  intro member
  obtain ⟨n, old, same⟩ := List.mem_map.mp member
  have bound := bounded n old
  have number := engineName_inj same
  omega

/-- The backend's savepoints below the one of a live entry's name. -/
theorem below_live {sp : SavepointStack} (ordered : Ordered sp)
    {below above : List SavepointEntry} {e : SavepointEntry} {below' above' : List Text}
    (whole : sp.stack = below ++ e :: above)
    (same : below' ++ e.engineName :: above' = liveNames sp) :
    below' = below.map (·.engineName) := by
  have nodup := ordered_nodup ordered
  unfold liveNames at same
  rw [whole, List.map_append, List.map_cons] at same nodup
  have alone := (List.nodup_append.mp nodup).2.2
  have notBelow : e.engineName ∉ below.map (·.engineName) := by
    intro member
    exact alone _ member _ List.mem_cons_self rfl
  have notAbove : e.engineName ∉ above.map (·.engineName) :=
    (List.nodup_cons.mp (List.nodup_append.mp nodup).2.1).1
  exact ((List.append_cons_inj_of_notMem notBelow notAbove).mp same.symm).1.symm

theorem agrees_savepoint {tx : Tx} (agrees : Agrees tx) {name : Option Text} {accepted : Bool}
    {names : List Text}
    (answer : Backend tx.names (.savepoint (tx.sp.push name).1) accepted names) :
    Agrees ⟨(command tx.sp accepted (.savepoint name)).1, names,
      tx.issued ++ [(tx.sp.push name).1]⟩ := by
  obtain ⟨sp, live, issued⟩ := tx
  obtain ⟨same, ordered, before⟩ := agrees
  dsimp only at same ordered before answer ⊢
  have issues : issued ++ [(sp.push name).1] =
      (List.range (sp.counter + 1)).map fun n => engineName (n + 1) := by
    rw [before, List.range_succ, List.map_append]
    rfl
  have pushed : liveNames (sp.push name).2 = live ++ [(sp.push name).1] := by
    rw [same, liveNames, SavepointStack.push, List.map_append]
    rfl
  cases answer with
  | failed =>
    have popped : (command sp false (.savepoint name)).1 = ⟨sp.counter + 1, sp.stack⟩ :=
      pop_push sp name
    have kept := ordered_pop_push ordered name
    rw [pop_push] at kept
    rw [popped]
    exact ⟨same, kept, issues⟩
  | hides => exact ⟨pushed.symm, ordered_push ordered name, issues⟩
  | replaces =>
    refine ⟨?_, ordered_push ordered name, issues⟩
    have fresh : (sp.push name).1 ∉ live := by
      rw [same]
      exact fresh_name ordered
    have kept : live.filter (· ≠ (sp.push name).1) = live := by
      apply List.filter_eq_self.mpr
      intro n member
      rw [decide_eq_true_eq]
      rintro rfl
      exact fresh member
    rw [kept]
    exact pushed.symm

theorem agrees_release {sp : SavepointStack} {live names issued : List Text}
    {name : Option Text} {accepted : Bool} {idx : Nat} {engine : Text}
    (agrees : Agrees ⟨sp, live, issued⟩) (found : sp.resolve name = some (idx, engine))
    (answer : Backend live (.release engine) accepted names) :
    Agrees ⟨(command sp accepted (.release name)).1, names, issued⟩ := by
  obtain ⟨same, ordered, before⟩ := agrees
  obtain ⟨below, e, above, whole, rfl, rfl⟩ := resolve_live found
  rw [command, found]
  cases answer with
  | failed => exact ⟨same, ordered, before⟩
  | release newest =>
    refine ⟨?_, ordered_take ordered below.length, before⟩
    have kept : sp.stack.take below.length = below := by
      rw [whole, List.take_left]
    rw [below_live ordered whole same]
    exact congrArg (List.map (·.engineName)) kept.symm

theorem agrees_rollbackTo {sp : SavepointStack} {live names issued : List Text}
    {name : Option Text} {accepted : Bool} {idx : Nat} {engine : Text}
    (agrees : Agrees ⟨sp, live, issued⟩) (found : sp.resolve name = some (idx, engine))
    (answer : Backend live (.rollbackTo engine) accepted names) :
    Agrees ⟨(command sp accepted (.rollbackTo name)).1, names, issued⟩ := by
  obtain ⟨same, ordered, before⟩ := agrees
  obtain ⟨below, e, above, whole, rfl, rfl⟩ := resolve_live found
  rw [command, found]
  cases answer with
  | failed => exact ⟨same, ordered, before⟩
  | rollbackTo newest =>
    refine ⟨?_, ordered_take ordered (below.length + 1), before⟩
    have kept : sp.stack.take (below.length + 1) = below ++ [e] := by
      rw [whole, List.take_length_add_append]
      rfl
    have names : (below ++ [e]).map (·.engineName) = below.map (·.engineName) ++ [e.engineName] :=
      List.map_append
    rw [below_live ordered whole same, ← names]
    exact congrArg (List.map (·.engineName)) kept.symm

theorem agrees_step {tx tx' : Tx} {cmd : TxCommand} {accepted : Bool} (agrees : Agrees tx)
    (step : Step tx cmd accepted tx') : Agrees tx' := by
  cases step with
  | unknown unsent =>
    cases cmd with
    | savepoint name => cases unsent
    | release name =>
      rw [command, Option.map_eq_none_iff.mp unsent]
      exact agrees
    | rollbackTo name =>
      rw [command, Option.map_eq_none_iff.mp unsent]
      exact agrees
  | sent sends answer =>
    cases cmd with
    | savepoint name =>
      cases sends
      exact agrees_savepoint agrees answer
    | release name =>
      obtain ⟨⟨idx, engine⟩, found, rfl⟩ := Option.map_eq_some_iff.mp sends
      change Agrees ⟨_, _, tx.issued ++ []⟩
      rw [List.append_nil]
      exact agrees_release agrees found answer
    | rollbackTo name =>
      obtain ⟨⟨idx, engine⟩, found, rfl⟩ := Option.map_eq_some_iff.mp sends
      change Agrees ⟨_, _, tx.issued ++ []⟩
      rw [List.append_nil]
      exact agrees_rollbackTo agrees found answer

theorem agrees_run {history : List (TxCommand × Bool)} {tx : Tx} (run : Run history tx) :
    Agrees tx := by
  induction run with
  | start => exact agrees_start
  | step run step ih => exact agrees_step ih step

/-- A command that is not answered with success changes nothing but the counter. -/
theorem command_failed {sp : SavepointStack} {cmd : TxCommand} {accepted : Bool}
    (failed : (command sp accepted cmd).2 ≠ .ok) :
    (command sp accepted cmd).1.stack = sp.stack := by
  cases cmd with
  | savepoint name =>
    cases accepted with
    | true => exact absurd rfl failed
    | false => exact congrArg (·.stack) (pop_push sp name)
  | release name =>
    rw [command] at failed ⊢
    split at failed
    · rfl
    · split at failed
      · exact absurd rfl failed
      · rename_i refused
        exact congrArg (fun p : SavepointStack × CtlReply => p.1.stack) (if_neg refused)
  | rollbackTo name =>
    rw [command] at failed ⊢
    split at failed
    · rfl
    · split at failed
      · exact absurd rfl failed
      · rename_i refused
        exact congrArg (fun p : SavepointStack × CtlReply => p.1.stack) (if_neg refused)

/-- Whatever the backend answers, it has an answer to the engine's statement. -/
theorem step_exists {tx : Tx} (agrees : Agrees tx) (cmd : TxCommand) (accepted : Bool) :
    ∃ tx', Step tx cmd accepted tx' := by
  cases sends : control tx.sp cmd with
  | none => exact ⟨_, .unknown sends⟩
  | some c =>
    cases accepted with
    | false => exact ⟨_, .sent sends .failed⟩
    | true =>
      have answers : ∃ names, Backend tx.names c true names := by
        have place {name : Option Text} {p : Nat × Text} (found : tx.sp.resolve name = some p) :
            ∃ below above, tx.names = below ++ p.2 :: above ∧ p.2 ∉ above := by
          obtain ⟨below, e, above, whole, -, same⟩ := resolve_live found
          have nodup := ordered_nodup agrees.ordered
          rw [whole, List.map_append, List.map_cons, same] at nodup
          refine ⟨below.map (·.engineName), above.map (·.engineName), ?_, ?_⟩
          · rw [agrees.same, liveNames, whole, List.map_append, List.map_cons, same]
          · exact (List.nodup_cons.mp (List.nodup_append.mp nodup).2.1).1
        cases cmd with
        | savepoint name =>
          cases sends
          exact ⟨_, .hides⟩
        | release name =>
          obtain ⟨p, found, rfl⟩ := Option.map_eq_some_iff.mp sends
          obtain ⟨below, above, whole, newest⟩ := place found
          rw [whole]
          exact ⟨_, .release newest⟩
        | rollbackTo name =>
          obtain ⟨p, found, rfl⟩ := Option.map_eq_some_iff.mp sends
          obtain ⟨below, above, whole, newest⟩ := place found
          rw [whole]
          exact ⟨_, .rollbackTo newest⟩
      obtain ⟨names, answer⟩ := answers
      exact ⟨_, .sent sends answer⟩

theorem issued_nodup {tx : Tx} (agrees : Agrees tx) : tx.issued.Nodup := by
  rw [agrees.issued]
  apply List.pairwise_map.mpr
  apply List.nodup_range.imp
  intro m n other same
  have number := engineName_inj same
  omega

theorem step_failed {tx tx' : Tx} {cmd : TxCommand} {accepted : Bool}
    (step : Step tx cmd accepted tx') (failed : (command tx.sp accepted cmd).2 ≠ .ok) :
    tx'.sp.stack = tx.sp.stack ∧ tx'.names = tx.names := by
  obtain ⟨sp, live, issued⟩ := tx
  have kept := command_failed failed
  cases step with
  | unknown unsent => exact ⟨kept, rfl⟩
  | sent sends answer =>
    refine ⟨kept, ?_⟩
    cases accepted with
    | false =>
      cases answer
      rfl
    | true =>
      exfalso
      apply failed
      cases cmd with
      | savepoint name => rfl
      | release name =>
        obtain ⟨p, found, -⟩ := Option.map_eq_some_iff.mp sends
        rw [command, found]
        rfl
      | rollbackTo name =>
        obtain ⟨p, found, -⟩ := Option.map_eq_some_iff.mp sends
        rw [command, found]
        rfl

/-- After every history of commands the engine's stack is the backend's, a command that fails
leaves both as they were, and no name is made twice. -/
theorem savepoints_agree {history : List (TxCommand × Bool)} {tx : Tx} (run : Run history tx) :
    liveNames tx.sp = tx.names ∧ tx.issued.Nodup ∧
      ∀ cmd accepted, (∃ tx', Step tx cmd accepted tx') ∧
        ∀ tx', Step tx cmd accepted tx' → (command tx.sp accepted cmd).2 ≠ .ok →
          tx'.sp.stack = tx.sp.stack ∧ tx'.names = tx.names := by
  have agrees := agrees_run run
  refine ⟨agrees.same.symm, issued_nodup agrees, ?_⟩
  intro cmd accepted
  exact ⟨step_exists agrees cmd accepted, fun tx' step failed => step_failed step failed⟩

/-- Two savepoints, the second of which fails. -/
theorem savepoints_agree_failed :
    liveNames ⟨2, [⟨engineName 1, none⟩]⟩ = [engineName 1] ∧
      [engineName 1, engineName 2].Nodup := by
  have first : Run [(.savepoint none, true)]
      ⟨⟨1, [⟨engineName 1, none⟩]⟩, [engineName 1], [engineName 1]⟩ :=
    .step .start (.sent rfl .hides)
  have second : Run [(.savepoint none, true), (.savepoint none, false)]
      ⟨⟨2, [⟨engineName 1, none⟩]⟩, [engineName 1], [engineName 1, engineName 2]⟩ :=
    .step first (.sent rfl .failed)
  have agree := savepoints_agree second
  exact ⟨agree.1, agree.2.1⟩

/-! ## Two kinds of names -/

/-- A generated name leads to its own savepoint. -/
def GeneratedNamesResolve (sp : SavepointStack) : Prop :=
  ∀ below e above, sp.stack = below ++ e :: above →
    sp.resolve (some e.engineName) = some (below.length, e.engineName)

/-- An alias leads to the newest savepoint under it. -/
def AliasesResolve (sp : SavepointStack) : Prop :=
  ∀ below e above n, sp.stack = below ++ e :: above → e.clientName = some n →
    (∀ a ∈ above, a.clientName ≠ some n) → sp.resolve (some n) = some (below.length, e.engineName)

/-- The second savepoint under the name of the first. -/
theorem alias_hides_generated :
    ¬ ∀ history tx, Run history tx → GeneratedNamesResolve tx.sp ∧ AliasesResolve tx.sp := by
  intro every
  have first : Run [(.savepoint none, true)]
      ⟨⟨1, [⟨engineName 1, none⟩]⟩, [engineName 1], [engineName 1]⟩ :=
    .step .start (.sent rfl .hides)
  have second : Run [(.savepoint none, true), (.savepoint (some (engineName 1)), true)]
      ⟨⟨2, [⟨engineName 1, none⟩, ⟨engineName 2, some (engineName 1)⟩]⟩,
        [engineName 1, engineName 2], [engineName 1, engineName 2]⟩ :=
    .step first (.sent rfl .hides)
  have below := (every _ _ second).1 [] ⟨engineName 1, none⟩ [⟨engineName 2, some (engineName 1)⟩] rfl
  have above := (every _ _ second).2 [⟨engineName 1, none⟩] ⟨engineName 2, some (engineName 1)⟩ []
    (engineName 1) rfl rfl nofun
  rw [above] at below
  cases below

theorem named_false {e : SavepointEntry} {n : Text} :
    e.named n = false ↔ e.clientName ≠ some n ∧ e.engineName ≠ n := by
  unfold SavepointEntry.named
  rw [Bool.or_eq_false_iff, beq_eq_false_iff_ne, beq_eq_false_iff_ne]

theorem resolve_generated {sp : SavepointStack} (ordered : Ordered sp)
    {below above : List SavepointEntry} {e : SavepointEntry} (whole : sp.stack = below ++ e :: above)
    (unhidden : ∀ a ∈ above, a.clientName ≠ some e.engineName) :
    sp.resolve (some e.engineName) = some (below.length, e.engineName) := by
  have nodup := ordered_nodup ordered
  rw [whole, List.map_append, List.map_cons] at nodup
  have own := (List.nodup_cons.mp (List.nodup_append.mp nodup).2.1).1
  refine resolve_some.mpr ⟨below, e, above, whole, rfl, rfl, ?_, ?_⟩
  · unfold SavepointEntry.named
    rw [Bool.or_eq_true, beq_iff_eq, beq_iff_eq]
    exact .inr rfl
  · intro a member
    refine named_false.mpr ⟨unhidden a member, ?_⟩
    intro same
    exact own (List.mem_map.mpr ⟨a, member, same⟩)

theorem resolve_alias {sp : SavepointStack} {below above : List SavepointEntry}
    {e : SavepointEntry} {n : Text} (whole : sp.stack = below ++ e :: above)
    (under : e.clientName = some n) (newest : ∀ a ∈ above, a.clientName ≠ some n)
    (unhidden : ∀ a ∈ above, a.engineName ≠ n) :
    sp.resolve (some n) = some (below.length, e.engineName) := by
  refine resolve_some.mpr ⟨below, e, above, whole, rfl, rfl, ?_, ?_⟩
  · unfold SavepointEntry.named
    rw [Bool.or_eq_true, beq_iff_eq, beq_iff_eq]
    exact .inl under
  · intro a member
    exact named_false.mpr ⟨newest a member, unhidden a member⟩

/-- A generated name leads to its savepoint unless a newer one took it as its alias; an alias that
is no newer savepoint's generated name leads to the newest savepoint under it. -/
theorem resolve_denotes {history : List (TxCommand × Bool)} {tx : Tx} (run : Run history tx) :
    (∀ below e above, tx.sp.stack = below ++ e :: above →
        (∀ a ∈ above, a.clientName ≠ some e.engineName) →
        tx.sp.resolve (some e.engineName) = some (below.length, e.engineName)) ∧
      ∀ below e above n, tx.sp.stack = below ++ e :: above → e.clientName = some n →
        (∀ a ∈ above, a.clientName ≠ some n) → (∀ a ∈ above, a.engineName ≠ n) →
        tx.sp.resolve (some n) = some (below.length, e.engineName) :=
  ⟨fun _ _ _ whole unhidden => resolve_generated (agrees_run run).ordered whole unhidden,
    fun _ _ _ _ whole under newest unhidden => resolve_alias whole under newest unhidden⟩

/-- An alias in front of an unnamed savepoint. -/
theorem resolve_denotes_alias :
    (⟨2, [⟨engineName 1, some [97]⟩, ⟨engineName 2, none⟩]⟩ : SavepointStack).resolve (some [97]) =
        some (0, engineName 1) ∧
      (⟨2, [⟨engineName 1, some [97]⟩, ⟨engineName 2, none⟩]⟩ : SavepointStack).resolve
          (some (engineName 2)) = some (1, engineName 2) := by
  have first : Run [(.savepoint (some [97]), true)]
      ⟨⟨1, [⟨engineName 1, some [97]⟩]⟩, [engineName 1], [engineName 1]⟩ :=
    .step .start (.sent rfl .hides)
  have second : Run [(.savepoint (some [97]), true), (.savepoint none, true)]
      ⟨⟨2, [⟨engineName 1, some [97]⟩, ⟨engineName 2, none⟩]⟩, [engineName 1, engineName 2],
        [engineName 1, engineName 2]⟩ :=
    .step first (.sent rfl .hides)
  have denotes := resolve_denotes second
  refine ⟨denotes.2 [] _ [⟨engineName 2, none⟩] [97] rfl rfl ?_ ?_,
    denotes.1 [⟨engineName 1, some [97]⟩] _ [] rfl nofun⟩
  · intro a member
    rw [List.mem_singleton.mp member]
    exact nofun
  · intro a member same
    rw [List.mem_singleton.mp member] at same
    cases same

end FerroEngine.TxSavepoints
