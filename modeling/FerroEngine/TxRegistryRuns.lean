import Mathlib.Data.Set.Card
import FerroEngine.LabelledRuns
import FerroEngine.TxTerminals

set_option autoImplicit false

/-! # Runs of the transaction registry

The calls that the `BEGIN` handler, the actors, the lookups and `abort_session` make on the
registry, in any order. Each call holds the registry's lock.
-/

namespace FerroEngine.TxRegistryRuns

open LabelledRuns (run run_always run_append)
open TxRegistry TxTable TxTerminals

/-- Where a transaction stands: its `BEGIN` is under way, its actor runs, its actor has made its
last call. -/
inductive Phase where
  | opening
  | running
  | ended
  deriving DecidableEq, Repr

structure Issued where
  owner : Nat
  phase : Phase
  deriving DecidableEq, Repr

structure Registry where
  table : TxTable
  nextTxId : Nat
  issued : Nat → Option Issued
  aborted : List Nat

def Registry.init : Registry :=
  { table := .empty
    nextTxId := 1
    issued := fun _ => none
    aborted := [] }

inductive Event where
  /-- A `BEGIN` draws its id. -/
  | begin (sid : Nat)
  /-- The `BEGIN` ran and its actor is registered. -/
  | opened (txId : Nat)
  | failed (txId : Nat)
  | lookup (txId caller : Nat)
  /-- `TxEnd::Ended` and `TxEnd::Abort`. -/
  | complete (txId : Nat)
  /-- `TxEnd::Deadline`. -/
  | deadline (txId : Nat)
  /-- The purge at the end of `abort_session`. -/
  | abortSession (sid : Nat)
  deriving DecidableEq, Repr

namespace Registry

def setPhase (s : Registry) (txId : Nat) (i : Issued) (phase : Phase) : Registry :=
  { s with issued := Function.update s.issued txId (some { i with phase := phase }) }

/-- The call of an id in the given phase. -/
def called (s : Registry) (txId : Nat) (phase : Phase) (call : Issued → Registry) :
    Option Registry :=
  match s.issued txId with
  | some i => if i.phase = phase then some (call i) else none
  | none => none

def step (s : Registry) (e : Event) : Option Registry :=
  match e with
  | .begin sid =>
    some
      { s with
        nextTxId := s.nextTxId + 1
        issued := Function.update s.issued s.nextTxId (some { owner := sid, phase := .opening }) }
  | .opened txId =>
    s.called txId .opening fun i =>
      { s.setPhase txId i .running with table := s.table.register txId i.owner }
  | .failed txId => s.called txId .opening fun i => s.setPhase txId i .ended
  | .lookup _ _ => some s
  | .complete txId =>
    s.called txId .running fun i =>
      { s.setPhase txId i .ended with table := s.table.deregister txId }
  | .deadline txId =>
    s.called txId .running fun i =>
      { s.setPhase txId i .ended with table := s.table.tombstone txId }
  | .abortSession sid =>
    some
      { s with
        table := s.table.purge sid
        aborted := sid :: s.aborted }

end Registry

def Tombstoned (t : TxTable) (txId : Nat) : Prop :=
  ∃ owner, t.map txId = some (.tombstoned owner)

def Live (t : TxTable) (txId : Nat) : Prop :=
  ∃ owner, t.map txId = some (.active owner)

/-- The session that a transaction belongs to. -/
def Owns (s : Registry) (sid txId : Nat) : Prop :=
  ∃ i, s.issued txId = some i ∧ i.owner = sid

/-! ## Eviction -/

/-- One turn of the eviction. -/
theorem evict_cons (map : Nat → Option TxEntry) (oldest : Nat) (rest : List Nat) :
    ((oldest :: rest).length ≤ tombstoneCap ∧
        evict map (oldest :: rest) = { map := map, tombstoneOrder := oldest :: rest }) ∨
      ∃ left, evict map (oldest :: rest) = evict left rest ∧
        (∀ owner, left oldest ≠ some (.tombstoned owner)) ∧
        ∀ txId, txId ≠ oldest → left txId = map txId := by
  rw [evict]
  split_ifs with within
  · exact .inl ⟨within, rfl⟩
  · refine .inr ?_
    split
    · refine ⟨_, rfl, ?_, ?_⟩
      · intro owner found
        rw [Function.update_self] at found
        cases found
      · intro txId other
        exact Function.update_of_ne other none map
    · rename_i other
      exact ⟨map, rfl, other, fun _ _ => rfl⟩

/-- What eviction makes of a map and its order. -/
structure Evicted (map : Nat → Option TxEntry) (order : List Nat) (t : TxTable) : Prop where
  bounded : t.tombstoneOrder.length ≤ tombstoneCap
  once : t.tombstoneOrder.Nodup
  subset : ∀ txId ∈ t.tombstoneOrder, txId ∈ order
  kept : ∀ txId ∈ t.tombstoneOrder, t.map txId = map txId
  covered : ∀ txId owner, t.map txId = some (.tombstoned owner) → txId ∈ t.tombstoneOrder

theorem evict_evicted {map : Nat → Option TxEntry} {order : List Nat} (once : order.Nodup)
    (covered : ∀ txId owner, map txId = some (.tombstoned owner) → txId ∈ order) :
    Evicted map order (evict map order) := by
  induction order generalizing map with
  | nil =>
    exact ⟨Nat.zero_le _, List.nodup_nil, fun _ member => member, fun _ _ => rfl, covered⟩
  | cons oldest rest ih =>
    have parts := List.nodup_cons.mp once
    rcases evict_cons map oldest rest with ⟨within, stays⟩ | ⟨left, turned, gone, other⟩
    · rw [stays]
      exact ⟨within, once, fun _ member => member, fun _ _ => rfl, covered⟩
    · have covered' : ∀ txId owner, left txId = some (.tombstoned owner) → txId ∈ rest := by
        intro txId owner found
        have different : txId ≠ oldest := by
          rintro rfl
          exact gone owner found
        rw [other txId different] at found
        exact (List.mem_cons.mp (covered txId owner found)).resolve_left different
      have later := ih parts.2 covered'
      rw [turned]
      refine ⟨later.bounded, later.once, ?_, ?_, later.covered⟩
      · intro txId member
        exact List.mem_cons_of_mem oldest (later.subset txId member)
      · intro txId member
        have different : txId ≠ oldest := by
          rintro rfl
          exact parts.1 (later.subset txId member)
        rw [later.kept txId member, other txId different]

/-! ## The invariant -/

structure Sound (s : Registry) : Prop where
  bounded : s.table.tombstoneOrder.length ≤ tombstoneCap
  once : s.table.tombstoneOrder.Nodup
  covered : ∀ txId owner, s.table.map txId = some (.tombstoned owner) →
    txId ∈ s.table.tombstoneOrder
  /-- A stale id of the order is one that the abort of its session purged. -/
  stale : ∀ txId ∈ s.table.tombstoneOrder, ¬Tombstoned s.table txId →
    ∃ sid ∈ s.aborted, Owns s sid txId
  ended : ∀ txId ∈ s.table.tombstoneOrder, ∃ i, s.issued txId = some i ∧ i.phase = .ended
  entries : ∀ txId entry, s.table.map txId = some entry →
    ∃ i, s.issued txId = some i ∧ i.owner = entry.owner ∧ i.phase ≠ .opening ∧
      (i.phase = .ended → ∃ owner, entry = .tombstoned owner)
  fresh : ∀ txId, s.nextTxId ≤ txId → s.issued txId = none

theorem sound_init : Sound .init := by
  refine ⟨Nat.zero_le _, List.nodup_nil, ?_, ?_, ?_, ?_, ?_⟩
  · intro txId owner found
    cases found
  · intro txId member
    cases member
  · intro txId member
    cases member
  · intro txId entry found
    cases found
  · intro txId _
    rfl

theorem called_eq_some {s s' : Registry} {txId : Nat} {phase : Phase}
    {call : Issued → Registry} (taken : s.called txId phase call = some s') :
    ∃ i, s.issued txId = some i ∧ i.phase = phase ∧ call i = s' := by
  unfold Registry.called at taken
  split at taken
  · rename_i i found
    split_ifs at taken with here
    exact ⟨i, found, here, Option.some.inj taken⟩
  · cases taken

section Steps

variable {s : Registry} {txId : Nat} {i : Issued}

theorem setPhase_self (s : Registry) (txId : Nat) (i : Issued) (phase : Phase) :
    (s.setPhase txId i phase).issued txId = some { i with phase := phase } :=
  Function.update_self txId _ s.issued

theorem setPhase_ne {j : Nat} (other : j ≠ txId) (i : Issued) (phase : Phase) :
    (s.setPhase txId i phase).issued j = s.issued j :=
  Function.update_of_ne other _ s.issued

theorem owns_setPhase (found : s.issued txId = some i) (phase : Phase) {sid j : Nat}
    (owns : Owns s sid j) : Owns (s.setPhase txId i phase) sid j := by
  obtain ⟨k, foundK, owner⟩ := owns
  by_cases here : j = txId
  · subst here
    rw [found, Option.some.injEq] at foundK
    subst foundK
    exact ⟨_, setPhase_self s j i phase, owner⟩
  · exact ⟨k, (setPhase_ne here i phase).trans foundK, owner⟩

theorem Sound.below (sound : Sound s) (found : s.issued txId = some i) : txId < s.nextTxId := by
  by_contra high
  rw [sound.fresh txId (Nat.not_lt.mp high)] at found
  cases found

theorem Sound.fresh_setPhase (sound : Sound s) (found : s.issued txId = some i) (phase : Phase)
    {j : Nat} (high : s.nextTxId ≤ j) : (s.setPhase txId i phase).issued j = none := by
  have below := sound.below found
  rw [setPhase_ne (by omega)]
  exact sound.fresh j high

/-- An id whose actor has not ended is in no order. -/
theorem Sound.not_ended (sound : Sound s) (found : s.issued txId = some i)
    (notEnded : i.phase ≠ .ended) {j : Nat} (member : j ∈ s.table.tombstoneOrder) :
    j ≠ txId := by
  rintro rfl
  obtain ⟨k, foundK, ended⟩ := sound.ended j member
  rw [found, Option.some.injEq] at foundK
  subst foundK
  exact notEnded ended

theorem Sound.begin (sound : Sound s) (sid : Nat) :
    Sound
      { s with
        nextTxId := s.nextTxId + 1
        issued := Function.update s.issued s.nextTxId
          (some { owner := sid, phase := .opening }) } := by
  have keeps : ∀ {j : Nat} {k : Issued}, s.issued j = some k →
      Function.update s.issued s.nextTxId (some { owner := sid, phase := .opening }) j =
        some k := by
    intro j k found
    have below := sound.below found
    rw [Function.update_of_ne (by omega)]
    exact found
  refine ⟨sound.bounded, sound.once, sound.covered, ?_, ?_, ?_, ?_⟩
  · intro j member gone
    obtain ⟨other, aborted, k, found, owner⟩ := sound.stale j member gone
    exact ⟨other, aborted, k, keeps found, owner⟩
  · intro j member
    obtain ⟨k, found, ended⟩ := sound.ended j member
    exact ⟨k, keeps found, ended⟩
  · intro j entry found
    obtain ⟨k, foundK, rest⟩ := sound.entries j entry found
    exact ⟨k, keeps foundK, rest⟩
  · intro j high
    dsimp only at high ⊢
    rw [Function.update_of_ne (by omega)]
    exact sound.fresh j (by omega)

theorem Sound.opened (sound : Sound s) (found : s.issued txId = some i)
    (opening : i.phase = .opening) :
    Sound { s.setPhase txId i .running with table := s.table.register txId i.owner } := by
  have notEnded : i.phase ≠ .ended := by
    rw [opening]
    nofun
  have apart : ∀ {j : Nat}, j ∈ s.table.tombstoneOrder → j ≠ txId :=
    sound.not_ended found notEnded
  have map : ∀ {j : Nat}, j ≠ txId → (s.table.register txId i.owner).map j = s.table.map j :=
    fun other => Function.update_of_ne other _ s.table.map
  refine ⟨sound.bounded, sound.once, ?_, ?_, ?_, ?_, ?_⟩
  · intro j owner tomb
    rcases register_some tomb with ⟨-, active⟩ | before
    · cases active
    · exact sound.covered j owner before
  · intro j member gone
    obtain ⟨sid, aborted, owns⟩ := sound.stale j member (by
      rintro ⟨owner, tomb⟩
      exact gone ⟨owner, (map (apart member)).trans tomb⟩)
    exact ⟨sid, aborted, owns_setPhase found .running owns⟩
  · intro j member
    obtain ⟨k, foundK, ended⟩ := sound.ended j member
    exact ⟨k, (setPhase_ne (apart member) i .running).trans foundK, ended⟩
  · intro j entry here
    rcases register_some here with ⟨rfl, rfl⟩ | before
    · exact ⟨_, setPhase_self s j i .running, rfl, nofun, nofun⟩
    · by_cases same : j = txId
      · subst same
        have active : some (TxEntry.active i.owner) = some entry :=
          (Function.update_self j _ s.table.map).symm.trans here
        cases active
        exact ⟨_, setPhase_self s j i .running, rfl, nofun, nofun⟩
      · obtain ⟨k, foundK, rest⟩ := sound.entries j entry before
        exact ⟨k, (setPhase_ne same i .running).trans foundK, rest⟩
  · intro j high
    exact sound.fresh_setPhase found .running high

/-- A last call that leaves of the map no entry at its id and the others unchanged, and the order
as it is. -/
theorem Sound.closed (sound : Sound s) (found : s.issued txId = some i)
    (notEnded : i.phase ≠ .ended) {map : Nat → Option TxEntry} (gone : map txId = none)
    (same : ∀ j, j ≠ txId → map j = s.table.map j) :
    Sound
      { s.setPhase txId i .ended with
        table := { s.table with map := map } } := by
  have apart : ∀ {j : Nat}, j ∈ s.table.tombstoneOrder → j ≠ txId :=
    sound.not_ended found notEnded
  have before : ∀ {j : Nat} {entry : TxEntry}, map j = some entry →
      j ≠ txId ∧ s.table.map j = some entry := by
    intro j entry here
    have other : j ≠ txId := by
      rintro rfl
      rw [gone] at here
      cases here
    exact ⟨other, (same j other).symm.trans here⟩
  refine ⟨sound.bounded, sound.once, ?_, ?_, ?_, ?_, ?_⟩
  · intro j owner tomb
    exact sound.covered j owner (before tomb).2
  · intro j member stale
    obtain ⟨sid, aborted, owns⟩ := sound.stale j member (by
      rintro ⟨owner, tomb⟩
      exact stale ⟨owner, (same j (apart member)).trans tomb⟩)
    exact ⟨sid, aborted, owns_setPhase found .ended owns⟩
  · intro j member
    obtain ⟨k, foundK, ended⟩ := sound.ended j member
    exact ⟨k, (setPhase_ne (apart member) i .ended).trans foundK, ended⟩
  · intro j entry here
    obtain ⟨other, here⟩ := before here
    obtain ⟨k, foundK, rest⟩ := sound.entries j entry here
    exact ⟨k, (setPhase_ne other i .ended).trans foundK, rest⟩
  · intro j high
    exact sound.fresh_setPhase found .ended high

theorem Sound.failed (sound : Sound s) (found : s.issued txId = some i)
    (opening : i.phase = .opening) : Sound (s.setPhase txId i .ended) := by
  refine sound.closed found (by rw [opening]; nofun) ?_ fun _ _ => rfl
  rw [Option.eq_none_iff_forall_ne_some]
  intro entry here
  obtain ⟨k, foundK, -, registered, -⟩ := sound.entries txId entry here
  rw [found, Option.some.injEq] at foundK
  subst foundK
  exact registered opening

theorem Sound.complete (sound : Sound s) (found : s.issued txId = some i)
    (running : i.phase = .running) :
    Sound { s.setPhase txId i .ended with table := s.table.deregister txId } :=
  sound.closed found (by rw [running]; nofun) (Function.update_self txId none s.table.map)
    fun _ other => Function.update_of_ne other none s.table.map

theorem Sound.deadline (sound : Sound s) (found : s.issued txId = some i)
    (running : i.phase = .running) :
    Sound { s.setPhase txId i .ended with table := s.table.tombstone txId } := by
  have notEnded : i.phase ≠ .ended := by
    rw [running]
    nofun
  have absent : txId ∉ s.table.tombstoneOrder :=
    fun member => sound.not_ended found notEnded member rfl
  unfold tombstone
  split
  · rename_i old was
    obtain ⟨k, foundK, owner, -⟩ := sound.entries txId old was
    rw [found, Option.some.injEq] at foundK
    subst foundK
    let map := Function.update s.table.map txId (some (.tombstoned old.owner))
    have other : ∀ {j : Nat}, j ≠ txId → map j = s.table.map j :=
      fun different => Function.update_of_ne different _ s.table.map
    have self : map txId = some (.tombstoned old.owner) :=
      Function.update_self txId _ s.table.map
    have order : ∀ {j : Nat}, j ∈ s.table.tombstoneOrder ++ [txId] →
        j ≠ txId → j ∈ s.table.tombstoneOrder := by
      intro j member different
      rw [List.mem_append, List.mem_singleton] at member
      exact member.resolve_right different
    have evicted : Evicted map (s.table.tombstoneOrder ++ [txId])
        (evict map (s.table.tombstoneOrder ++ [txId])) := by
      refine evict_evicted ?_ ?_
      · rw [List.nodup_append]
        refine ⟨sound.once, List.nodup_singleton txId, ?_⟩
        intro a inOrder b inLast
        rw [List.mem_singleton] at inLast
        subst inLast
        exact sound.not_ended found notEnded inOrder
      · intro j owner tomb
        by_cases here : j = txId
        · subst here
          exact List.mem_append_right _ (List.mem_singleton_self j)
        · exact List.mem_append_left _ (sound.covered j owner ((other here).symm.trans tomb))
    refine ⟨evicted.bounded, evicted.once, evicted.covered, ?_, ?_, ?_, ?_⟩
    · intro j member stale
      have kept := evicted.kept j member
      have different : j ≠ txId := by
        rintro rfl
        exact stale ⟨old.owner, kept.trans self⟩
      obtain ⟨sid, aborted, owns⟩ := sound.stale j (order (evicted.subset j member) different) (by
        rintro ⟨owner, tomb⟩
        exact stale ⟨owner, kept.trans ((other different).trans tomb)⟩)
      exact ⟨sid, aborted, owns_setPhase found .ended owns⟩
    · intro j member
      by_cases here : j = txId
      · subst here
        exact ⟨_, setPhase_self s j i .ended, rfl⟩
      · obtain ⟨k, foundK, ended⟩ := sound.ended j (order (evicted.subset j member) here)
        exact ⟨k, (setPhase_ne here i .ended).trans foundK, ended⟩
    · intro j entry here
      have before := evict_some here
      by_cases same : j = txId
      · subst same
        rw [Function.update_self, Option.some.injEq] at before
        subst before
        exact ⟨_, setPhase_self s j i .ended, owner, nofun, fun _ => ⟨_, rfl⟩⟩
      · rw [Function.update_of_ne same] at before
        obtain ⟨k, foundK, rest⟩ := sound.entries j entry before
        exact ⟨k, (setPhase_ne same i .ended).trans foundK, rest⟩
    · intro j high
      exact sound.fresh_setPhase found .ended high
  · rename_i was
    exact sound.closed found notEnded was fun _ _ => rfl

theorem Sound.abortSession (sound : Sound s) (sid : Nat) :
    Sound
      { s with
        table := s.table.purge sid
        aborted := sid :: s.aborted } := by
  refine ⟨sound.bounded, sound.once, ?_, ?_, sound.ended, ?_, sound.fresh⟩
  · intro j owner tomb
    exact sound.covered j owner (purge_some tomb).1
  · intro j member stale
    by_cases before : Tombstoned s.table j
    · -- it was this abort that removed the tombstone
      obtain ⟨owner, tomb⟩ := before
      obtain ⟨k, foundK, owns, -⟩ := sound.entries j _ tomb
      have purged : owner = sid := by
        by_contra different
        refine stale ⟨owner, ?_⟩
        change (s.table.map j).filter _ = _
        rw [tomb, Option.filter_some, if_pos (by simpa [TxEntry.owner] using different)]
      subst purged
      exact ⟨owner, List.mem_cons_self, k, foundK, owns⟩
    · obtain ⟨other, aborted, owns⟩ := sound.stale j member before
      exact ⟨other, List.mem_cons_of_mem sid aborted, owns⟩
  · intro j entry here
    exact sound.entries j entry (purge_some here).1

theorem sound_step {s' : Registry} {e : Event} (sound : Sound s) (taken : s.step e = some s') :
    Sound s' := by
  cases e with
  | begin sid =>
    cases taken
    exact sound.begin sid
  | opened txId =>
    obtain ⟨i, found, phase, rfl⟩ := called_eq_some taken
    exact sound.opened found phase
  | failed txId =>
    obtain ⟨i, found, phase, rfl⟩ := called_eq_some taken
    exact sound.failed found phase
  | lookup txId caller =>
    cases taken
    exact sound
  | complete txId =>
    obtain ⟨i, found, phase, rfl⟩ := called_eq_some taken
    exact sound.complete found phase
  | deadline txId =>
    obtain ⟨i, found, phase, rfl⟩ := called_eq_some taken
    exact sound.deadline found phase
  | abortSession sid =>
    cases taken
    exact sound.abortSession sid

/-! ## Ended transactions stay so -/

def Ended (s : Registry) (txId : Nat) : Prop :=
  ∃ i, s.issued txId = some i ∧ i.phase = .ended

theorem ended_setPhase {j : Nat} (ended : Ended s j) (found : s.issued txId = some i)
    (notEnded : i.phase ≠ .ended) (phase : Phase) : Ended (s.setPhase txId i phase) j := by
  obtain ⟨k, foundK, last⟩ := ended
  have other : j ≠ txId := by
    rintro rfl
    rw [found, Option.some.injEq] at foundK
    subst foundK
    exact notEnded last
  exact ⟨k, (setPhase_ne other i phase).trans foundK, last⟩

theorem ended_step {s' : Registry} {e : Event} {j : Nat} (sound : Sound s) (ended : Ended s j)
    (taken : s.step e = some s') : Ended s' j := by
  cases e with
  | begin sid =>
    cases taken
    obtain ⟨k, found, last⟩ := ended
    have below := sound.below found
    exact ⟨k, (Function.update_of_ne (by omega) _ s.issued).trans found, last⟩
  | lookup txId caller =>
    cases taken
    exact ended
  | abortSession sid =>
    cases taken
    exact ended
  | opened txId =>
    obtain ⟨i, found, phase, rfl⟩ := called_eq_some taken
    exact ended_setPhase ended found (by rw [phase]; nofun) .running
  | failed txId =>
    obtain ⟨i, found, phase, rfl⟩ := called_eq_some taken
    exact ended_setPhase ended found (by rw [phase]; nofun) .ended
  | complete txId =>
    obtain ⟨i, found, phase, rfl⟩ := called_eq_some taken
    exact ended_setPhase ended found (by rw [phase]; nofun) .ended
  | deadline txId =>
    obtain ⟨i, found, phase, rfl⟩ := called_eq_some taken
    exact ended_setPhase ended found (by rw [phase]; nofun) .ended

theorem Sound.not_live (sound : Sound s) (ended : Ended s txId) : ¬Live s.table txId := by
  rintro ⟨owner, live⟩
  obtain ⟨k, foundK, last⟩ := ended
  obtain ⟨k', foundK', -, -, tomb⟩ := sound.entries txId _ live
  rw [foundK, Option.some.injEq] at foundK'
  subst foundK'
  obtain ⟨other, tomb⟩ := tomb last
  cases tomb

theorem Sound.stays_dead {s' : Registry} {later : List Event} (sound : Sound s)
    (tomb : Tombstoned s.table txId) (ran : run Registry.step s later = some s') :
    ¬Live s'.table txId := by
  obtain ⟨owner, tomb⟩ := tomb
  have ended : Ended s txId := sound.ended txId (sound.covered txId owner tomb)
  have keep : ∀ {u v : Registry} {e : Event}, Sound u ∧ Ended u txId → u.step e = some v →
      Sound v ∧ Ended v txId :=
    fun holds taken => ⟨sound_step holds.1 taken, ended_step holds.1 holds.2 taken⟩
  have both := run_always Registry.step keep ⟨sound, ended⟩ ran
  exact both.1.not_live both.2

/-- What a session is told about a transaction that is not its own. -/
theorem Sound.foreign (sound : Sound s) {caller : Nat} (foreign : ¬Owns s caller txId) :
    s.table.lookup txId caller = .error .notFoundOrForbidden := by
  unfold TxTable.lookup
  split
  · rename_i owner here
    obtain ⟨k, foundK, same, -⟩ := sound.entries txId _ here
    exact if_neg fun own => foreign ⟨k, foundK, same.trans own⟩
  · rename_i owner here
    obtain ⟨k, foundK, same, -⟩ := sound.entries txId _ here
    exact if_neg fun own => foreign ⟨k, foundK, same.trans own⟩
  · rfl

theorem Sound.tombstones_card (sound : Sound s) :
    {txId | Tombstoned s.table txId}.Finite ∧
      {txId | Tombstoned s.table txId}.ncard ≤ tombstoneCap := by
  have subset : {txId | Tombstoned s.table txId} ⊆ ↑s.table.tombstoneOrder.toFinset := by
    rintro txId ⟨owner, tomb⟩
    exact List.mem_toFinset.mpr (sound.covered txId owner tomb)
  refine ⟨(Finset.finite_toSet _).subset subset, ?_⟩
  calc {txId | Tombstoned s.table txId}.ncard
      ≤ s.table.tombstoneOrder.toFinset.card :=
        (Set.ncard_le_ncard subset (Finset.finite_toSet _)).trans_eq (Set.ncard_coe_finset _)
    _ ≤ s.table.tombstoneOrder.length := List.toFinset_card_le _
    _ ≤ tombstoneCap := sound.bounded

end Steps

/-- Over every sequence of calls. -/
theorem registry_sound {events : List Event} {s : Registry}
    (ran : run Registry.step .init events = some s) :
    ({txId | Tombstoned s.table txId}.Finite ∧
        {txId | Tombstoned s.table txId}.ncard ≤ tombstoneCap ∧
        s.table.tombstoneOrder.length ≤ tombstoneCap) ∧
      ((∀ txId, Tombstoned s.table txId → txId ∈ s.table.tombstoneOrder) ∧
        ∀ txId ∈ s.table.tombstoneOrder, ¬Tombstoned s.table txId →
          ∃ sid ∈ s.aborted, Owns s sid txId) ∧
      (∀ txId, Tombstoned s.table txId → ∀ later s', run Registry.step s later = some s' →
        ¬Live s'.table txId) ∧
      ∀ txId caller, ¬Owns s caller txId →
        resolveActive (s.table.lookup txId caller) =
          resolveActive (TxTable.empty.lookup txId caller) := by
  have sound : Sound s := run_always Registry.step (fun holds taken => sound_step holds taken)
    sound_init ran
  refine ⟨⟨sound.tombstones_card.1, sound.tombstones_card.2, sound.bounded⟩,
    ⟨?_, sound.stale⟩, ?_, ?_⟩
  · rintro txId ⟨owner, tomb⟩
    exact sound.covered txId owner tomb
  · intro txId tomb later s' ran'
    exact sound.stays_dead tomb ran'
  · intro txId caller foreign
    rw [sound.foreign foreign]
    rfl

/-- A session's only transaction times out, and the session ends. -/
def timedOut : List Event :=
  [.begin 0, .opened 1, .deadline 1, .abortSession 0]

theorem registry_sound_timedOut :
    ∃ s, run Registry.step .init timedOut = some s ∧ ¬Tombstoned s.table 1 ∧
      ∀ caller, ¬Owns s caller 1 → resolveActive (s.table.lookup 1 caller) =
        resolveActive (TxTable.empty.lookup 1 caller) := by
  refine ⟨_, rfl, ?_, ?_⟩
  · rintro ⟨owner, tomb⟩
    cases tomb
  · intro caller foreign
    exact (registry_sound (show run _ _ timedOut = _ from rfl)).2.2.2 1 caller foreign

/-- The order keeps the id of a tombstone that went with its session. -/
theorem timedOut_stale :
    ∃ s, run Registry.step .init timedOut = some s ∧ 1 ∈ s.table.tombstoneOrder ∧
      ¬Tombstoned s.table 1 := by
  refine ⟨_, rfl, ?_, ?_⟩
  · exact List.mem_singleton_self 1
  · rintro ⟨owner, tomb⟩
    cases tomb

end FerroEngine.TxRegistryRuns
