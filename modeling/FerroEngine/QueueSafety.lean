import FerroEngine.QueueFenceSteps

set_option autoImplicit false

/-! # Safety of a queue store

In every run a delivered token is good until the next delivery of its job, no job is lost or
doubled, and an unreserve statement undoes its own reservation only.
-/

namespace FerroEngine.QueueSafety

open QueueTable QueueFence QueueFenceSteps

/-- The statements that carry a token. -/
inductive Fenced where
  | ack
  | release (delay : Nat) (newId : JobId)
  | extend (lease : Nat)
  deriving DecidableEq, Repr

/-- The statement finds its row and changes it. -/
def takesEffect (st : Store) (id : JobId) (token : Token) : Fenced → Prop
  | .ack => (ack st.rows id token).2 = .ok ()
  | .release delay newId =>
    ∃ rows new, release st.now st.rows id token delay newId = some (rows, .ok new)
  | .extend lease =>
    ∃ rows deadline, extend st.now st.rows id token lease = some (rows, some deadline)

structure Safe (st : Store) : Prop where
  /-- A delivered token takes effect only if nothing of its job was delivered later. -/
  newest : ∀ older d newer, st.reservations = older ++ d :: newer → d.delivered = true →
    ∀ token, Token.decode d.reserved.token.encode = some token →
    ∀ statement, takesEffect st d.reserved.id token statement →
    ∀ later ∈ newer, st.job later.reserved.id = st.job d.reserved.id → later.delivered = false
  /-- Each job is one row or was removed once. -/
  whole : (st.rows.map (fun row => st.job row.id) ++ st.removed.map Prod.fst).Perm
    (List.range st.enqueued)
  /-- An unreserve statement changes a row only where the reservation that it was built from is
  the last one of the job that stands. -/
  own : ∀ ns st', step st (.unreserve ns) = some st' →
    ∃ change : Row → Row, st'.rows = st.rows.map change ∧
    ∀ row ∈ st.rows, change row = row ∨
      change row = { row with reservedAt := none, attempts := row.attempts - 1 } ∧
      ∃ n ∈ ns, ∃ older r newer, st.reservations = older ++ r :: newer ∧ older.length = n ∧
        r.key.names row = true ∧ r.reserved.id = row.id ∧
        ∀ later ∈ newer, st.job later.reserved.id = st.job row.id → later.undone = true

theorem fence_of_takesEffect {st : Store} {id : JobId} {token : Token} {statement : Fenced}
    (effect : takesEffect st id token statement) :
    ∃ row ∈ st.rows, fence id token row = true := by
  cases statement with
  | ack =>
    change (QueueTable.ack st.rows id token).2 = .ok () at effect
    unfold QueueTable.ack at effect
    split_ifs at effect with found
    · exact List.any_eq_true.mp found
  | release delay newId =>
    obtain ⟨rows, new, released⟩ := effect
    unfold release at released
    split at released
    · next row found =>
      exact ⟨row, List.mem_of_find?_eq_some found, List.find?_some found⟩
    · cases released
  | extend lease =>
    obtain ⟨rows, deadline, extended⟩ := effect
    unfold extend at extended
    split_ifs at extended with found fits
    · obtain ⟨row, listed, passes⟩ := List.any_eq_true.mp found
      unfold extendable at passes
      rw [Bool.and_eq_true] at passes
      exact ⟨row, listed, passes.1⟩
    · rw [Option.some.injEq, Prod.mk.injEq] at extended
      cases extended.2

/-- Nothing of the job stands after the reservation whose token passes the fence. -/
theorem later_undone {st : Store} (sound : Sound st) {older newer : List Reservation}
    {r : Reservation} {row : Row} (split : st.reservations = older ++ r :: newer)
    (listed : row ∈ st.rows) (standing : r.undone = false)
    (passes : fence r.reserved.id r.reserved.token row = true) :
    ∀ later ∈ newer, st.job later.reserved.id = st.job row.id → later.undone = true := by
  intro later member sameJob
  have found : st.reservations[older.length]? = some r := by
    rw [split, List.getElem?_append_right le_rfl, Nat.sub_self]
    rfl
  have rest : st.reservations.drop (older.length + 1) = newer := by
    rw [split, List.drop_append, Nat.sub_eq_of_eq_add (Nat.add_comm _ _),
      List.drop_eq_nil_of_le (by omega)]
    rfl
  have newest := tokens_split sound listed found standing passes
  rw [rest] at newest
  obtain ⟨k, at'⟩ := List.mem_iff_getElem?.mp member
  have found' : st.reservations[older.length + 1 + k]? = some later := by
    rw [← List.getElem?_drop, rest]
    exact at'
  -- a reservation of the job on an older id comes before the row, and `r` does not
  have born := (sound.lineage row listed _ r found (congrArg st.job (fence_id passes).symm)).2
    (fence_id passes).symm
  have same : later.reserved.id = row.id := by
    rcases (sound.lineage row listed _ later found' sameJob).1 with same | before
    · exact same
    · omega
  by_contra standing'
  rw [Bool.not_eq_true] at standing'
  unfold tokens at newest
  rw [List.map_eq_nil_iff, List.filter_eq_nil_iff] at newest
  apply newest later member
  simp [stands, same, standing']

theorem sound_safe {st : Store} (sound : Sound st) : Safe st := by
  constructor
  · intro older d newer split delivered token wire statement effect later member sameJob
    rw [token_decode_encode, Option.some.injEq] at wire
    subst wire
    obtain ⟨row, listed, passes⟩ := fence_of_takesEffect effect
    have known : ∀ r ∈ st.reservations, r.delivered = true → r.undone = false := by
      intro r member delivered
      obtain ⟨_, _, _, fresh, undone⟩ := sound.reserved r member
      rw [Bool.eq_false_iff]
      intro restored
      rw [fresh delivered] at undone
      cases undone restored
    have standing := known d (by rw [split]; simp) delivered
    have gone := later_undone sound split listed standing passes later member
      (by rw [sameJob, fence_id passes])
    rw [Bool.eq_false_iff]
    intro delivered'
    rw [known later (by rw [split]; simp [member]) delivered'] at gone
    cases gone
  · exact sound.jobs
  · intro ns st' taken
    unfold step at taken
    dsimp only at taken
    split_ifs at taken with allowed
    cases taken
    refine ⟨_, rfl, ?_⟩
    intro row listed
    split_ifs with named
    · right
      obtain ⟨n, asked, r, found, names⟩ := named_by_key.mp named
      obtain ⟨_, keyId, keyToken, _⟩ := sound.reserved r (List.mem_of_getElem? found)
      obtain ⟨split, short⟩ := split_found found
      have standing := open_stands sound (List.all_eq_true.mp allowed.2 n asked) found
      refine ⟨rfl, n, asked, _, r, _, split, short, names,
        keyId.symm.trans (names_id names).symm, later_undone sound split listed standing ?_⟩
      rw [← keyId, ← keyToken]
      exact (Bool.and_eq_true _ _ ▸ names : _ ∧ _).1
    · exact Or.inl rfl

theorem queue_fenced {now : Int} {events : List Event} {st : Store}
    (reached : run (init now) events = some st) : Safe st :=
  sound_safe (run_sound reached)

/-- A worker loses its lease, a second reservation is given back, and the first worker releases. -/
def sampleEvents : List Event :=
  let job : EnqueueJob :=
    { queue := "mail".toList
      payload := "hi".toList
      delayS := 0 }
  [.enqueue [(job, 1)], .reserve "mail".toList 10 100 5 [], .deliver 0, .tick 12,
    .reserve "mail".toList 10 100 5 [], .unreserve [1],
    .release 1 (Token.fromPg 1000 1) 0 2, .reserve "mail".toList 10 100 5 []]

theorem queue_fenced_on_sample : ∃ st, run (init 1000) sampleEvents = some st ∧
    st.rows.map (fun row => (row.id, row.attempts)) = [(2, 2)] ∧
    st.reservations.map (fun r => (r.reserved.id, r.reserved.token.pgAttempts, r.undone)) =
      [(1, 1, false), (1, 2, true), (2, 2, false)] ∧ Safe st := by
  have reached : run (init 1000) sampleEvents =
      some ((run (init 1000) sampleEvents).get rfl) := rfl
  exact ⟨_, reached, rfl, rfl, queue_fenced reached⟩

end FerroEngine.QueueSafety
