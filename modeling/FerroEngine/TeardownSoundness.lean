import FerroEngine.SessionTeardown

set_option autoImplicit false

/-! # What the end of a session leaves behind

When nothing of a session can move any more, its transactions are gone, provided that no `BEGIN`
of the session registered one after the purge.
-/

namespace FerroEngine.TeardownSoundness

open LabelledRuns TxRegistry SessionTeardown

/-! ## The links between the tables -/

/-- The id of a transaction that its handler has drawn and not registered. -/
def pendingId : BeginPhase → Option Nat
  | .opening txId | .registering txId => some txId
  | _ => none

def isReleased : ActorPhase → Bool
  | .dropped _ | .unregistered | .done => true
  | _ => false

/-- What holds in every state of the engine. -/
structure Linked (s : Engine) : Prop where
  entries : ∀ txId entry, s.table.map txId = some entry →
    ∃ a, s.actors txId = some a ∧ a.owner = entry.owner
  forwarders : ∀ f ∈ s.forwarders, ∃ a, s.actors f.txId = some a ∧ a.owner = f.caller
  spawning : ∀ txId a, s.actors txId = some a → a.phase = .registered →
    ∃ (h : Nat) (b : Begin), s.begins[h]? = some b ∧ b.owner = a.owner ∧ b.phase = .spawning txId
  fresh : ∀ txId a, s.actors txId = some a → txId < s.nextTxId
  pending : ∀ (h : Nat) (b : Begin) (txId : Nat), s.begins[h]? = some b →
    pendingId b.phase = some txId → txId < s.nextTxId ∧ s.actors txId = none
  distinct : ∀ (h k : Nat) (b c : Begin) (txId : Nat), s.begins[h]? = some b →
    s.begins[k]? = some c → pendingId b.phase = some txId → pendingId c.phase = some txId → h = k
  settled : ∀ txId a, s.actors txId = some a → isReleased a.phase = true → a.settled ≠ none

theorem linked_start : Linked Engine.start := by
  refine ⟨?_, ?_, ?_, ?_, ?_, ?_, ?_⟩
  · intro txId entry found
    cases found
  · intro f member
    cases member
  · intro txId a found
    cases found
  · intro txId a found
    cases found
  · intro h b txId found
    simp [Engine.start] at found
  · intro h k b c txId found
    simp [Engine.start] at found
  · intro txId a found
    cases found

/-- The same actors, with the same owners and perhaps in later phases. -/
structure Follows (m n : Nat → Option Actor) : Prop where
  owners : ∀ txId, (n txId).map Actor.owner = (m txId).map Actor.owner
  registered : ∀ txId a, n txId = some a → a.phase = .registered →
    ∃ old, m txId = some old ∧ old.phase = .registered
  settled : ∀ txId a, n txId = some a → isReleased a.phase = true → a.settled ≠ none

theorem Follows.forward {m n : Nat → Option Actor} (follows : Follows m n) {txId owner : Nat}
    (has : ∃ a, m txId = some a ∧ a.owner = owner) : ∃ a, n txId = some a ∧ a.owner = owner := by
  obtain ⟨a, found, own⟩ := has
  have same := follows.owners txId
  rw [found, Option.map_some, Option.map_eq_some_iff] at same
  obtain ⟨b, found', own'⟩ := same
  exact ⟨b, found', own'.trans own⟩

theorem Follows.backward {m n : Nat → Option Actor} (follows : Follows m n) {txId : Nat}
    {a : Actor} (found : n txId = some a) : ∃ old, m txId = some old ∧ old.owner = a.owner := by
  have same := follows.owners txId
  rw [found, Option.map_some, eq_comm, Option.map_eq_some_iff] at same
  exact same

theorem Linked.actors {s t : Engine} (linked : Linked s) (follows : Follows s.actors t.actors)
    (table : ∀ txId entry, t.table.map txId = some entry →
      ∃ old, s.table.map txId = some old ∧ old.owner = entry.owner)
    (begins : t.begins = s.begins) (forwarders : t.forwarders = s.forwarders)
    (next : t.nextTxId = s.nextTxId) : Linked t := by
  refine ⟨?_, ?_, ?_, ?_, ?_, ?_, follows.settled⟩
  · intro txId entry found
    obtain ⟨old, found', own⟩ := table txId entry found
    exact follows.forward (own ▸ linked.entries txId old found')
  · intro f member
    rw [forwarders] at member
    exact follows.forward (linked.forwarders f member)
  · intro txId a found waits
    obtain ⟨old, found', waits'⟩ := follows.registered txId a found waits
    obtain ⟨old', found'', own⟩ := follows.backward found
    rw [found', Option.some.injEq] at found''
    subst found''
    rw [begins, ← own]
    exact linked.spawning txId old found' waits'
  · intro txId a found
    obtain ⟨old, found', -⟩ := follows.backward found
    rw [next]
    exact linked.fresh txId old found'
  · intro h b txId found pending
    rw [begins] at found
    obtain ⟨below, none'⟩ := linked.pending h b txId found pending
    have same := follows.owners txId
    rw [none', Option.map_none, Option.map_eq_none_iff] at same
    rw [next]
    exact ⟨below, same⟩
  · intro h k b c txId first second
    rw [begins] at first second
    exact linked.distinct h k b c txId first second

theorem follows_refl {s : Engine} (linked : Linked s) : Follows s.actors s.actors :=
  ⟨fun _ => rfl, fun _ a found waits => ⟨a, found, waits⟩, linked.settled⟩

theorem follows_set {s : Engine} (linked : Linked s) {txId : Nat} {a b : Actor}
    (found : s.actors txId = some a) (own : b.owner = a.owner)
    (waits : b.phase = .registered → a.phase = .registered)
    (settled : isReleased b.phase = true → b.settled ≠ none) :
    Follows s.actors (s.setActor txId b).actors := by
  refine ⟨?_, ?_, ?_⟩
  · intro other
    change (Function.update s.actors txId (some b) other).map Actor.owner = _
    by_cases same : other = txId
    · subst same
      rw [Function.update_self, found, Option.map_some, Option.map_some, own]
    · rw [Function.update_of_ne same]
  · intro other c found' waits'
    change Function.update s.actors txId (some b) other = some c at found'
    by_cases same : other = txId
    · subst same
      rw [Function.update_self, Option.some.injEq] at found'
      subst found'
      exact ⟨a, found, waits waits'⟩
    · rw [Function.update_of_ne same] at found'
      exact ⟨c, found', waits'⟩
  · intro other c found' released
    change Function.update s.actors txId (some b) other = some c at found'
    by_cases same : other = txId
    · subst same
      rw [Function.update_self, Option.some.injEq] at found'
      subst found'
      exact settled released
    · rw [Function.update_of_ne same] at found'
      exact linked.settled other c found' released

/-! ## The steps of an actor -/

/-- What a step of an actor leaves: it stays its owner's, and its connection is settled once it is
released. -/
theorem actorStep_cases {s t : Engine} {txId : Nat} {a : Actor} {op : ActorOp}
    (moved : actorStep s txId a op = some t) :
    ∃ b table, t = { s.setActor txId b with table := table } ∧ b.owner = a.owner ∧
      b.phase ≠ .registered ∧
      (isReleased b.phase = true → b.settled ≠ none ∨
        (isReleased a.phase = true ∧ b.settled = a.settled)) ∧
      (table = s.table ∨ table = s.table.tombstone txId ∨ table = s.table.deregister txId) := by
  unfold actorStep at moved
  split at moved
  · split_ifs at moved
    cases moved
    exact ⟨_, s.table, rfl, rfl, ActorPhase.noConfusion, fun held => (by cases held), Or.inl rfl⟩
  · split_ifs at moved
    cases moved
    exact ⟨_, s.table, rfl, rfl, ActorPhase.noConfusion, fun held => (by cases held), Or.inl rfl⟩
  · split_ifs at moved
    cases moved
    exact ⟨_, s.table, rfl, rfl, ActorPhase.noConfusion, fun held => (by cases held), Or.inl rfl⟩
  · split_ifs at moved
    cases moved
    exact ⟨_, s.table, rfl, rfl, ActorPhase.noConfusion, fun held => (by cases held), Or.inl rfl⟩
  · cases moved
    exact ⟨_, s.table, rfl, rfl, ActorPhase.noConfusion, fun held => (by cases held), Or.inl rfl⟩
  · split_ifs at moved
    cases moved
    exact ⟨_, s.table, rfl, rfl, ActorPhase.noConfusion, fun held => (by cases held), Or.inl rfl⟩
  · cases moved
    exact ⟨_, s.table, rfl, rfl, ActorPhase.noConfusion, fun _ => Or.inl (Option.some_ne_none _),
      Or.inl rfl⟩
  · next reason phase =>
    cases moved
    refine ⟨_, _, rfl, rfl, ActorPhase.noConfusion, fun _ => Or.inr ⟨?_, rfl⟩, ?_⟩
    · rw [phase]
      rfl
    · cases reason with
      | deadline => exact Or.inr (Or.inl rfl)
      | _ => exact Or.inr (Or.inr rfl)
  · next phase =>
    cases moved
    refine ⟨_, s.table, rfl, rfl, ActorPhase.noConfusion, fun _ => Or.inr ⟨?_, rfl⟩, Or.inl rfl⟩
    rw [phase]
    rfl
  · cases moved

/-- Every entry is that of an entry of the same owner before. -/
theorem actorStep_table {t : TxTable} {txId : Nat} {table : TxTable}
    (from' : table = t ∨ table = t.tombstone txId ∨ table = t.deregister txId) {other : Nat}
    {entry : TxEntry} (found : table.map other = some entry) :
    ∃ old, t.map other = some old ∧ old.owner = entry.owner := by
  rcases from' with rfl | rfl | rfl
  · exact ⟨entry, found, rfl⟩
  · exact tombstone_some found
  · exact ⟨entry, deregister_some found, rfl⟩

theorem Linked.actor {s t : Engine} (linked : Linked s) {txId : Nat} {a : Actor} {op : ActorOp}
    (found : s.actors txId = some a) (moved : actorStep s txId a op = some t) : Linked t := by
  obtain ⟨b, table, rfl, own, spawned, settled, from'⟩ := actorStep_cases moved
  refine linked.actors ?_ (fun _ _ => actorStep_table from') rfl rfl rfl
  refine follows_set linked found own (fun waits => absurd waits spawned) ?_
  intro released
  rcases settled released with new | ⟨was, same⟩
  · exact new
  · rw [same]
    exact linked.settled txId a found was

theorem Linked.enqueueCommand {s : Engine} (linked : Linked s) (txId : Nat) :
    Linked (enqueueCommand s txId) := by
  unfold SessionTeardown.enqueueCommand
  split
  · next a found =>
    split_ifs
    · exact linked
    · exact linked.actors (follows_set linked found rfl id (linked.settled txId a found))
        (fun _ entry found' => ⟨entry, found', rfl⟩) rfl rfl rfl
  · exact linked

/-! ## The shutdown -/

theorem follows_fireAborts {s : Engine} (linked : Linked s) (handles : List Nat) :
    Follows s.actors (fireAborts s.actors handles) := by
  have each : ∀ txId b, fireAborts s.actors handles txId = some b →
      ∃ a, s.actors txId = some a ∧ b.phase = a.phase ∧ b.settled = a.settled := by
    intro txId b found
    unfold fireAborts at found
    split_ifs at found
    · obtain ⟨a, found', rfl⟩ := Option.map_eq_some_iff.mp found
      exact ⟨a, found', rfl, rfl⟩
    · exact ⟨b, found, rfl, rfl⟩
  refine ⟨?_, ?_, ?_⟩
  · intro txId
    unfold fireAborts
    split_ifs
    · rw [Option.map_map]
      rfl
    · rfl
  · intro txId b found waits
    obtain ⟨a, found', phase, -⟩ := each txId b found
    exact ⟨a, found', phase ▸ waits⟩
  · intro txId b found released
    obtain ⟨a, found', phase, settled⟩ := each txId b found
    rw [settled]
    exact linked.settled txId a found' (phase ▸ released)

theorem Linked.shutdown {s t : Engine} (linked : Linked s) {sid : Nat} {expired : Bool}
    (moved : shutdownStep s sid expired = some t) : Linked t := by
  have plain : ∀ phase, Linked (s.setTeardown sid phase) := fun phase =>
    linked.actors (follows_refl linked) (fun _ entry found => ⟨entry, found, rfl⟩) rfl rfl rfl
  unfold shutdownStep at moved
  split at moved
  · cases moved
    exact plain _
  · cases moved
    exact plain _
  · cases moved
    exact linked.actors (follows_fireAborts linked _) (fun _ entry found => ⟨entry, found, rfl⟩)
      rfl rfl rfl
  · split_ifs at moved
    cases moved
    exact plain _
  · cases moved
    exact linked.actors (follows_refl linked)
      (fun _ entry found => ⟨entry, (purge_some found).1, rfl⟩) rfl rfl rfl
  · split_ifs at moved
    cases moved
    exact plain _
  · cases moved

/-! ## The handlers -/

/-- One handler is at a new phase. -/
structure Moved (s t : Engine) (h : Nat) (b : Begin) : Prop where
  others : ∀ k : Nat, k ≠ h → t.begins[k]? = s.begins[k]?
  here : t.begins[h]? = some b

theorem moved_set {s : Engine} {h : Nat} {b : Begin} (found : s.begins[h]? = some b)
    (phase : BeginPhase) :
    Moved s (s.setBegin h b.owner phase) h { owner := b.owner, phase := phase } := by
  constructor
  · intro k apart
    exact List.getElem?_set_ne (Ne.symm apart)
  · exact List.getElem?_set_self (List.getElem?_eq_some_iff.mp found).1

theorem moved_append (s : Engine) (b : Begin) :
    Moved s { s with begins := s.begins ++ [b] } s.begins.length b := by
  constructor
  · intro k apart
    rcases Nat.lt_or_ge k s.begins.length with below | above
    · exact List.getElem?_append_left below
    · change (s.begins ++ [b])[k]? = s.begins[k]?
      rw [List.getElem?_eq_none (by rw [List.length_append, List.length_singleton]; omega),
        List.getElem?_eq_none above]
  · exact List.getElem?_concat_length

/-- A handler that moves keeps its drawn id or draws the next one. -/
def Draws (s t : Engine) (h : Nat) (phase : BeginPhase) : Prop :=
  ∀ txId, pendingId phase = some txId →
    (∃ b, s.begins[h]? = some b ∧ pendingId b.phase = some txId) ∨
      (txId = s.nextTxId ∧ t.nextTxId = s.nextTxId + 1)

/-- The ids that the handlers have drawn stay apart. -/
theorem distinct_moved {s t : Engine} (linked : Linked s) {h : Nat} {b : Begin}
    (moved : Moved s t h b) (draws : Draws s t h b.phase) {i j : Nat} {c d : Begin} {txId : Nat}
    (first : t.begins[i]? = some c) (second : t.begins[j]? = some d)
    (one : pendingId c.phase = some txId) (other : pendingId d.phase = some txId) : i = j := by
  have clash : ∀ (k : Nat) (e : Begin), k ≠ h → t.begins[k]? = some e →
      pendingId e.phase = some txId → pendingId b.phase ≠ some txId := by
    intro k e apart found pending here
    rw [moved.others k apart] at found
    rcases draws txId here with ⟨old, found', was⟩ | ⟨rfl, -⟩
    · exact apart (linked.distinct k h e old txId found found' pending was)
    · exact absurd (linked.pending k e _ found pending).1 (Nat.lt_irrefl _)
  by_cases iHere : i = h
  · by_cases jHere : j = h
    · rw [iHere, jHere]
    · subst iHere
      rw [moved.here, Option.some.injEq] at first
      subst first
      exact absurd one (clash j d jHere second other)
  · by_cases jHere : j = h
    · subst jHere
      rw [moved.here, Option.some.injEq] at second
      subst second
      exact absurd other (clash i c iHere first one)
    · rw [moved.others i iHere] at first
      rw [moved.others j jHere] at second
      exact linked.distinct i j c d txId first second one other

theorem unregistered_next {s : Engine} (linked : Linked s) : s.actors s.nextTxId = none := by
  cases found : s.actors s.nextTxId with
  | none => rfl
  | some a => exact absurd (linked.fresh s.nextTxId a found) (Nat.lt_irrefl _)

/-- A handler moves on without touching the actors. -/
theorem Linked.begins {s t : Engine} (linked : Linked s) {h : Nat} {b : Begin}
    (moved : Moved s t h b)
    (still : ∀ old txId a, s.begins[h]? = some old → s.actors txId = some a →
      a.phase = .registered → old.phase ≠ .spawning txId)
    (draws : Draws s t h b.phase) (actors : t.actors = s.actors) (table : t.table = s.table)
    (forwarders : t.forwarders = s.forwarders) (next : s.nextTxId ≤ t.nextTxId) : Linked t := by
  refine ⟨?_, ?_, ?_, ?_, ?_, ?_, ?_⟩
  · intro txId entry found
    rw [table] at found
    rw [actors]
    exact linked.entries txId entry found
  · intro f member
    rw [forwarders] at member
    rw [actors]
    exact linked.forwarders f member
  · intro txId a found waits
    rw [actors] at found
    obtain ⟨k, c, found', own, spawning⟩ := linked.spawning txId a found waits
    have apart : k ≠ h := by
      rintro rfl
      exact still c txId a found' found waits spawning
    exact ⟨k, c, (moved.others k apart).trans found', own, spawning⟩
  · intro txId a found
    rw [actors] at found
    exact Nat.lt_of_lt_of_le (linked.fresh txId a found) next
  · intro k c txId found pending
    rw [actors]
    by_cases here : k = h
    · subst here
      rw [moved.here, Option.some.injEq] at found
      subst found
      rcases draws txId pending with ⟨old, found', was⟩ | ⟨rfl, drawn⟩
      · obtain ⟨below, none'⟩ := linked.pending k old txId found' was
        exact ⟨Nat.lt_of_lt_of_le below next, none'⟩
      · exact ⟨by omega, unregistered_next linked⟩
    · rw [moved.others k here] at found
      obtain ⟨below, none'⟩ := linked.pending k c txId found pending
      exact ⟨Nat.lt_of_lt_of_le below next, none'⟩
  · intro i j c d txId first second one other
    exact distinct_moved linked moved draws first second one other
  · intro txId a found
    rw [actors] at found
    exact linked.settled txId a found

theorem Linked.register {s : Engine} (linked : Linked s) {h : Nat} {b : Begin} {txId : Nat}
    (found : s.begins[h]? = some b) (phase : b.phase = .registering txId) :
    Linked { (s.setBegin h b.owner (.spawning txId)).setActor txId
        { owner := b.owner, aborted := false, queued := 0, phase := .registered,
          settled := none } with
      table := s.table.register txId b.owner } := by
  have moved := moved_set found (.spawning txId)
  have was : pendingId b.phase = some txId := by rw [phase]; rfl
  obtain ⟨below, none'⟩ := linked.pending h b txId found was
  have elsewhere : ∀ other a, s.actors other = some a → other ≠ txId := by
    rintro other a found' rfl
    rw [none'] at found'
    cases found'
  refine ⟨?_, ?_, ?_, ?_, ?_, ?_, ?_⟩
  · intro other entry found'
    change ∃ a, Function.update s.actors txId _ other = some a ∧ _
    rcases register_some found' with ⟨rfl, rfl⟩ | old
    · exact ⟨_, Function.update_self .., rfl⟩
    · obtain ⟨a, found'', own⟩ := linked.entries other entry old
      exact ⟨a, (Function.update_of_ne (elsewhere other a found'') ..).trans found'', own⟩
  · intro f member
    obtain ⟨a, found'', own⟩ := linked.forwarders f member
    exact ⟨a, (Function.update_of_ne (elsewhere _ a found'') ..).trans found'', own⟩
  · intro other a found' waits
    change Function.update s.actors txId _ other = some a at found'
    by_cases same : other = txId
    · subst same
      rw [Function.update_self, Option.some.injEq] at found'
      subst found'
      exact ⟨h, _, moved.here, rfl, rfl⟩
    · rw [Function.update_of_ne same] at found'
      obtain ⟨k, c, found'', own, spawning⟩ := linked.spawning other a found' waits
      have apart : k ≠ h := by
        rintro rfl
        rw [found, Option.some.injEq] at found''
        subst found''
        rw [phase] at spawning
        cases spawning
      exact ⟨k, c, (moved.others k apart).trans found'', own, spawning⟩
  · intro other a found'
    change Function.update s.actors txId _ other = some a at found'
    by_cases same : other = txId
    · rw [same]
      exact below
    · rw [Function.update_of_ne same] at found'
      exact linked.fresh other a found'
  · intro k c other found' pending
    have apart : k ≠ h := by
      rintro rfl
      change (s.setBegin k b.owner _).begins[k]? = some c at found'
      rw [moved.here, Option.some.injEq] at found'
      subst found'
      cases pending
    change (s.setBegin h b.owner _).begins[k]? = some c at found'
    rw [moved.others k apart] at found'
    obtain ⟨below', none''⟩ := linked.pending k c other found' pending
    refine ⟨below', (Function.update_of_ne ?_ ..).trans none''⟩
    rintro rfl
    exact apart (linked.distinct k h c b _ found' found pending was)
  · intro i j c d other first second one two
    exact distinct_moved linked moved (fun _ pending => (by cases pending)) first second one two
  · intro other a found' released
    change Function.update s.actors txId _ other = some a at found'
    by_cases same : other = txId
    · subst same
      rw [Function.update_self, Option.some.injEq] at found'
      subst found'
      cases released
    · rw [Function.update_of_ne same] at found'
      exact linked.settled other a found' released

theorem Linked.spawn {s : Engine} (linked : Linked s) {h : Nat} {b : Begin} {txId : Nat}
    {a : Actor} (found : s.begins[h]? = some b) (phase : b.phase = .spawning txId)
    (actor : s.actors txId = some a) :
    Linked ((s.setBegin h b.owner .ended).setActor txId { a with phase := .serving }) := by
  have moved := moved_set found .ended
  have served : Linked (s.setActor txId { a with phase := .serving }) :=
    linked.actors (follows_set linked actor rfl (fun waits => (by cases waits))
      (fun released => (by cases released))) (fun _ entry found' => ⟨entry, found', rfl⟩) rfl rfl rfl
  have moved' : Moved (s.setActor txId { a with phase := .serving })
      ((s.setBegin h b.owner .ended).setActor txId { a with phase := .serving }) h
      { owner := b.owner, phase := .ended } := ⟨moved.others, moved.here⟩
  refine served.begins moved' ?_ (fun _ pending => (by cases pending)) rfl rfl rfl (Nat.le_refl _)
  -- The actor that this handler spawns is the only one that waited for it.
  intro old other c found' actor' waits spawning
  change s.begins[h]? = some old at found'
  rw [found, Option.some.injEq] at found'
  subst found'
  rw [phase] at spawning
  cases spawning
  change Function.update s.actors txId _ txId = some c at actor'
  rw [Function.update_self, Option.some.injEq] at actor'
  subst actor'
  cases waits

theorem Linked.beginStep {s t : Engine} (linked : Linked s) {h : Nat} {b : Begin} {label : Label}
    (found : s.begins[h]? = some b) (moved : beginStep s h b label = some t) : Linked t := by
  have still : ∀ {phase : BeginPhase}, b.phase = phase → (∀ txId, phase ≠ .spawning txId) →
      ∀ old txId a, s.begins[h]? = some old → s.actors txId = some a → a.phase = .registered →
        old.phase ≠ .spawning txId := by
    intro phase at' apart old txId a found' _ _
    rw [found, Option.some.injEq] at found'
    subst found'
    rw [at']
    exact apart txId
  unfold SessionTeardown.beginStep at moved
  split at moved
  · split_ifs at moved with waits ok
    · cases moved
      have opened : Moved s { s.setBegin h b.owner (.opening s.nextTxId) with
          nextTxId := s.nextTxId + 1 } h { owner := b.owner, phase := .opening s.nextTxId } :=
        ⟨(moved_set found _).others, (moved_set found _).here⟩
      refine linked.begins opened (still waits fun _ => BeginPhase.noConfusion) ?_ rfl rfl rfl
        (Nat.le_succ _)
      intro txId drawn
      cases drawn
      exact Or.inr ⟨rfl, rfl⟩
    · cases moved
      exact linked.begins (moved_set found _) (still waits fun _ => BeginPhase.noConfusion)
        (fun _ pending => (by cases pending)) rfl rfl rfl (Nat.le_refl _)
  · split at moved
    · next txId phase =>
      cases moved
      refine linked.begins (moved_set found _) (still phase fun _ => BeginPhase.noConfusion) ?_ rfl
        rfl rfl (Nat.le_refl _)
      intro other pending
      refine Or.inl ⟨b, found, ?_⟩
      rw [phase]
      change pendingId (if _ then _ else _) = _ at pending
      split_ifs at pending
      · exact pending
      · cases pending
    · cases moved
  · split at moved
    · next txId phase =>
      cases moved
      exact linked.register found phase
    · cases moved
  · split at moved
    · next txId phase =>
      split at moved
      · next a actor =>
        cases moved
        exact linked.spawn found phase actor
      · cases moved
    · cases moved
  · cases moved

theorem Linked.forwarded {s : Engine} (linked : Linked s) {forwarders : List Forwarder}
    (known : ∀ f ∈ forwarders, ∃ a, s.actors f.txId = some a ∧ a.owner = f.caller) :
    Linked { s with forwarders := forwarders } :=
  ⟨linked.entries, known, linked.spawning, linked.fresh, linked.pending, linked.distinct,
    linked.settled⟩

theorem Linked.lookup {s : Engine} (linked : Linked s) {sid txId : Nat}
    (ok : s.table.lookup txId sid = .ok ()) :
    Linked { s with
      forwarders := s.forwarders ++ [{ caller := sid, txId := txId, live := true }] } := by
  refine linked.forwarded ?_
  intro f member
  rcases List.mem_append.mp member with old | new
  · exact linked.forwarders f old
  · rw [List.mem_singleton] at new
    subst new
    exact linked.entries txId _ (lookup_ok ok)

/-- Every step of every task keeps the tables linked. -/
theorem linked_step {s t : Engine} {label : Label} (linked : Linked s)
    (moved : step s label = some t) : Linked t := by
  have handled : ∀ h, ((s.begins[h]?).bind fun b => SessionTeardown.beginStep s h b label) = some t →
      Linked t := by
    intro h handled
    obtain ⟨b, found, rest⟩ := Option.bind_eq_some_iff.mp handled
    exact linked.beginStep found rest
  cases label with
  | begin sid =>
    simp only [step] at moved
    split_ifs at moved
    cases moved
    refine linked.begins (moved_append s _) ?_ (fun _ pending => (by cases pending)) rfl rfl rfl
      (Nat.le_refl _)
    intro old txId a found
    rw [List.getElem?_eq_none (Nat.le_refl _)] at found
    cases found
  | checkout h ok => exact handled h moved
  | beginTx h ok => exact handled h moved
  | register h => exact handled h moved
  | spawn h => exact handled h moved
  | lookup sid txId =>
    simp only [step] at moved
    split at moved
    · next ok =>
      cases moved
      exact linked.lookup ok
    · cases moved
      exact linked
  | send f =>
    simp only [step] at moved
    obtain ⟨q, -, rest⟩ := Option.bind_eq_some_iff.mp moved
    split_ifs at rest
    cases rest
    exact linked.enqueueCommand q.txId
  | release f =>
    simp only [step, Option.map_eq_some_iff] at moved
    obtain ⟨q, found, rfl⟩ := moved
    refine linked.forwarded ?_
    intro g member
    rcases List.mem_or_eq_of_mem_set member with old | rfl
    · exact linked.forwarders g old
    · exact linked.forwarders q (List.mem_of_getElem? found)
  | actor txId op =>
    simp only [step] at moved
    obtain ⟨a, found, rest⟩ := Option.bind_eq_some_iff.mp moved
    exact linked.actor found rest
  | shutdown sid expired => exact linked.shutdown moved

/-! ## After the purge -/

def isPurged : Teardown → Bool
  | .purged | .finished => true
  | _ => false

/-- No handler of the session registers a transaction after the purge. -/
def Timely (sid : Nat) (s : Engine) : Label → Prop
  | .register h => ∀ b, s.begins[h]? = some b → b.owner = sid → isPurged (s.teardown sid) = false
  | _ => True

def Cleared (sid : Nat) (s : Engine) : Prop :=
  isPurged (s.teardown sid) = true →
    ∀ txId entry, s.table.map txId = some entry → entry.owner ≠ sid

theorem Cleared.congr {sid : Nat} {s t : Engine} (cleared : Cleared sid s)
    (teardown : t.teardown = s.teardown)
    (table : ∀ txId entry, t.table.map txId = some entry →
      ∃ old, s.table.map txId = some old ∧ old.owner = entry.owner) : Cleared sid t := by
  intro purged txId entry found own
  rw [teardown] at purged
  obtain ⟨old, found', same⟩ := table txId entry found
  exact cleared purged txId old found' (same.trans own)

theorem Cleared.shutdown {sid other : Nat} {s t : Engine} {expired : Bool}
    (cleared : Cleared sid s) (moved : shutdownStep s other expired = some t) : Cleared sid t := by
  have plain : ∀ phase u, u.table = s.table → u.teardown = Function.update s.teardown other phase →
      (other = sid → isPurged phase = true → isPurged (s.teardown sid) = true) → Cleared sid u := by
    intro phase u table teardown past purged
    rw [table]
    refine cleared ?_
    rw [teardown] at purged
    by_cases same : other = sid
    · subst same
      rw [Function.update_self] at purged
      exact past rfl purged
    · rwa [Function.update_of_ne (Ne.symm same)] at purged
  unfold shutdownStep at moved
  split at moved
  · cases moved
    exact plain _ _ rfl rfl fun _ purged => (by cases purged)
  · cases moved
    exact plain _ _ rfl rfl fun _ purged => (by cases purged)
  · cases moved
    exact plain _ _ rfl rfl fun _ purged => (by cases purged)
  · split_ifs at moved
    cases moved
    exact plain _ _ rfl rfl fun _ purged => (by cases purged)
  · cases moved
    intro purged txId entry found
    obtain ⟨kept, apart⟩ := purge_some found
    by_cases same : other = sid
    · rw [← same]
      exact apart
    · refine cleared ?_ txId entry kept
      change isPurged (Function.update s.teardown other _ sid) = true at purged
      rwa [Function.update_of_ne (Ne.symm same)] at purged
  · next phase =>
    split_ifs at moved
    cases moved
    refine plain _ _ rfl rfl ?_
    rintro rfl -
    rw [phase]
    rfl
  · cases moved

theorem Cleared.beginStep {sid : Nat} {s t : Engine} {h : Nat} {b : Begin} {label : Label}
    (cleared : Cleared sid s)
    (timely : ∀ k, label = .register k → b.owner = sid → isPurged (s.teardown sid) = false)
    (moved : beginStep s h b label = some t) : Cleared sid t := by
  have same : ∀ u : Engine, u.teardown = s.teardown → u.table = s.table → Cleared sid u :=
    fun u teardown table => cleared.congr teardown fun txId entry found' =>
      ⟨entry, by rwa [table] at found', rfl⟩
  unfold SessionTeardown.beginStep at moved
  split at moved
  · split_ifs at moved
    · cases moved
      exact same _ rfl rfl
    · cases moved
      exact same _ rfl rfl
  · split at moved
    · cases moved
      exact same _ rfl rfl
    · cases moved
  · next k =>
    split at moved
    · cases moved
      intro purged txId entry found' own
      change isPurged (s.teardown sid) = true at purged
      rcases register_some found' with ⟨rfl, rfl⟩ | old
      · rw [timely k rfl own] at purged
        cases purged
      · exact cleared purged txId entry old own
    · cases moved
  · split at moved
    · split at moved
      · cases moved
        exact same _ rfl rfl
      · cases moved
    · cases moved
  · cases moved

theorem cleared_step {sid : Nat} {s t : Engine} {label : Label} (cleared : Cleared sid s)
    (timely : Timely sid s label) (moved : step s label = some t) : Cleared sid t := by
  cases label with
  | begin other =>
    simp only [step] at moved
    split_ifs at moved
    cases moved
    exact cleared
  | checkout h ok =>
    obtain ⟨b, -, rest⟩ := Option.bind_eq_some_iff.mp moved
    exact cleared.beginStep (fun _ other => (by cases other)) rest
  | beginTx h ok =>
    obtain ⟨b, -, rest⟩ := Option.bind_eq_some_iff.mp moved
    exact cleared.beginStep (fun _ other => (by cases other)) rest
  | register h =>
    obtain ⟨b, found, rest⟩ := Option.bind_eq_some_iff.mp moved
    exact cleared.beginStep (fun _ _ => timely b found) rest
  | spawn h =>
    obtain ⟨b, -, rest⟩ := Option.bind_eq_some_iff.mp moved
    exact cleared.beginStep (fun _ other => (by cases other)) rest
  | lookup other txId =>
    simp only [step] at moved
    split at moved
    · cases moved
      exact cleared
    · cases moved
      exact cleared
  | send f =>
    simp only [step] at moved
    obtain ⟨q, -, rest⟩ := Option.bind_eq_some_iff.mp moved
    split_ifs at rest
    cases rest
    unfold enqueueCommand
    split
    · split_ifs
      · exact cleared
      · exact cleared
    · exact cleared
  | release f =>
    simp only [step, Option.map_eq_some_iff] at moved
    obtain ⟨q, -, rfl⟩ := moved
    exact cleared
  | actor txId op =>
    simp only [step] at moved
    obtain ⟨a, -, rest⟩ := Option.bind_eq_some_iff.mp moved
    obtain ⟨b, table, rfl, -, -, -, from'⟩ := actorStep_cases rest
    exact cleared.congr rfl fun _ _ => actorStep_table from'
  | shutdown other expired => exact cleared.shutdown moved

/-! ## The end -/

/-- The shutdown and every request of the session have ended, and no actor of the session has a
step left to take but a timer's. -/
structure Quiet (sid : Nat) (s : Engine) : Prop where
  finished : s.teardown sid = .finished
  begins : ∀ b ∈ s.begins, b.owner = sid → b.phase = .ended
  forwarders : ∀ f ∈ s.forwarders, f.caller = sid → f.live = false
  actors : ∀ txId a, s.actors txId = some a → a.owner = sid →
    ∀ op, op ≠ .expired → actorStep s txId a op = none

/-- No transaction of the session is registered, and every actor of the session has ended and
given back its connection. -/
structure LeavesNothing (sid : Nat) (s : Engine) : Prop where
  entries : ∀ txId entry, s.table.map txId = some entry → entry.owner ≠ sid
  actors : ∀ txId a, s.actors txId = some a → a.owner = sid →
    a.phase = .done ∧ ∃ how, a.settled = some how

/-- The command channel of an actor of the session has no sender left. -/
theorem hasSender_false {sid : Nat} {s : Engine} (linked : Linked s) (quiet : Quiet sid s)
    (entries : ∀ txId entry, s.table.map txId = some entry → entry.owner ≠ sid) {txId : Nat}
    {a : Actor} (found : s.actors txId = some a) (own : a.owner = sid) :
    hasSender s txId a.owner = false := by
  have registry : s.table.map txId = none := by
    cases listed : s.table.map txId with
    | none => rfl
    | some entry =>
      obtain ⟨b, found', same⟩ := linked.entries txId entry listed
      rw [found, Option.some.injEq] at found'
      subst found'
      exact absurd (same.symm.trans own) (entries txId entry listed)
  have clones : s.forwarders.any (fun f => f.live && f.txId == txId) = false := by
    rw [List.any_eq_false]
    intro f member alive
    rw [Bool.and_eq_true, beq_iff_eq] at alive
    obtain ⟨live, rfl⟩ := alive
    obtain ⟨b, found', same⟩ := linked.forwarders f member
    rw [found, Option.some.injEq] at found'
    subst found'
    rw [quiet.forwarders f member (same.symm.trans own)] at live
    cases live
  unfold hasSender
  rw [registry, clones, own, quiet.finished]
  rfl

theorem leavesNothing_of_cleared {sid : Nat} {s : Engine} (linked : Linked s)
    (cleared : Cleared sid s) (quiet : Quiet sid s) : LeavesNothing sid s := by
  have entries := cleared (by rw [quiet.finished]; rfl)
  refine ⟨entries, ?_⟩
  intro txId a found own
  have stuck := quiet.actors txId a found own
  have sender := hasSender_false linked quiet entries found own
  cases phase : a.phase with
  | registered =>
    obtain ⟨h, b, found', own', spawning⟩ := linked.spawning txId a found phase
    have ended := quiet.begins b (List.mem_of_getElem? found') (own'.trans own)
    rw [spawning] at ended
    cases ended
  | serving =>
    have stopped := stuck .stopped ActorOp.noConfusion
    have command := stuck .command ActorOp.noConfusion
    have closed := stuck .closed ActorOp.noConfusion
    simp only [actorStep, phase] at stopped command closed
    split_ifs at stopped command closed with aborted busy waits
    rw [sender] at waits
    rcases busy with aborted' | idle
    · exact absurd aborted' aborted
    · rcases waits with aborted' | full | none'
      · exact absurd aborted' aborted
      · exact absurd idle full
      · cases none'
  | running =>
    have next := stuck (.completes .continues) ActorOp.noConfusion
    simp [actorStep, phase] at next
  | tearing reason =>
    have next := stuck (.release true) ActorOp.noConfusion
    simp [actorStep, phase] at next
  | dropped reason =>
    have next := stuck .unregister ActorOp.noConfusion
    simp [actorStep, phase] at next
  | unregistered =>
    have next := stuck .signal ActorOp.noConfusion
    simp [actorStep, phase] at next
  | done =>
    have released := linked.settled txId a found (by rw [phase]; rfl)
    exact ⟨rfl, Option.ne_none_iff_exists'.mp released⟩

/-- In every run in which no handler of the session registers after the purge, the session leaves
nothing behind once it has come to rest. -/
theorem leavesNothing_of_timely {sid : Nat} {labels : List Label} {s : Engine}
    (timely : Meets step (Timely sid) Engine.start labels)
    (reached : run step Engine.start labels = some s) (quiet : Quiet sid s) :
    LeavesNothing sid s := by
  have keep : ∀ {before after : Engine} {label : Label}, Linked before ∧ Cleared sid before →
      Timely sid before label → step before label = some after →
      Linked after ∧ Cleared sid after := by
    intro before after label both cond moved
    exact ⟨linked_step both.1 moved, cleared_step both.2 cond moved⟩
  have start : Cleared sid Engine.start := fun purged => (by cases purged)
  have holds := run_invariant step keep ⟨linked_start, start⟩ timely reached
  exact leavesNothing_of_cleared holds.1 holds.2 quiet

/-- A transaction that is open when its session ends. -/
def openAtShutdown (sid : Nat) : List Label :=
  [.begin sid, .checkout 0 true, .beginTx 0 true, .register 0, .spawn 0, .shutdown sid false,
    .shutdown sid false, .shutdown sid false, .actor 1 .stopped, .actor 1 (.release true),
    .actor 1 .unregister, .actor 1 .signal, .shutdown sid false, .shutdown sid false,
    .shutdown sid false]

/-- With one transaction drawn, there is at most one actor. -/
theorem actor_one {labels : List Label} {s : Engine}
    (reached : run step Engine.start labels = some s) (drawn : s.nextTxId = 2)
    (first : s.actors 0 = none) {txId : Nat} {a : Actor} (found : s.actors txId = some a) :
    txId = 1 := by
  have below := (run_always step linked_step linked_start reached).fresh txId a found
  have positive : txId ≠ 0 := by
    rintro rfl
    rw [first] at found
    cases found
  omega

theorem leavesNothing_of_timely_on_sample :
    ∃ s, run step Engine.start (openAtShutdown 7) = some s ∧ Quiet 7 s ∧ LeavesNothing 7 s := by
  have reached : run step Engine.start (openAtShutdown 7) =
      some ((run step Engine.start (openAtShutdown 7)).get rfl) := rfl
  have timely : Meets step (Timely 7) Engine.start (openAtShutdown 7) := by
    refine meets_cons step trivial rfl (meets_cons step trivial rfl (meets_cons step trivial rfl
      (meets_cons step ?_ rfl (meets_cons step trivial rfl (meets_cons step trivial rfl
        (meets_cons step trivial rfl (meets_cons step trivial rfl (meets_cons step trivial rfl
          (meets_cons step trivial rfl (meets_cons step trivial rfl (meets_cons step trivial rfl
            (meets_cons step trivial rfl (meets_cons step trivial rfl (meets_cons step trivial rfl
              trivial))))))))))))))
    intro b _ _
    rfl
  have quiet : Quiet 7 ((run step Engine.start (openAtShutdown 7)).get rfl) := by
    refine ⟨rfl, ?_, ?_, ?_⟩
    · intro b member _
      rw [List.mem_singleton.mp member]
    · intro f member
      cases member
    · intro txId a found _ op _
      obtain rfl := actor_one reached rfl rfl found
      have same : Actor.mk 7 true 0 .done (some .rolledBack) = a := Option.some.inj found
      subst same
      cases op <;> rfl
  exact ⟨_, reached, quiet, leavesNothing_of_timely timely reached quiet⟩

/-- A `BEGIN` whose checkout is slow, beside the whole shutdown of its session. -/
def lateBegin (sid : Nat) : List Label :=
  [.begin sid, .checkout 0 true, .shutdown sid false, .shutdown sid false, .shutdown sid false,
    .shutdown sid false, .shutdown sid false, .beginTx 0 true, .register 0, .spawn 0,
    .shutdown sid false]

/-- The transaction of a late `BEGIN` stays registered, with its actor waiting for commands. -/
theorem lateBegin_stays :
    ∃ s, run step Engine.start (lateBegin 7) = some s ∧ Quiet 7 s ∧ ¬LeavesNothing 7 s := by
  have reached : run step Engine.start (lateBegin 7) =
      some ((run step Engine.start (lateBegin 7)).get rfl) := rfl
  refine ⟨_, reached, ⟨rfl, ?_, ?_, ?_⟩, ?_⟩
  · intro b member _
    rw [List.mem_singleton.mp member]
  · intro f member
    cases member
  · intro txId a found _ op timer
    obtain rfl := actor_one reached rfl rfl found
    have same : Actor.mk 7 false 0 .serving none = a := Option.some.inj found
    subst same
    cases op with
    | expired => exact absurd rfl timer
    | _ => rfl
  · intro nothing
    exact nothing.entries 1 (.active 7) rfl rfl

end FerroEngine.TeardownSoundness
