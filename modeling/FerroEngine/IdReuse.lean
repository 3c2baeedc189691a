import FerroEngine.SessionTerminals

set_option autoImplicit false

/-! # Reuse of a request id

A client may open an id again once it has received the `END` of every earlier request under it.
The supervisor sends the terminal before it removes the id, so there is a gap in which the id
still counts as in flight.
-/

namespace FerroEngine.IdReuse

open LabelledRuns FrameRouting SessionLifecycle SessionTerminals

/-- The client has received the `END` of every request that it opened under the id. -/
def Received (s : Session) (id : Nat) : Prop :=
  ∀ k r, s.requests[k]? = some r → r.id = id → endsOf k s.wire = 1

/-- The session takes the id for a new request if there is room for one. -/
structure Reusable (s : Session) (id : Nat) : Prop where
  accepted : s.insert id ≠ .error .reused
  room : s.registry.length < s.maxInflight → ∃ registry, s.insert id = .ok registry

def between : Phase → Bool
  | .sent => true
  | _ => false

/-- The owner of an id whose terminals have all arrived is between its two last steps. -/
theorem between_of_registered {s : Session} (sound : Sound s) {id k : Nat}
    (received : Received s id) (inside : In registered s.requests k id) :
    In between s.requests k id := by
  obtain ⟨r, found, own, holds⟩ := inside
  have one := sound.ends k r found
  have arrived := received k r found own
  have bound := endsOf_wire_le s k
  have past : awaitsEnd r.phase = false := by
    by_contra awaits
    rw [Bool.not_eq_false] at awaits
    rw [if_pos awaits] at one
    omega
  refine ⟨r, found, own, ?_⟩
  cases phase : r.phase with
  | sent => rfl
  | removed =>
    rw [phase] at holds
    cases holds
  | _ =>
    rw [phase] at past
    cases past

theorem registered_of_between {requests : List Request} {k id : Nat}
    (inside : In between requests k id) : In registered requests k id := by
  obtain ⟨r, found, own, holds⟩ := inside
  refine ⟨r, found, own, ?_⟩
  cases phase : r.phase with
  | sent => rfl
  | _ =>
    rw [phase] at holds
    cases holds

theorem insert_reused {s : Session} {id : Nat} (listed : id ∈ s.registry) :
    s.insert id = .error .reused := by
  unfold Session.insert
  rw [if_pos listed]

theorem reusable_of_free {s : Session} {id : Nat} (free : id ∉ s.registry) : Reusable s id := by
  constructor
  · unfold Session.insert
    rw [if_neg free]
    split_ifs
    · intro full
      cases full
    · intro full
      cases full
  · intro room
    refine ⟨id :: s.registry, ?_⟩
    unfold Session.insert
    rw [if_neg free, if_neg (Nat.not_le.mpr room)]

/-- In every state of every run, an id whose terminals have all arrived can be taken again exactly
when no supervisor of that id stands between its send and its removal. -/
theorem reusable_iff {maxInflight : Nat} {peerUid : Option Nat} {adminUids : List Nat}
    {labels : List Label} {s : Session}
    (reached : run step (Session.start maxInflight peerUid adminUids) labels = some s) {id : Nat}
    (received : Received s id) :
    Reusable s id ↔ ∀ k, ¬In between s.requests k id := by
  have sound := sound_run reached
  constructor
  · intro reusable k inside
    have listed := sound.registry.listed k id (registered_of_between inside)
    exact reusable.accepted (insert_reused listed)
  · intro apart
    refine reusable_of_free ?_
    intro listed
    obtain ⟨k, owner⟩ := sound.registry.owned id listed
    exact apart k (between_of_registered sound received owner)

/-- An `EXEC` on the id. -/
def execFrame (id : Nat) : InFrame :=
  { flags := 0, service := 2, method := 1, requestId := id, decodes := true }

/-- One request from its frame to its `END` on the wire. -/
def served (id k : Nat) : List Label :=
  [.read (.frame (execFrame id)) none, .reserve true, .task k (.declare (.ok [])),
    .task k (.resolve false), .task k .terminal, .write]

theorem reusable_iff_after_removal :
    ∃ s, run step (Session.start 8 none []) (served 7 0 ++ [.task 0 .remove]) = some s ∧
      Received s 7 ∧ Reusable s 7 := by
  have reached : run step (Session.start 8 none []) (served 7 0 ++ [.task 0 .remove]) =
      some ((run step (Session.start 8 none []) (served 7 0 ++ [.task 0 .remove])).get rfl) := rfl
  have received : Received ((run step (Session.start 8 none [])
      (served 7 0 ++ [.task 0 .remove])).get rfl) 7 := by
    intro k r found own
    match k with
    | 0 => rfl
    | k + 1 => cases found
  refine ⟨_, reached, received, (reusable_iff reached received).mpr ?_⟩
  rintro k ⟨r, found, own, holds⟩
  match k with
  | 0 =>
    cases found
    cases holds
  | k + 1 => cases found

/-- The client has the `END`, and the request it then opens is refused. -/
theorem reuse_refused_before_removal :
    ∃ s t, run step (Session.start 8 none []) (served 7 0) = some s ∧ Received s 7 ∧
      s.registry.length < s.maxInflight ∧ s.insert 7 = .error .reused ∧ ¬Reusable s 7 ∧
      step s (.read (.frame (execFrame 7)) none) = some t ∧
      t.frames.getLast? =
        some (errorFrame 7 (errorPayload protocolCode "reused in-flight request id")) := by
  refine ⟨_, _, rfl, ?_, by decide, by decide, ?_, rfl, by decide⟩
  · intro k r found own
    match k with
    | 0 => rfl
    | k + 1 => cases found
  · intro reusable
    exact reusable.accepted (by decide)

end FerroEngine.IdReuse
