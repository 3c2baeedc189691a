import Mathlib.Data.List.Basic

set_option autoImplicit false

/-! # The transaction registry

`TxRegistry` of `tx/mod.rs`: the map from transaction ids to live actors or deadline tombstones,
with its bounded tombstone retention.
-/

namespace FerroEngine.TxRegistry

/-- `TxEntry`; the handle of a live actor is named by its transaction id. -/
inductive TxEntry where
  | active (owner : Nat)
  | tombstoned (owner : Nat)
  deriving DecidableEq, Repr

def TxEntry.owner : TxEntry → Nat
  | .active owner | .tombstoned owner => owner

structure TxTable where
  map : Nat → Option TxEntry
  tombstoneOrder : List Nat

def TxTable.empty : TxTable :=
  { map := fun _ => none, tombstoneOrder := [] }

def tombstoneCap : Nat := 4096

namespace TxTable

def register (t : TxTable) (txId owner : Nat) : TxTable :=
  { t with map := Function.update t.map txId (some (.active owner)) }

def deregister (t : TxTable) (txId : Nat) : TxTable :=
  { t with map := Function.update t.map txId none }

/-- Oldest first, until the order is within the cap; an id that is no tombstone any more is only
dropped from the order. -/
def evict (map : Nat → Option TxEntry) : List Nat → TxTable
  | [] => { map := map, tombstoneOrder := [] }
  | oldest :: rest =>
    if (oldest :: rest).length ≤ tombstoneCap then { map := map, tombstoneOrder := oldest :: rest }
    else match map oldest with
      | some (.tombstoned _) => evict (Function.update map oldest none) rest
      | _ => evict map rest

def tombstone (t : TxTable) (txId : Nat) : TxTable :=
  match t.map txId with
  | some entry =>
    evict (Function.update t.map txId (some (.tombstoned entry.owner)))
      (t.tombstoneOrder ++ [txId])
  | none => t

inductive LookupErr where
  | notFoundOrForbidden
  | tombstoned
  deriving DecidableEq, Repr

def lookup (t : TxTable) (txId caller : Nat) : Except LookupErr Unit :=
  match t.map txId with
  | some (.active owner) => if owner = caller then .ok () else .error .notFoundOrForbidden
  | some (.tombstoned owner) =>
    if owner = caller then .error .tombstoned else .error .notFoundOrForbidden
  | none => .error .notFoundOrForbidden

/-- The live handles that `abort_session` collects; every id is below `bound`. -/
def handles (t : TxTable) (sid bound : Nat) : List Nat :=
  (List.range bound).filter fun txId => t.map txId = some (.active sid)

/-- The final `retain` of `abort_session`. -/
def purge (t : TxTable) (sid : Nat) : TxTable :=
  { t with map := fun txId => (t.map txId).filter fun entry => entry.owner != sid }

end TxTable

/-! ## What the operations leave of an entry -/

open TxTable

/-- Eviction removes entries and changes none. -/
theorem evict_some {map : Nat → Option TxEntry} {order : List Nat} {txId : Nat} {entry : TxEntry}
    (found : (evict map order).map txId = some entry) : map txId = some entry := by
  induction order generalizing map with
  | nil => exact found
  | cons oldest rest ih =>
    unfold evict at found
    split_ifs at found with within
    · exact found
    · split at found
      · have kept := ih found
        by_cases same : txId = oldest
        · subst same
          rw [Function.update_self] at kept
          cases kept
        · rw [Function.update_of_ne same] at kept
          exact kept
      · exact ih found

theorem register_some {t : TxTable} {txId owner other : Nat} {entry : TxEntry}
    (found : (t.register txId owner).map other = some entry) :
    (other = txId ∧ entry = .active owner) ∨ t.map other = some entry := by
  by_cases same : other = txId
  · subst same
    have here : Function.update t.map other (some (.active owner)) other = some entry := found
    rw [Function.update_self, Option.some.injEq] at here
    exact Or.inl ⟨rfl, here.symm⟩
  · have there : Function.update t.map txId (some (.active owner)) other = some entry := found
    rw [Function.update_of_ne same] at there
    exact Or.inr there

theorem deregister_some {t : TxTable} {txId other : Nat} {entry : TxEntry}
    (found : (t.deregister txId).map other = some entry) : t.map other = some entry := by
  have here : Function.update t.map txId none other = some entry := found
  by_cases same : other = txId
  · subst same
    rw [Function.update_self] at here
    cases here
  · rw [Function.update_of_ne same] at here
    exact here

/-- A tombstone takes the place of an entry of the same owner. -/
theorem tombstone_some {t : TxTable} {txId other : Nat} {entry : TxEntry}
    (found : (t.tombstone txId).map other = some entry) :
    ∃ old, t.map other = some old ∧ old.owner = entry.owner := by
  unfold tombstone at found
  split at found
  · next old was =>
    have kept := evict_some found
    by_cases same : other = txId
    · subst same
      rw [Function.update_self, Option.some.injEq] at kept
      exact ⟨old, was, by rw [← kept]; rfl⟩
    · rw [Function.update_of_ne same] at kept
      exact ⟨entry, kept, rfl⟩
  · exact ⟨entry, found, rfl⟩

theorem purge_some {t : TxTable} {sid other : Nat} {entry : TxEntry}
    (found : (t.purge sid).map other = some entry) :
    t.map other = some entry ∧ entry.owner ≠ sid := by
  have here : (t.map other).filter (fun entry => entry.owner != sid) = some entry := found
  rw [Option.filter_eq_some_iff] at here
  exact ⟨here.1, by simpa using here.2⟩

theorem lookup_ok {t : TxTable} {txId caller : Nat} (ok : t.lookup txId caller = .ok ()) :
    t.map txId = some (.active caller) := by
  unfold lookup at ok
  split at ok
  · next owner was =>
    split_ifs at ok with same
    rw [was, same]
  · split_ifs at ok
  · cases ok

end FerroEngine.TxRegistry
