import Mathlib

set_option autoImplicit false

/-! # Memo tables with an eviction queue

A hash map that remembers the values of a function, and the queue of its keys, oldest first.
-/

namespace FerroEngine.MemoQueue

variable {α β : Type*} [BEq α] [Hashable α]

/-- The queue lists the keys of the map, each once. -/
structure Keyed (map : Std.HashMap α β) (order : List α) : Prop where
  nodup : order.Nodup
  keys : ∀ key, key ∈ map ↔ key ∈ order
  size : map.size = order.length

/-- Every value of the map is the function's. -/
def Memoises (f : α → β) (map : Std.HashMap α β) : Prop :=
  ∀ key value, map[key]? = some value → value = f key

/-- Drops the oldest keys until at most `cap` are left. -/
def evict (cap : Nat) : Std.HashMap α β → List α → Std.HashMap α β × List α
  | map, [] => (map, [])
  | map, oldest :: order =>
    if cap < (oldest :: order).length then evict cap (map.erase oldest) order
    else (map, oldest :: order)

theorem evict_length (cap : Nat) (map : Std.HashMap α β) (order : List α) :
    (evict cap map order).2.length ≤ cap := by
  induction order generalizing map with
  | nil => exact Nat.zero_le cap
  | cons oldest order ih =>
    rw [evict]
    split_ifs with long
    · exact ih (map.erase oldest)
    · exact Nat.le_of_not_lt long

theorem Keyed.empty : Keyed (∅ : Std.HashMap α β) [] where
  nodup := List.nodup_nil
  keys := fun key => by simp
  size := Std.HashMap.size_empty

theorem Memoises.empty (f : α → β) : Memoises f (∅ : Std.HashMap α β) := by
  intro key value found
  rw [Std.HashMap.getElem?_empty] at found
  cases found

section
variable [LawfulBEq α] {map : Std.HashMap α β} {order : List α} {f : α → β}

theorem Keyed.push (keyed : Keyed map order) {key : α} (absent : key ∉ map) (value : β) :
    Keyed (map.insert key value) (order ++ [key]) where
  nodup := by
    have new : key ∉ order := fun member => absent ((keyed.keys key).mpr member)
    exact List.nodup_append_comm.mp (List.nodup_cons.mpr ⟨new, keyed.nodup⟩)
  keys := fun other => by
    rw [Std.HashMap.mem_insert, beq_iff_eq, keyed.keys, List.mem_append, List.mem_singleton,
      or_comm, eq_comm]
  size := by
    rw [Std.HashMap.size_insert, if_neg absent, keyed.size, List.length_append]
    rfl

theorem Keyed.pop {oldest : α} (keyed : Keyed map (oldest :: order)) :
    Keyed (map.erase oldest) order := by
  obtain ⟨apart, nodup⟩ := List.nodup_cons.mp keyed.nodup
  have member : oldest ∈ map := (keyed.keys oldest).mpr List.mem_cons_self
  refine ⟨nodup, fun key => ?_, ?_⟩
  · rw [Std.HashMap.mem_erase, keyed.keys, List.mem_cons, beq_eq_false_iff_ne]
    constructor
    · rintro ⟨other, rfl | later⟩
      · exact absurd rfl other
      · exact later
    · intro later
      refine ⟨?_, Or.inr later⟩
      rintro rfl
      exact apart later
  · rw [Std.HashMap.size_erase, if_pos member, keyed.size, List.length_cons, Nat.add_sub_cancel]

theorem Keyed.evict (cap : Nat) (keyed : Keyed map order) :
    Keyed (evict cap map order).1 (evict cap map order).2 := by
  induction order generalizing map with
  | nil => exact keyed
  | cons oldest order ih =>
    rw [MemoQueue.evict]
    split_ifs
    · exact ih keyed.pop
    · exact keyed

theorem Memoises.insert (memoises : Memoises f map) (key : α) :
    Memoises f (map.insert key (f key)) := by
  intro other value found
  rw [Std.HashMap.getElem?_insert] at found
  split_ifs at found with same
  · rw [beq_iff_eq.mp same] at found
    exact (Option.some.inj found).symm
  · exact memoises other value found

theorem Memoises.erase (memoises : Memoises f map) (key : α) : Memoises f (map.erase key) := by
  intro other value found
  rw [Std.HashMap.getElem?_erase] at found
  split_ifs at found
  exact memoises other value found

theorem Memoises.evict (cap : Nat) (memoises : Memoises f map) (order : List α) :
    Memoises f (evict cap map order).1 := by
  induction order generalizing map with
  | nil => exact memoises
  | cons oldest order ih =>
    rw [MemoQueue.evict]
    split_ifs
    · exact ih (memoises.erase oldest)
    · exact memoises

end

end FerroEngine.MemoQueue
