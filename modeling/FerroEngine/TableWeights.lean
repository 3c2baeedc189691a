import Mathlib.Algebra.BigOperators.Group.List.Basic
import Mathlib.Algebra.Ring.Nat

set_option autoImplicit false

/-! # Weights of a table

The entries of a table are addressed by index; a weight is summed over them.
-/

namespace FerroEngine.TableWeights

variable {α : Type}

def weigh (weight : α → Nat) (table : List α) : Nat :=
  (table.map weight).sum

@[simp] theorem weigh_nil (weight : α → Nat) : weigh weight [] = 0 := rfl

theorem weigh_cons (weight : α → Nat) (x : α) (table : List α) :
    weigh weight (x :: table) = weight x + weigh weight table := by
  rw [weigh, List.map_cons, List.sum_cons, weigh]

theorem weigh_push (weight : α → Nat) (table : List α) (x : α) :
    weigh weight (table ++ [x]) = weigh weight table + weight x := by
  rw [weigh, List.map_append, List.sum_append, weigh, List.map_singleton, List.sum_singleton]

/-- A replaced entry takes its weight with it. -/
theorem weigh_set (weight : α → Nat) {table : List α} {i : Nat} {x : α} (y : α)
    (found : table[i]? = some x) :
    weigh weight (table.set i y) + weight x = weigh weight table + weight y := by
  induction table generalizing i with
  | nil => cases found
  | cons z table ih =>
    cases i with
    | zero =>
      cases found
      rw [List.set_cons_zero, weigh_cons, weigh_cons]
      omega
    | succ i =>
      have rest := ih found
      rw [List.set_cons_succ, weigh_cons, weigh_cons]
      omega

theorem weigh_eraseIdx (weight : α → Nat) {table : List α} {i : Nat} {x : α}
    (found : table[i]? = some x) :
    weigh weight (table.eraseIdx i) + weight x = weigh weight table := by
  induction table generalizing i with
  | nil => cases found
  | cons z table ih =>
    cases i with
    | zero =>
      cases found
      rw [List.eraseIdx_cons_zero, weigh_cons]
      omega
    | succ i =>
      have rest := ih found
      rw [List.eraseIdx_cons_succ, weigh_cons, weigh_cons]
      omega

theorem weight_le (weight : α → Nat) {table : List α} {x : α} (member : x ∈ table) :
    weight x ≤ weigh weight table := by
  obtain ⟨i, found⟩ := List.getElem?_of_mem member
  have split := weigh_eraseIdx weight found
  omega

end FerroEngine.TableWeights
