import FerroEngine.AutocommitExec

set_option autoImplicit false

/-! # The length that a result body carries

A body carries its own length. Setting it can only change the width of one field, and the lengths
that follow each other lie too close together for the width to change twice.
-/

namespace FerroEngine.ExecOkFixpoint

open MessagePack SqlMessages AutocommitExec

def withBytes (e : ExecOk) (n : Nat) : ExecOk :=
  { e with stats := { e.stats with bytes := n } }

/-- Everything but the field. -/
def base (e : ExecOk) : Nat :=
  (withBytes e 0).encode.length - 1

theorem encode_length (e : ExecOk) : e.encode.length = base e + uintSize e.stats.bytes := by
  have zero : uintSize 0 = 1 := rfl
  rw [base, withBytes, ExecOk.encode, ExecOk.encode, Stats.encode, Stats.encode]
  simp only [List.length_append, writeUint_length, zero]
  omega

theorem base_withBytes (e : ExecOk) (n : Nat) : base (withBytes e n) = base e := rfl

theorem withBytes_encode_length (e : ExecOk) (n : Nat) :
    (withBytes e n).encode.length = base e + uintSize n :=
  encode_length (withBytes e n)

/-- The width of the field takes one of two values next to each other over nine lengths. -/
theorem uintSize_mono {m n : Nat} (le : m ≤ n) : uintSize m ≤ uintSize n := by
  unfold uintSize
  split_ifs <;> omega

theorem uintSize_two {m n k : Nat} (low : m ≤ n) (mid : n ≤ k) (close : k ≤ m + 8) :
    uintSize m = uintSize n ∨ uintSize n = uintSize k := by
  unfold uintSize
  split_ifs <;> omega

/-- The length at the next pass. -/
def next (e : ExecOk) (n : Nat) : Nat :=
  base e + uintSize n

/-- The third length is the last one that is new. -/
theorem next_stable (e : ExecOk) (n : Nat) :
    next e (next e (next e (next e n))) = next e (next e (next e n)) := by
  have most := uintSize_le n
  have most' := uintSize_le (next e (next e n))
  have least := uintSize_pos n
  have least' := uintSize_pos (next e (next e n))
  have first : next e n = base e + uintSize n := rfl
  have second : next e (next e n) = base e + uintSize (next e n) := rfl
  have third : next e (next e (next e n)) = base e + uintSize (next e (next e n)) := rfl
  have fourth : next e (next e (next e (next e n))) =
      base e + uintSize (next e (next e (next e n))) := rfl
  rcases Nat.le_total (next e n) (next e (next e n)) with up | down
  · have grows := uintSize_mono up
    rcases uintSize_two up (k := next e (next e (next e n))) (by omega) (by omega) with
      same | same
    · have settled : next e (next e (next e n)) = next e (next e n) := by omega
      rw [settled, settled]
    · omega
  · have shrinks := uintSize_mono down
    have low : next e (next e (next e n)) ≤ next e (next e n) := by omega
    rcases uintSize_two low down (by omega) with same | same
    · omega
    · have settled : next e (next e (next e n)) = next e (next e n) := by omega
      rw [settled, settled]

/-! ## The loop -/

theorem fixpointLoop_stable {e : ExecOk} {n : Nat} (stable : next e n = n) (passes : Nat) :
    fixpointLoop passes (withBytes e n) (withBytes e n).encode = (withBytes e n).encode := by
  cases passes with
  | zero => rfl
  | succ passes =>
    rw [fixpointLoop, withBytes_encode_length]
    exact if_pos stable.symm

/-- A pass sets the field to the length, also where it is set already. -/
theorem fixpointLoop_succ (e : ExecOk) (n passes : Nat) :
    fixpointLoop (passes + 1) (withBytes e n) (withBytes e n).encode =
      fixpointLoop passes (withBytes e (next e n)) (withBytes e (next e n)).encode := by
  by_cases stable : next e n = n
  · rw [stable, fixpointLoop_stable stable, fixpointLoop_stable stable]
  · rw [fixpointLoop, withBytes_encode_length]
    exact if_neg fun same => stable same.symm

theorem encodeExecOkFixpoint_eq (e : ExecOk) :
    encodeExecOkFixpoint e =
      (withBytes e (next e (next e (next e e.stats.bytes)))).encode := by
  have loop := fixpointLoop_stable (next_stable e e.stats.bytes) 5
  change fixpointLoop 8 (withBytes e e.stats.bytes) (withBytes e e.stats.bytes).encode = _
  rw [fixpointLoop_succ, fixpointLoop_succ, fixpointLoop_succ]
  exact loop

/-- The body that is returned carries its own length. -/
theorem fixpoint_reached (e : ExecOk) :
    ∃ n, encodeExecOkFixpoint e = (withBytes e n).encode ∧
      (withBytes e n).stats.bytes = (encodeExecOkFixpoint e).length := by
  refine ⟨_, encodeExecOkFixpoint_eq e, ?_⟩
  rw [encodeExecOkFixpoint_eq, withBytes_encode_length]
  exact (next_stable e e.stats.bytes).symm

end FerroEngine.ExecOkFixpoint
