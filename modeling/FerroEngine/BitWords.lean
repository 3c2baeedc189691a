import Mathlib.Algebra.Ring.Nat
import Mathlib.Data.List.Basic

set_option autoImplicit false

/-! # Words as numbers -/

namespace FerroEngine.BitWords

variable {w v : Nat}

theorem toNat_append_eq (x : BitVec w) (y : BitVec v) :
    (x ++ y).toNat = x.toNat * 2 ^ v + y.toNat := by
  rw [BitVec.toNat_append, ← Nat.shiftLeft_add_eq_or_of_lt y.isLt, Nat.shiftLeft_eq]

theorem toNat_extract (x : BitVec w) (start len : Nat) :
    (x.extractLsb' start len).toNat = x.toNat / 2 ^ start % 2 ^ len := by
  rw [BitVec.extractLsb'_toNat, Nat.shiftRight_eq_div_pow]

end FerroEngine.BitWords
