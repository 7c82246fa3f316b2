/-
This file models the part of the integer functions (`base/intmath.hh`) that the
sizes of tables and caches are checked with and that clock cycles are counted with.
-/

import Gem5.Library.Dyadic

namespace Gem5.Base

open Library

/-- A number is a power of two if it is its own least significant bit. -/
def isPowerOf2 {w : Nat} (n : BitVec w) : Bool := n != 0 && n &&& ~~~(n - 1) == n

/-- The position of the highest bit of a number that is not zero. -/
def floorLog2 {w : Nat} (n : BitVec w) : Nat := n.toNat.log2

def divCeil (a b : Nat) : Nat := (a + b - 1) / b

theorem isPowerOf2_iff {w : Nat} {n : BitVec w} : isPowerOf2 n = true ↔ ∃ k, n.toNat = 2 ^ k := by
  rw [isPowerOf2, Bool.and_eq_true, bne_iff_ne, beq_iff_eq]
  constructor
  · rintro ⟨nonzero, same⟩
    exact (and_not_pred_eq_self_iff nonzero).mp same
  · rintro ⟨k, power⟩
    have nonzero : n ≠ 0 := by
      rintro rfl
      have positive := Nat.two_pow_pos k
      simp [← power] at positive
    exact ⟨nonzero, (and_not_pred_eq_self_iff nonzero).mpr ⟨k, power⟩⟩

end Gem5.Base
