/-
This file is the library of powers of two among bit vectors.
-/

import Mathlib.Data.Nat.Bitwise

namespace Gem5.Library

open BitVec

/-- A number is its own least significant bit if and only if it is a power of two. -/
theorem and_not_pred_eq_self_iff {w : Nat} {x : BitVec w} (nonzero : x ≠ 0) :
    x &&& ~~~(x - 1) = x ↔ ∃ k, x.toNat = 2 ^ k := by
  have positive : x.toNat ≠ 0 := fun zero => nonzero (eq_of_toNat_eq (by simpa using zero))
  have below : (x - 1).toNat = x.toNat - 1 := by
    have one : (1 : BitVec w).toNat = 1 :=
      (toNat_ofNat 1 w).trans (Nat.mod_eq_of_lt (by omega))
    rw [toNat_sub, one]
    have split : 2 ^ w - 1 + x.toNat = x.toNat - 1 + 2 ^ w := by omega
    rw [split, Nat.add_mod_right, Nat.mod_eq_of_lt (by omega)]
  have top := Nat.log2_self_le positive
  have next := Nat.lt_log2_self (n := x.toNat)
  constructor
  · intro same
    by_contra other
    have more : 2 ^ x.toNat.log2 ≤ x.toNat - 1 := by
      have : x.toNat ≠ 2 ^ x.toNat.log2 := fun power => other ⟨_, power⟩
      omega
    have bit : x.getLsbD x.toNat.log2 = true :=
      Nat.testBit_of_two_pow_le_and_two_pow_add_one_gt top next
    have bitBelow : (x - 1).getLsbD x.toNat.log2 = true := by
      rw [BitVec.getLsbD, below]
      exact Nat.testBit_of_two_pow_le_and_two_pow_add_one_gt more (by omega)
    have cleared := congrArg (BitVec.getLsbD · x.toNat.log2) same
    simp only [getLsbD_and, getLsbD_not, bitBelow, bit, Bool.not_true,
      Bool.and_false] at cleared
    cases cleared
  · rintro ⟨k, power⟩
    refine eq_of_getLsbD_eq fun i inside => ?_
    rw [getLsbD_and, getLsbD_not, BitVec.getLsbD, BitVec.getLsbD, below, power,
      Nat.testBit_two_pow_sub_one, Nat.testBit_two_pow]
    by_cases same : k = i
    · simp [same, inside]
    · simp [same]

end Gem5.Library
