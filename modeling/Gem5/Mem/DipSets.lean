/-
This file counts the dedicated sets of the tag store with two policies (`mem/cache/tags/dip.cc`).
The constructor divides by the number of sets in a constituency, which is zero when there are more
dedicated sets than sets. Otherwise it either refuses its parameters or has as many dedicated sets
as were asked for, and it takes every number of them that is a power of two.
-/

import Gem5.Mem.Dip
import Mathlib.Data.List.Nodup

namespace Gem5.Mem.Dip

open List

/-- There are as many dedicated sets of each policy as were asked for, and none of both. -/
def Outcome.Right (numSets ndsets : Nat) : Outcome → Prop
  | divisionByZero => False
  | fatal => ¬ (∃ exponent, ndsets = 2 ^ exponent) ∨ numSets < 2 * ndsets
  | accepted size =>
    (range numSets).countP (isDedicatedLRU size) = ndsets ∧
    (range numSets).countP (isDedicatedBIP size) = ndsets ∧
    ∀ set < numSets, ¬ (isDedicatedLRU size set = true ∧ isDedicatedBIP size set = true)

theorem countP_constituencies (count size : Nat) (chosen : Nat → Bool) (place : Nat → Nat)
    (within : ∀ id, place id < size) (dedicated : Nat → Bool)
    (iff : ∀ id, ∀ offset < size,
      dedicated (id * size + offset) = (chosen id && decide (offset = place id))) :
    (range (count * size)).countP dedicated = (range count).countP chosen := by
  induction count with
  | zero => rw [zero_mul]; rfl
  | succ count hypothesis =>
    have one : (range size).countP (fun offset => dedicated (count * size + offset)) =
        if chosen count then 1 else 0 := by
      rw [countP_congr fun offset member =>
        by rw [iff count offset (mem_range.mp member)]]
      cases chosen count with
      | false => simp
      | true =>
        have found := nodup_range.count (a := place count) (l := range size)
        rw [if_pos (mem_range.mpr (within count))] at found
        exact found
    rw [Nat.succ_mul, range_add, countP_append, hypothesis, countP_map,
      range_succ, countP_append, countP_singleton]
    exact congrArg _ one

variable {size id offset : Nat}

theorem constituency_eq (id : Nat) (less : offset < size) :
    getConstituencyID size (id * size + offset) = id ∧
      getConstituencyOffset size (id * size + offset) = offset := by
  constructor
  · rw [getConstituencyID, mul_comm, Nat.mul_add_div (by omega), Nat.div_eq_of_lt less,
      add_zero]
  · rw [getConstituencyOffset, mul_comm, Nat.mul_add_mod, Nat.mod_eq_of_lt less]

theorem isDedicatedLRU_eq (id : Nat) (less : offset < size) :
    isDedicatedLRU size (id * size + offset) =
      (decide (id % 2 = 1) && decide (offset = id % size)) := by
  rw [isDedicatedLRU, (constituency_eq id less).1, (constituency_eq id less).2]
  rcases Nat.mod_two_eq_zero_or_one id with even | odd
  · simp [even]
  · simp [odd, eq_comm]

theorem not_dedicated_both (size set : Nat) :
    (isDedicatedLRU size set && isDedicatedBIP size set) = false := by
  grind [isDedicatedLRU, isDedicatedBIP]

theorem not_mod {exponent : Nat} (small : exponent < 32) (less : offset < 2 ^ exponent) :
    (~~~(BitVec.ofNat 32 offset)).toNat % 2 ^ exponent = 2 ^ exponent - 1 - offset := by
  have whole : 2 ^ exponent * 2 ^ (32 - exponent) = 2 ^ 32 := by
    rw [← Nat.pow_add, Nat.add_sub_cancel' small.le]
  have fewer : 2 ^ exponent ≤ 2 ^ 32 := Nat.pow_le_pow_right (by decide) small.le
  have parts : 2 ^ 32 - 1 - offset =
      2 ^ exponent - 1 - offset + 2 ^ exponent * (2 ^ (32 - exponent) - 1) := by
    rw [Nat.mul_sub, whole]
    omega
  rw [BitVec.toNat_not, BitVec.toNat_ofNat, Nat.mod_eq_of_lt (less.trans_le fewer), parts,
    Nat.add_mul_mod_self_left, Nat.mod_eq_of_lt (by omega)]

theorem isDedicatedBIP_eq {exponent : Nat} (small : exponent < 32) (id : Nat)
    (less : offset < 2 ^ exponent) :
    isDedicatedBIP (2 ^ exponent) (id * 2 ^ exponent + offset) =
      (decide (id % 2 = 0) && decide (offset = 2 ^ exponent - 1 - id % 2 ^ exponent)) := by
  have swapped : id % 2 ^ exponent = 2 ^ exponent - 1 - offset ↔
      offset = 2 ^ exponent - 1 - id % 2 ^ exponent := by omega
  rw [isDedicatedBIP, (constituency_eq id less).1, (constituency_eq id less).2, not_mod small less]
  rcases Nat.mod_two_eq_zero_or_one id with even | odd
  · simp [even, swapped]
  · simp [odd]

/-- Half of the constituencies are for each policy. -/
theorem countP_parity (count bit : Nat) (less : bit < 2) :
    (range (count * 2)).countP (fun id => decide (id % 2 = bit)) = count := by
  rw [countP_constituencies count 2 (fun _ => true) (fun _ => bit) (fun _ => less)]
  · simp
  · intro id offset small
    rw [mul_comm, Nat.mul_add_mod, Nat.mod_eq_of_lt small, Bool.true_and]

theorem countP_dedicated {exponent : Nat} (small : exponent < 32) (count : Nat) :
    (range (count * 2 * 2 ^ exponent)).countP (isDedicatedLRU (2 ^ exponent)) = count ∧
    (range (count * 2 * 2 ^ exponent)).countP (isDedicatedBIP (2 ^ exponent)) = count := by
  have positive := Nat.two_pow_pos exponent
  constructor
  · rw [countP_constituencies _ _ _ _ (fun id => Nat.mod_lt id positive) _ fun id offset less =>
      isDedicatedLRU_eq id less, countP_parity count 1 (by decide)]
  · rw [countP_constituencies _ _ _ _ (fun id => by omega) _ fun id offset less =>
      isDedicatedBIP_eq small id less, countP_parity count 0 (by decide)]

/-- The constructor ends as it should if and only if there are enough sets. -/
theorem constructor_right_iff {numSets ndsets exponent : Nat} (power : numSets = 2 ^ exponent)
    (small : exponent < 32) (positive : 1 ≤ ndsets) :
    (construct numSets ndsets).Right numSets ndsets ↔ 2 * ndsets ≤ numSets := by
  rw [construct]
  by_cases none : numSets / (ndsets * 2) = 0
  · rw [if_pos none]
    have few := (Nat.div_eq_zero_iff_lt (by omega)).mp none
    exact iff_of_false id (by omega)
  rw [if_neg none]
  have enough : 2 * ndsets ≤ numSets := by
    by_contra few
    exact none (Nat.div_eq_of_lt (by omega))
  refine iff_of_true ?_ enough
  split
  case isTrue accepted =>
    simp only [checkConstituency, Bool.and_eq_true, decide_eq_true_eq] at accepted
    refine ⟨by omega, by omega, fun set _ both => ?_⟩
    have apart := not_dedicated_both (numSets / (ndsets * 2)) set
    rw [both.1, both.2] at apart
    cases apart
  case isFalse refused =>
    refine .inl fun ⟨fewer, isPower⟩ => refused ?_
    have less : fewer + 1 ≤ exponent := by
      rw [power, isPower, ← Nat.pow_succ'] at enough
      exact (Nat.pow_le_pow_iff_right (by decide)).mp enough
    have size : numSets / (ndsets * 2) = 2 ^ (exponent - (fewer + 1)) := by
      rw [power, isPower, ← pow_succ, Nat.pow_div less (by decide)]
    have product : numSets = ndsets * 2 * 2 ^ (exponent - (fewer + 1)) := by
      rw [power, isPower, ← pow_succ, ← Nat.pow_add, Nat.add_sub_cancel' less]
    obtain ⟨lru, bip⟩ := countP_dedicated (by omega : exponent - (fewer + 1) < 32) ndsets
    simp only [checkConstituency, Bool.and_eq_true, decide_eq_true_eq, size]
    rw [product, lru, bip]
    refine ⟨⟨?_, rfl⟩, by omega⟩
    rw [all_eq_true]
    exact fun set _ => by rw [not_dedicated_both]; rfl

theorem constructor_right_eight : (construct 8 2).Right 8 2 :=
  (constructor_right_iff (show 8 = 2 ^ 3 from rfl) (by decide) (by decide)).mpr (by decide)

/-- With eight dedicated sets of four, a constituency has no set. -/
theorem divides_by_zero : construct 4 4 = .divisionByZero := rfl

end Gem5.Mem.Dip
