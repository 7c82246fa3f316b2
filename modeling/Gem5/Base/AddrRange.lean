/-
This file models the address ranges (`base/addr_range.hh`): the bounds, the
interleaving bits and the bits that are XORed with them, with the tests the maps
of ranges are built on. The addresses and the fields have the widths of the
source, so the arithmetic wraps around as it does there.
-/

import Mathlib.Data.Nat.Bitwise

namespace Gem5.Base

open List

abbrev Addr := BitVec 64

/-- `mask(nbits)`: that many ones, right justified. -/
def mask (nbits : Int) : Addr :=
  if nbits = 64 then BitVec.allOnes 64 else ((1 : Addr) <<< nbits.toNat) - 1

/-- `bits(val, first, last)`: the bits from `first` down to `last`, right justified. -/
def bits (val : Addr) (first last : Int) : Addr :=
  let nbits := first - last + 1
  (val >>> last.toNat) &&& mask nbits

structure AddrRange where
  _start : Addr
  _end : Addr
  intlvHighBit : BitVec 8
  xorHighBit : BitVec 8
  intlvBits : BitVec 8
  intlvMatch : BitVec 8
deriving DecidableEq, Repr

/-- The errors of the ranges and of the maps of ranges: the panic of `intersects`, with the two
ranges its message prints, and the use of an iterator that is past the end. -/
inductive RangeFault where
  | cannotTestIntersection (range other : AddrRange)
  | badIterator
deriving DecidableEq, Repr

namespace AddrRange

/-- `AddrRange(_start, _end)`, which is also `RangeIn`. -/
def create (_start _end : Addr) : AddrRange :=
  { _start, _end, intlvHighBit := 0, xorHighBit := 0, intlvBits := 0, intlvMatch := 0 }

/-- `RangeSize(start, size)`. -/
def rangeSize (start size : Addr) : AddrRange := create start (start + size - 1)

def interleaved (range : AddrRange) : Bool := range.intlvBits != 0

def hashed (range : AddrRange) : Bool := range.interleaved && range.xorHighBit != 0

def size (range : AddrRange) : Addr :=
  (range._end - range._start + 1) >>> range.intlvBits.toNat

def valid (range : AddrRange) : Bool := range._start ≤ range._end

def mergesWith (range r : AddrRange) : Bool :=
  r._start == range._start && r._end == range._end && r.intlvHighBit == range.intlvHighBit &&
    r.xorHighBit == range.xorHighBit && r.intlvBits == range.intlvBits

def slice (range : AddrRange) (a : Addr) (highBit : BitVec 8) : Addr :=
  bits a highBit.toNat ((highBit.toNat : Int) - range.intlvBits.toNat + 1)

def contains (range : AddrRange) (a : Addr) : Bool :=
  let inRange := range._start ≤ a ∧ a ≤ range._end
  if !range.interleaved then inRange
  else if inRange then
    if !range.hashed then range.slice a range.intlvHighBit == range.intlvMatch.setWidth 64
    else range.slice a range.intlvHighBit ^^^ range.slice a range.xorHighBit ==
      range.intlvMatch.setWidth 64
  else false

def intersects (range r : AddrRange) : Except RangeFault Bool :=
  if r._end < range._start ∨ range._end < r._start then .ok false
  else if !range.interleaved && !r.interleaved then .ok true
  else if r.size = 1 then .ok (range.contains r._start)
  else if range.mergesWith r then .ok (range.intlvMatch == r.intlvMatch)
  else .error (.cannotTestIntersection range r)

/-- The operator `<` that orders the maps of ranges. -/
def less (range r : AddrRange) : Prop :=
  if range._start ≠ r._start then range._start < r._start else range.intlvMatch < r.intlvMatch
deriving Decidable

/-! ### The order -/

variable {range r merged : AddrRange} {ranges : List AddrRange}

theorem less_iff : range.less r ↔
    range._start < r._start ∨ range._start = r._start ∧ range.intlvMatch < r.intlvMatch := by
  unfold less
  split
  · rename_i different
    simp [different]
  · rename_i same
    rw [not_ne_iff] at same
    simp [same]

theorem le_of_less (before : range.less r) : range._start ≤ r._start := by
  rw [less_iff] at before
  bv_omega

theorem le_of_not_less (unordered : ¬ range.less r) : r._start ≤ range._start := by
  rw [less_iff] at unordered
  bv_omega

instance : IsTrans AddrRange less where
  trans first second third before after := by
    rw [less_iff] at before after ⊢
    bv_omega

/-! ### Bits -/

theorem mask_toNat_lt (nbits : Int) : (mask nbits).toNat < 2 ^ nbits.toNat := by
  by_cases narrow : nbits.toNat < 64
  · have fits : 2 ^ nbits.toNat < 2 ^ 64 := Nat.pow_lt_pow_right (by decide) narrow
    have positive : 0 < 2 ^ nbits.toNat := Nat.two_pow_pos _
    rw [mask, if_neg (by omega)]
    bv_omega
  · exact (mask nbits).isLt.trans_le (Nat.pow_le_pow_right (by decide) (not_lt.mp narrow))

theorem slice_lt (range : AddrRange) (a : Addr) (highBit : BitVec 8) :
    (range.slice a highBit).toNat < 2 ^ range.intlvBits.toNat := by
  have width : ((highBit.toNat : Int) -
      ((highBit.toNat : Int) - range.intlvBits.toNat + 1) + 1).toNat = range.intlvBits.toNat := by
    omega
  rw [slice, bits, BitVec.toNat_and]
  refine Nat.and_le_right.trans_lt ?_
  exact (mask_toNat_lt _).trans_eq (congrArg (2 ^ ·) width)

/-- The value the interleaved ranges match: the slice of the address, XORed with the other slice
if the range is hashed. -/
def stripe (range : AddrRange) (a : Addr) : Addr :=
  if range.hashed then range.slice a range.intlvHighBit ^^^ range.slice a range.xorHighBit
  else range.slice a range.intlvHighBit

theorem stripe_lt (range : AddrRange) (a : Addr) :
    (range.stripe a).toNat < 2 ^ range.intlvBits.toNat := by
  unfold stripe
  split
  · rw [BitVec.toNat_xor]
    exact Nat.xor_lt_two_pow (slice_lt ..) (slice_lt ..)
  · exact slice_lt ..

/-! ### Membership -/

theorem contains_iff {a : Addr} : range.contains a = true ↔
    (range._start ≤ a ∧ a ≤ range._end) ∧
      (range.interleaved = true → range.stripe a = range.intlvMatch.setWidth 64) := by
  unfold contains stripe
  cases range.interleaved <;> cases range.hashed <;> simp

theorem mergesWith_iff : range.mergesWith r = true ↔
    r._start = range._start ∧ r._end = range._end ∧ r.intlvHighBit = range.intlvHighBit ∧
      r.xorHighBit = range.xorHighBit ∧ r.intlvBits = range.intlvBits := by
  simp [mergesWith, and_assoc]

theorem mergesWith_refl (range : AddrRange) : range.mergesWith range = true := by
  simp [mergesWith_iff]

theorem mergesWith_symm (merges : range.mergesWith r = true) : r.mergesWith range = true := by
  obtain ⟨start, finish, highBit, xorHighBit, intlvBits⟩ := mergesWith_iff.mp merges
  exact mergesWith_iff.mpr
    ⟨start.symm, finish.symm, highBit.symm, xorHighBit.symm, intlvBits.symm⟩

theorem mergesWith_trans {other : AddrRange} (first : range.mergesWith r = true)
    (second : r.mergesWith other = true) : range.mergesWith other = true := by
  obtain ⟨start, finish, highBit, xorHighBit, intlvBits⟩ := mergesWith_iff.mp first
  obtain ⟨start', finish', highBit', xorHighBit', intlvBits'⟩ := mergesWith_iff.mp second
  exact mergesWith_iff.mpr ⟨start'.trans start, finish'.trans finish, highBit'.trans highBit,
    xorHighBit'.trans xorHighBit, intlvBits'.trans intlvBits⟩

theorem interleaved_congr (merges : range.mergesWith r = true) :
    r.interleaved = range.interleaved := by
  rw [interleaved, interleaved, (mergesWith_iff.mp merges).2.2.2.2]

theorem stripe_congr (merges : range.mergesWith r = true) (a : Addr) :
    r.stripe a = range.stripe a := by
  obtain ⟨_, _, highBit, xorHighBit, intlvBits⟩ := mergesWith_iff.mp merges
  simp only [stripe, slice, hashed, interleaved, highBit, xorHighBit, intlvBits]
  rfl

theorem intersects_point (range : AddrRange) (a : Addr) :
    range.intersects (rangeSize a 1) = .ok (range.contains a) := by
  have point : rangeSize a 1 = create a a := by
    rw [rangeSize, BitVec.add_sub_cancel]
  have single : (create a a).size = 1 := by
    simp [size, create]
  rw [point, intersects, if_pos single]
  split
  · rename_i outside
    have apart : ¬ (range._start ≤ a ∧ a ≤ range._end) := by
      simp only [create] at outside
      bv_omega
    have without : range.contains a = false := by
      rw [Bool.eq_false_iff, ne_eq, contains_iff]
      exact fun inside => apart inside.1
    rw [without]
  · rename_i inside
    split
    · rename_i plain
      have within : range.contains a = true := by
        simp only [create] at inside
        simp only [Bool.and_eq_true, Bool.not_eq_true'] at plain
        rw [contains_iff, plain.1]
        exact ⟨by bv_omega, nofun⟩
      rw [within]
    · rfl

/-- The two ranges have an address in common. -/
def Shares (range r : AddrRange) : Prop := ∃ a, range.contains a = true ∧ r.contains a = true

theorem Shares.symm (shares : range.Shares r) : r.Shares range := by
  obtain ⟨a, inRange, inOther⟩ := shares
  exact ⟨a, inOther, inRange⟩

theorem not_shares_of_mergesWith (interleaved : range.interleaved = true)
    (merges : range.mergesWith r = true) (different : range.intlvMatch ≠ r.intlvMatch) :
    ¬ range.Shares r := by
  rintro ⟨_, inRange, inOther⟩
  have matched := (contains_iff.mp inRange).2 interleaved
  have otherMatched := (contains_iff.mp inOther).2 ((interleaved_congr merges).trans interleaved)
  rw [stripe_congr merges, matched] at otherMatched
  bv_omega

structure Plain (range : AddrRange) : Prop where
  valid : range.valid = true
  plain : range.interleaved = false

instance (range : AddrRange) : Decidable range.Plain :=
  decidable_of_iff (range.valid = true ∧ range.interleaved = false)
    ⟨fun both => ⟨both.1, both.2⟩, fun plain => ⟨plain.valid, plain.plain⟩⟩

theorem Plain.shares_iff (plain : range.Plain) (other : r.Plain) :
    range.Shares r ↔ range._start ≤ r._end ∧ r._start ≤ range._end := by
  have members {range : AddrRange} (plain : range.Plain) (a : Addr) :
      range.contains a = true ↔ range._start ≤ a ∧ a ≤ range._end := by
    simp [contains_iff, plain.plain]
  have ordered : range._start ≤ range._end := of_decide_eq_true plain.valid
  have otherOrdered : r._start ≤ r._end := of_decide_eq_true other.valid
  constructor
  · rintro ⟨_, inRange, inOther⟩
    rw [members plain] at inRange
    rw [members other] at inOther
    bv_omega
  · rintro ⟨_, above⟩
    by_cases later : range._start ≤ r._start
    · exact ⟨r._start, (members plain _).mpr ⟨later, above⟩, (members other _).mpr (by bv_omega)⟩
    · exact ⟨range._start, (members plain _).mpr (by bv_omega), (members other _).mpr (by bv_omega)⟩

theorem Plain.intersects (plain : range.Plain) (other : r.Plain) :
    ∃ answer, range.intersects r = .ok answer ∧ (answer = true ↔ range.Shares r) := by
  rw [plain.shares_iff other, AddrRange.intersects]
  split
  · exact ⟨false, rfl, by simp only [Bool.false_eq_true, false_iff]; bv_omega⟩
  · rw [plain.plain, other.plain]
    exact ⟨true, rfl, by simp only [true_iff]; bv_omega⟩

/-! ### Merging -/

/-- The fatal errors of the merging constructor, with the values their messages print. -/
inductive MergeFault where
  | wrongNumber (got : Nat) (intlvBits : BitVec 8)
  | differentRanges
  | wrongMatch (expected got : BitVec 8)
deriving DecidableEq, Repr

/-- The loop of the merging constructor, with its counter of eight bits. -/
def checkMatches (merged : AddrRange) : BitVec 8 → List AddrRange → Except MergeFault Unit
  | _, [] => .ok ()
  | expected, r :: ranges =>
    if !merged.mergesWith r then .error .differentRanges
    else if r.intlvMatch ≠ expected then .error (.wrongMatch expected r.intlvMatch)
    else checkMatches merged (expected + 1) ranges

/-- `AddrRange(ranges)`: the range that a complete group of interleaved ranges makes up. -/
def merge : List AddrRange → Except MergeFault AddrRange
  | [] => .ok (create 1 0)
  | front :: ranges =>
    let merged := { front with intlvMatch := 0 }
    if (front :: ranges).length ≠ ((1 : Addr) <<< merged.intlvBits.toNat).toNat then
      .error (.wrongNumber (front :: ranges).length merged.intlvBits)
    else do
      checkMatches merged 0 (front :: ranges)
      return { merged with intlvHighBit := 0, xorHighBit := 0, intlvBits := 0 }

theorem checkMatches_ok {expected : BitVec 8}
    (accepted : checkMatches merged expected ranges = .ok ()) :
    (∀ r ∈ ranges, merged.mergesWith r = true) ∧
      ranges.map intlvMatch =
        (List.range ranges.length).map (fun index => expected + BitVec.ofNat 8 index) := by
  induction ranges generalizing expected with
  | nil => simp
  | cons _ _ hypothesis =>
    unfold checkMatches at accepted
    split at accepted
    · cases accepted
    · rename_i merges
      rw [Bool.not_eq_true, Bool.not_eq_false'] at merges
      split at accepted
      · cases accepted
      · rename_i matched
        rw [not_not] at matched
        obtain ⟨others, values⟩ := hypothesis accepted
        refine ⟨forall_mem_cons.mpr ⟨merges, others⟩, ?_⟩
        rw [length_cons, range_succ_eq_map, map_cons, map_cons, map_map, values, matched]
        refine congrArg₂ cons (by simp) (map_congr_left fun index _ => ?_)
        simp only [Function.comp_apply]
        rw [Nat.succ_eq_add_one, ← BitVec.ofNat_add_ofNat]
        bv_omega

theorem countP_matches {value : Addr} {number : Nat} (below : value.toNat < number)
    (fits : number ≤ 2 ^ 8) :
    ((List.range number).map (BitVec.ofNat 8)).countP
      (fun intlvMatch => value == intlvMatch.setWidth 64) = 1 := by
  have once : (range number).count value.toNat = 1 :=
    (nodup_range.count).trans (if_pos (mem_range.mpr below))
  rw [countP_map, ← once, count]
  refine countP_congr fun index inside => ?_
  have small : index < number := mem_range.mp inside
  simp only [Function.comp_apply, beq_iff_eq]
  constructor
  · intro same
    rw [same, BitVec.toNat_setWidth, BitVec.toNat_ofNat]
    omega
  · rintro rfl
    apply BitVec.eq_of_toNat_eq
    rw [BitVec.toNat_setWidth, BitVec.toNat_ofNat]
    omega

/-- The ranges that merge with one another split its addresses: an address between the bounds is
in as many of them as there are match values equal to its stripe. -/
theorem countP_contains
    (merges : ∀ r ∈ ranges, merged.mergesWith r = true) (interleaved : merged.interleaved = true)
    {a : Addr} (inside : merged._start ≤ a ∧ a ≤ merged._end) :
    ranges.countP (·.contains a) = (ranges.map intlvMatch).countP
      (fun intlvMatch => merged.stripe a == intlvMatch.setWidth 64) := by
  rw [countP_map]
  refine countP_congr fun r listed => ?_
  obtain ⟨start, finish, _⟩ := mergesWith_iff.mp (merges r listed)
  rw [contains_iff, start, finish, interleaved_congr (merges r listed),
    stripe_congr (merges r listed)]
  simp [inside, interleaved]

/-- What the merging constructor accepts: as many ranges as there are match values, all with the
fields of the first one, and in the order of their match values. -/
theorem merge_cons_ok {front : AddrRange} (accepted : merge (front :: ranges) = .ok merged) :
    (front :: ranges).length = ((1 : Addr) <<< front.intlvBits.toNat).toNat ∧
      (∀ r ∈ front :: ranges, front.mergesWith r = true) ∧
      (front :: ranges).map intlvMatch =
        (List.range (front :: ranges).length).map (BitVec.ofNat 8) ∧
      merged = create front._start front._end := by
  rw [merge] at accepted
  split at accepted
  · cases accepted
  · rename_i number
    cases checked : checkMatches { front with intlvMatch := 0 } 0 (front :: ranges) with
    | error =>
      rw [checked] at accepted
      cases accepted
    | ok =>
      rw [checked] at accepted
      cases accepted
      obtain ⟨merges, values⟩ := checkMatches_ok checked
      refine ⟨not_not.mp number, merges, values.trans ?_, rfl⟩
      exact map_congr_left fun index _ => BitVec.zero_add _

/-- A merged range has the addresses that are in exactly one of the ranges it was made from,
wherever the bits of the slices lie, while there are no more of them than the bits of a match. -/
theorem merge_contains_iff {ranges : List AddrRange} {merged : AddrRange}
    (accepted : merge ranges = .ok merged) (fits : ∀ r ∈ ranges, r.intlvBits ≤ 8) (a : Addr) :
    merged.contains a = true ↔ ranges.countP (·.contains a) = 1 := by
  cases ranges with
  | nil =>
    cases accepted
    simp only [contains_iff, create, countP_nil]
    bv_omega
  | cons front ranges =>
    obtain ⟨number, merges, values, rfl⟩ := merge_cons_ok accepted
    have few : front.intlvBits.toNat ≤ 8 := fits front mem_cons_self
    have fitting : 2 ^ front.intlvBits.toNat ≤ 2 ^ 8 := Nat.pow_le_pow_right (by decide) few
    have power : ((1 : Addr) <<< front.intlvBits.toNat).toNat = 2 ^ front.intlvBits.toNat := by
      exact (congrArg (· % 2 ^ 64) (Nat.one_shiftLeft _)).trans (Nat.mod_eq_of_lt (by omega))
    rw [power] at number
    have plain : (create front._start front._end).contains a = true ↔
        front._start ≤ a ∧ a ≤ front._end := by
      simp [contains_iff, create, interleaved]
    rw [plain]
    by_cases inside : front._start ≤ a ∧ a ≤ front._end
    · refine iff_of_true inside ?_
      cases interleaved : front.interleaved with
      | true =>
        rw [countP_contains merges interleaved inside, values, number]
        exact countP_matches (front.stripe_lt a) fitting
      | false =>
        have single : ranges = [] := by
          have none : front.intlvBits = 0 := by simpa [AddrRange.interleaved] using interleaved
          simpa [none] using number
        have within : front.contains a = true :=
          contains_iff.mpr ⟨inside, by simp [interleaved]⟩
        simp [single, within]
    · have outside : (front :: ranges).countP (·.contains a) = 0 := by
        refine countP_eq_zero.mpr fun r listed contained => inside ?_
        obtain ⟨start, finish, _⟩ := mergesWith_iff.mp (merges r listed)
        rw [← start, ← finish]
        exact (contains_iff.mp contained).1
      simp [inside, outside]

/-- Two ranges that are hashed at the bits twelve and twenty. -/
theorem merge_contains_iff_hashed :
    ∃ merged : AddrRange,
      merge [⟨0, 0xFFFFFFFF, 12, 20, 1, 0⟩, ⟨0, 0xFFFFFFFF, 12, 20, 1, 1⟩] = .ok merged ∧
      (merged.contains 0x1000 = true ↔
        [(⟨0, 0xFFFFFFFF, 12, 20, 1, 0⟩ : AddrRange), ⟨0, 0xFFFFFFFF, 12, 20, 1, 1⟩].countP
          (·.contains 0x1000) = 1) :=
  ⟨create 0 0xFFFFFFFF, by decide, merge_contains_iff (by decide) (by decide) _⟩

end AddrRange

end Gem5.Base
