/-
This file is about the decoding of single addresses by the maps of ranges, with
the interleaved groups. In a map whose entries have no address in common and
whose interleaved entries form complete groups, the search reaches the entry of
an address by walking back through its group. The exception is the start of a
range: the entry found first is then the one with match value zero, and the
walk goes away from the others.
-/

import Gem5.Base.AddrRangeMap
import Mathlib

namespace Gem5.Base.AddrRangeMap

open Library List OrderedMap AddrRange

variable {Value : Type} {tree : AddrRangeMap Value} {a : Addr}

/-- The entries are valid ranges, the interleaved ones are in groups with an entry for each match
value, and no two entries have an address in common. -/
structure Complete (tree : AddrRangeMap Value) : Prop where
  valid : ∀ range ∈ tree.keys, range.valid = true
  groups : ∀ range ∈ tree.keys, range.interleaved = true → ∀ value < 2 ^ range.intlvBits.toNat,
    ∃ member ∈ tree.keys, member.mergesWith range = true ∧ member.intlvMatch.toNat = value
  apart : tree.Apart

/-- The position is that of the only entry that contains the address, or past the end if none
does. -/
def Answers (tree : AddrRangeMap Value) (a : Addr) (i : Nat) : Prop :=
  i ≤ tree.size ∧ ∀ position range, tree.key? position = some range →
    (range.contains a = true ↔ position = i)

/-- The address is the start of the entry that contains it, and this entry has a match value other
than zero and is not the first one. -/
def Hidden (tree : AddrRangeMap Value) (a : Addr) : Prop :=
  ∃ range ∈ tree.keys, range.contains a = true ∧ range._start = a ∧ range.intlvMatch ≠ 0 ∧
    ∃ other ∈ tree.keys, other.less range
deriving Decidable

/-! ### Groups -/

namespace Complete

variable (complete : tree.Complete)
include complete

theorem unique {left right : Nat} {range other : AddrRange}
    (leftKey : tree.key? left = some range) (rightKey : tree.key? right = some other)
    (inRange : range.contains a = true) (inOther : other.contains a = true) : left = right := by
  rcases lt_trichotomy left right with lower | same | upper
  · exact absurd ⟨a, inRange, inOther⟩ (related_of_lt
      (fun range r : AddrRange => ¬ range.Shares r) complete.apart lower leftKey rightKey)
  · exact same
  · exact absurd ⟨a, inOther, inRange⟩ (related_of_lt
      (fun range r : AddrRange => ¬ range.Shares r) complete.apart upper rightKey leftKey)

/-- An address between the bounds of an entry is in an entry of its group. -/
theorem covers {range : AddrRange} (stored : range ∈ tree.keys) (lower : range._start ≤ a)
    (upper : a ≤ range._end) :
    ∃ member ∈ tree.keys, member.mergesWith range = true ∧ member.contains a = true := by
  cases interleaved : range.interleaved with
  | false =>
    refine ⟨range, stored, range.mergesWith_refl, contains_iff.mpr ⟨⟨lower, upper⟩, ?_⟩⟩
    rw [interleaved]
    exact nofun
  | true =>
    obtain ⟨member, memberStored, merges, matched⟩ :=
      complete.groups range stored interleaved _ (range.stripe_lt a)
    obtain ⟨start, finish, _⟩ := mergesWith_iff.mp merges
    refine ⟨member, memberStored, merges, contains_iff.mpr ⟨⟨?_, ?_⟩, fun _ => ?_⟩⟩
    · rwa [← start]
    · rwa [← finish]
    · rw [← stripe_congr merges]
      apply BitVec.eq_of_toNat_eq
      rw [BitVec.toNat_setWidth, matched, Nat.mod_eq_of_lt (BitVec.isLt _)]

/-- An entry that starts between the bounds of another is in its group. -/
theorem merges {range other : AddrRange} (stored : range ∈ tree.keys)
    (otherStored : other ∈ tree.keys) (lower : range._start ≤ other._start)
    (upper : other._start ≤ range._end) : other.mergesWith range = true := by
  have ordered : other._start ≤ other._end := of_decide_eq_true (complete.valid other otherStored)
  obtain ⟨_, memberStored, memberMerges, inMember⟩ := complete.covers stored lower upper
  obtain ⟨_, secondStored, secondMerges, inSecond⟩ :=
    complete.covers otherStored (BitVec.le_refl _) ordered
  obtain ⟨_, leftKey⟩ := mem_keys_iff.mp memberStored
  obtain ⟨_, rightKey⟩ := mem_keys_iff.mp secondStored
  have same := complete.unique leftKey rightKey inMember inSecond
  rw [same, rightKey] at leftKey
  cases leftKey
  exact mergesWith_trans (mergesWith_symm secondMerges) memberMerges

end Complete

/-! ### The walk -/

variable {range : AddrRange} {position : Nat}

theorem point_less_iff : (AddrRange.rangeSize a 1).less range ↔
    a < range._start ∨ a = range._start ∧ range.intlvMatch ≠ 0 := by
  rw [less_iff]
  simp only [AddrRange.rangeSize, AddrRange.create]
  bv_omega

theorem walk_returns {origRange target : AddrRange}
    (found : tree.key? position = some target) (inside : target.contains a = true) (i : Nat)
    (further : position < i) (below : i < tree.size)
    (group : ∀ between range, position < between → between ≤ i → tree.key? between = some range →
      range.mergesWith origRange = true ∧ range.contains a = false) :
    tree.walk (.rangeSize a 1) origRange i = .ok (.returns position) := by
  induction i with
  | zero => exact absurd further (Nat.not_lt_zero _)
  | succ i hypothesis =>
    obtain ⟨range, here⟩ := exists_key? below
    obtain ⟨next, previous⟩ := exists_key? (Nat.lt_of_succ_lt below)
    have merges := (group (i + 1) range further le_rfl here).1
    rw [walk, first_eq here, ok_bind, if_pos merges, first_eq previous, ok_bind,
      intersects_point, ok_bind]
    rcases (Nat.le_of_lt_succ further).eq_or_lt with rfl | later
    · rw [found] at previous
      cases previous
      rw [if_pos inside]
      rfl
    · rw [(group i next later (Nat.le_succ i) previous).2]
      exact hypothesis later (Nat.lt_of_succ_lt below) fun between range above upTo =>
        group between range above (Nat.le_succ_of_le upTo)

theorem walk_stops (origRange : AddrRange) (i : Nat) (below : i < tree.size)
    (outside : ∀ position range, position ≤ i → tree.key? position = some range →
      range.contains a = false) :
    ∃ j ≤ i, tree.walk (.rangeSize a 1) origRange i = .ok (.stops j) := by
  induction i with
  | zero => exact ⟨0, le_rfl, rfl⟩
  | succ i hypothesis =>
    obtain ⟨range, here⟩ := exists_key? below
    obtain ⟨next, previous⟩ := exists_key? (Nat.lt_of_succ_lt below)
    rw [walk, first_eq here, ok_bind]
    split
    · rw [first_eq previous, ok_bind, intersects_point, ok_bind,
        outside i next (Nat.le_succ i) previous]
      obtain ⟨j, upTo, stopped⟩ := hypothesis (Nat.lt_of_succ_lt below)
        fun position range upTo => outside position range (Nat.le_succ_of_le upTo)
      exact ⟨j, Nat.le_succ_of_le upTo, stopped⟩
    · exact ⟨i + 1, le_rfl, rfl⟩

/-! ### The search -/

theorem findAddr_none
    (outside : ∀ position range, position ≤ tree.upperBound (.rangeSize a 1) - 1 →
      tree.key? position = some range → range.contains a = false) :
    tree.findAddr a = .ok tree.size := by
  by_cases nonempty : tree.size = 0
  · rw [findAddr, find, if_pos nonempty]
    rfl
  · have below : tree.upperBound (.rangeSize a 1) - 1 < tree.size := by
      have := tree.upperBound_le_size (.rangeSize a 1)
      omega
    obtain ⟨looked, here⟩ := exists_key? below
    have missed := outside _ looked le_rfl here
    rw [findAddr, find, if_neg nonempty]
    by_cases begins : tree.upperBound (.rangeSize a 1) = 0
    · rw [begins] at here
      rw [if_pos begins, first_eq here, ok_bind, intersects_point, ok_bind, missed]
      rfl
    · simp only [if_neg begins, first_eq here, ok_bind, intersects_point, missed]
      cases looked.interleaved with
      | false => rfl
      | true =>
        obtain ⟨j, upTo, stopped⟩ := walk_stops looked _ below outside
        obtain ⟨last, there⟩ := exists_key? (upTo.trans_lt below)
        simp only [stopped, ok_bind, first_eq there, outside j last upTo there]
        rfl

section

variable (complete : tree.Complete) (here : tree.key? position = some range)
  (inside : range.contains a = true)
include complete here inside

theorem Complete.findAddr_some (below : position < tree.upperBound (.rangeSize a 1)) :
    tree.findAddr a = .ok position := by
  have inRange := (contains_iff.mp inside).1
  have stored := mem_keys_iff.mpr ⟨_, here⟩
  have size := tree.upperBound_le_size (.rangeSize a 1)
  have group (between : Nat) (other : AddrRange) (later : position < between)
      (upTo : between ≤ tree.upperBound (.rangeSize a 1) - 1)
      (found : tree.key? between = some other) :
      other.mergesWith range = true ∧ other.contains a = false := by
    have lower := le_of_less (less_of_lt later here found)
    have unpassed : ¬ (AddrRange.rangeSize a 1).less other :=
      not_less_of_lt_upperBound (by omega) found
    have upper : other._start ≤ a := le_of_not_less unpassed
    refine ⟨complete.merges stored (mem_keys_iff.mpr ⟨_, found⟩) lower (by bv_omega),
      Bool.eq_false_iff.mpr fun inOther => ?_⟩
    exact later.ne (complete.unique here found inside inOther)
  obtain ⟨looked, there⟩ := exists_key?
    (show tree.upperBound (.rangeSize a 1) - 1 < tree.size by omega)
  rw [findAddr, find, if_neg (by omega)]
  simp only [if_neg (show tree.upperBound (.rangeSize a 1) ≠ 0 by omega), first_eq there, ok_bind,
    intersects_point]
  rcases (Nat.le_sub_one_of_lt below).eq_or_lt with same | further
  · rw [← same, here] at there
    cases there
    simp only [inside, if_true, same]
    rfl
  · obtain ⟨merges, missed⟩ := group _ looked further le_rfl there
    have interleaved : looked.interleaved = true := by
      by_contra plain
      rw [Bool.not_eq_true] at plain
      obtain ⟨start, finish, _⟩ := mergesWith_iff.mp merges
      have contains : looked.contains a = true := by
        rw [contains_iff, ← start, ← finish, plain]
        exact ⟨inRange, by simp⟩
      cases missed.symm.trans contains
    have walked := walk_returns here inside _ further (by omega)
      fun between other later upTo found =>
      ⟨mergesWith_trans (group between other later upTo found).1
        (mergesWith_symm merges), (group between other later upTo found).2⟩
    simp only [missed, interleaved, walked, ok_bind]
    rfl

theorem Complete.first_of_begins (begins : tree.upperBound (.rangeSize a 1) = 0) :
    position = 0 := by
  have after {place : Nat} {other : AddrRange} (found : tree.key? place = some other) :
      a < other._start ∨ a = other._start ∧ other.intlvMatch ≠ 0 :=
    point_less_iff.mp (less_of_upperBound_le (begins ▸ Nat.zero_le _) found)
  have stored := mem_keys_iff.mpr ⟨_, here⟩
  have inRange := (contains_iff.mp inside).1
  have plain : range.interleaved = false := by
    by_contra interleaved
    rw [Bool.not_eq_false] at interleaved
    obtain ⟨_, memberStored, merges, _⟩ :=
      complete.groups range stored interleaved 0 (Nat.two_pow_pos _)
    obtain ⟨_, found⟩ := mem_keys_iff.mp memberStored
    have start := (mergesWith_iff.mp merges).1
    have memberAfter := after found
    bv_omega
  obtain ⟨_, found⟩ := exists_key?
    ((Nat.zero_le _).trans_lt (key?_lt_size here))
  rcases Nat.eq_zero_or_pos position with same | later
  · exact same
  · have before := le_of_less (less_of_lt later found here)
    have firstAfter := after found
    have merges := complete.merges stored (mem_keys_iff.mpr ⟨_, found⟩)
      (by bv_omega) (by bv_omega)
    obtain ⟨start, finish, _⟩ := mergesWith_iff.mp merges
    have firstPlain := (interleaved_congr merges).symm.trans plain
    refine complete.unique here found inside (contains_iff.mpr ?_)
    rw [← start, ← finish, firstPlain]
    exact ⟨inRange, by simp⟩

/-- The entry of an address is hidden if it sorts after the address and another entry does not. -/
theorem Complete.hidden_iff :
    tree.Hidden a ↔ 0 < tree.upperBound (.rangeSize a 1) ∧
      tree.upperBound (.rangeSize a 1) ≤ position := by
  constructor
  · rintro ⟨_, stored, inSame, start, nonzero, _, otherStored, before⟩
    obtain ⟨_, found⟩ := mem_keys_iff.mp stored
    cases complete.unique found here inSame inside
    cases here.symm.trans found
    obtain ⟨otherPlace, otherFound⟩ := mem_keys_iff.mp otherStored
    have later : otherPlace < position := by
      rcases lt_trichotomy otherPlace position with lower | rfl | upper
      · exact lower
      · cases found.symm.trans otherFound
        rw [less_iff] at before
        bv_omega
      · have reversed := less_of_lt upper found otherFound
        rw [less_iff] at before reversed
        bv_omega
    constructor
    · refine Nat.pos_of_ne_zero fun begins => ?_
      have first := complete.first_of_begins found inside begins
      omega
    · refine not_lt.mp fun below => not_less_of_lt_upperBound below found ?_
      exact point_less_iff.mpr (.inr ⟨start.symm, nonzero⟩)
  · rintro ⟨positive, above⟩
    have after := point_less_iff.mp (less_of_upperBound_le above here)
    have inRange := (contains_iff.mp inside).1
    obtain ⟨first, found⟩ := exists_key?
      ((Nat.zero_le _).trans_lt (key?_lt_size here))
    refine ⟨range, mem_keys_iff.mpr ⟨_, here⟩, inside, by bv_omega, by bv_omega, first,
      mem_keys_iff.mpr ⟨_, found⟩, ?_⟩
    exact less_of_lt (positive.trans_le above) found here

end

/-- For every address `find` returns a position, and it is that of the only entry that contains
the address, or past the end if there is none, exactly if the entry is not hidden. -/
theorem findAddr_answers_iff (tree : AddrRangeMap Value) (complete : tree.Complete) (a : Addr) :
    ∃ i, tree.findAddr a = .ok i ∧ (tree.Answers a i ↔ ¬ tree.Hidden a) := by
  by_cases held : ∃ position range, tree.key? position = some range ∧ range.contains a = true
  · obtain ⟨position, range, here, inside⟩ := held
    have inTree := key?_lt_size here
    have answers : tree.Answers a position := by
      refine ⟨inTree.le, fun place other found =>
        ⟨fun inOther => complete.unique found here inOther inside, ?_⟩⟩
      rintro rfl
      rw [here] at found
      cases found
      exact inside
    rw [complete.hidden_iff here inside]
    by_cases below : position < tree.upperBound (.rangeSize a 1)
    · refine ⟨position, complete.findAddr_some here inside below, ?_⟩
      simp only [answers, true_iff]
      omega
    · rcases Nat.eq_zero_or_pos (tree.upperBound (.rangeSize a 1)) with begins | positive
      · cases complete.first_of_begins here inside begins
        refine ⟨0, ?_, by simp only [answers, begins, lt_irrefl, false_and, not_false_eq_true]⟩
        rw [findAddr, find, if_neg (by omega), if_pos begins, first_eq here, ok_bind,
          intersects_point, ok_bind, inside]
        rfl
      · refine ⟨tree.size, findAddr_none fun place other upTo found => ?_, ?_⟩
        · refine Bool.eq_false_iff.mpr fun inOther => ?_
          have same := complete.unique found here inOther inside
          omega
        · have wrong : ¬ tree.Answers a tree.size := fun claimed =>
            inTree.ne ((claimed.2 position range here).mp inside)
          simp only [wrong, false_iff, not_not]
          omega
  · have outside (position : Nat) (range : AddrRange) (found : tree.key? position = some range) :
        range.contains a = false :=
      Bool.eq_false_iff.mpr fun inside => held ⟨position, range, found, inside⟩
    refine ⟨tree.size, findAddr_none fun position range _ => outside position range, ?_⟩
    have answers : tree.Answers a tree.size := by
      refine ⟨le_rfl, fun position range found => ?_⟩
      simp only [outside position range found, Bool.false_eq_true,
        (key?_lt_size found).ne]
    have shown : ¬ tree.Hidden a := by
      rintro ⟨range, stored, inside, _⟩
      obtain ⟨position, found⟩ := mem_keys_iff.mp stored
      exact held ⟨position, range, found, inside⟩
    simp only [answers, shown, not_false_eq_true]

/-- A group of two ranges that take turns in blocks of 64 bytes. -/
def blocks (start : Addr) : AddrRangeMap Nat where
  entries :=
    [(⟨start, start + 255, 6, 0, 1, 0⟩, 0), (⟨start, start + 255, 6, 0, 1, 1⟩, 1)]
  sorted := by simp [less_iff]

theorem blocks_complete {start : Addr} (valid : start ≤ start + 255) : (blocks start).Complete := by
  have keys : (blocks start).keys =
    [⟨start, start + 255, 6, 0, 1, 0⟩, ⟨start, start + 255, 6, 0, 1, 1⟩] := rfl
  refine ⟨fun range stored => ?_, fun range stored _ value fits => ?_, ?_⟩
  · rw [keys, mem_pair] at stored
    rcases stored with rfl | rfl
    · exact decide_eq_true valid
    · exact decide_eq_true valid
  · rw [keys, mem_pair] at stored
    have two : value < 2 := by
      rcases stored with rfl | rfl
      · exact fits
      · exact fits
    have merges (intlvMatch : BitVec 8) : AddrRange.mergesWith
        ⟨start, start + 255, 6, 0, 1, intlvMatch⟩ range = true := by
      rcases stored with rfl | rfl
      · simp [AddrRange.mergesWith]
      · simp [AddrRange.mergesWith]
    rw [keys]
    interval_cases value
    · exact ⟨_, mem_cons_self, merges 0, rfl⟩
    · exact ⟨_, mem_cons_of_mem _ mem_cons_self, merges 1, rfl⟩
  · rw [Apart, keys, pairwise_pair]
    exact not_shares_of_mergesWith rfl (by simp [AddrRange.mergesWith])
      (show (0 : BitVec 8) ≠ 1 by decide)

/-- If the ranges start at a multiple of their size, the second block is found. -/
theorem findAddr_answers_iff_aligned :
    (blocks 0).Complete ∧ ∃ i, (blocks 0).findAddr 64 = .ok i ∧ (blocks 0).Answers 64 i := by
  have complete := blocks_complete (show (0 : Addr) ≤ 0 + 255 by decide)
  obtain ⟨i, found, right⟩ := findAddr_answers_iff (blocks 0) complete 64
  exact ⟨complete, i, found, right.mpr (by decide)⟩

/-- The first block of the ranges is one of the second range: its first address is not found. -/
theorem findAddr_misses_start : (blocks 64).Complete ∧
    (∃ range ∈ (blocks 64).keys, range.contains 64 = true) ∧
    (blocks 64).findAddr 64 = .ok (blocks 64).size := by
  exact ⟨blocks_complete (by decide), by decide, by decide⟩

end Gem5.Base.AddrRangeMap
