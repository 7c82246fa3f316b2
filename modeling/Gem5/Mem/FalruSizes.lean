/-
This file proves that the fully associative tag store answers for all the sizes
it tracks. The constructor sets the list, the boundaries and the masks up for
every configuration it accepts, the walk of `check` finds them in order, and every
hit or miss that is counted for a size is one that a cache of that size alone
would have.
-/

import Gem5.Mem.Falru
import Gem5.Library.Recency

namespace Gem5.Mem

open Base Library List Function

namespace Falru

variable {falru : Falru} {order : List Nat}

/-! ### The caches that end before a position -/

/-- The first `level` caches end at or before this position of the list. -/
def Level (capacity : Nat → Nat) (position level : Nat) : Prop :=
  ∀ i, position < capacity i ↔ level ≤ i

theorem Level.pass {capacity : Nat → Nat} (grows : StrictMono capacity) {position level : Nat}
    (ends : position + 1 = capacity level) : Level capacity (position + 1) (level + 1) := by
  intro i
  rw [ends, grows.lt_iff_lt]
  rfl

theorem Level.stay {capacity : Nat → Nat} (grows : StrictMono capacity) {position level : Nat}
    (here : Level capacity position level) (inside : position + 1 ≠ capacity level) :
    Level capacity (position + 1) level := by
  intro i
  constructor
  · intro less
    exact (here i).mp (by omega)
  · intro less
    have first : position < capacity level := (here level).mpr le_rfl
    have later : capacity level ≤ capacity i := grows.monotone less
    omega

def Flagged (flags : BitVec 32) (numCaches level : Nat) : Prop :=
  ∀ i, flags.getLsbD i = decide (level ≤ i ∧ i < numCaches)

theorem Flagged.clear {flags : BitVec 32} {numCaches level : Nat} (small : level < 32)
    (flagged : Flagged flags numCaches level) :
    Flagged (flags &&& ~~~(1#32 <<< level)) numCaches (level + 1) := by
  intro i
  rw [getLsbD_clear flags small, flagged i, ← Bool.decide_and]
  exact decide_eq_decide.mpr (by omega)

/-! ### The walk over the list -/

theorem mem_take_iff {Item : Type} {before after : List Item} {blk : Item} (apart : blk ∉ before)
    (count : Nat) : blk ∈ (before ++ blk :: after).take count ↔ before.length < count := by
  by_cases inside : before.length < count
  · refine iff_of_true ?_ inside
    obtain ⟨more, rfl⟩ : ∃ more, count = before.length + (more + 1) :=
      ⟨count - before.length - 1, by omega⟩
    rw [take_length_add_append, take_succ_cons]
    exact mem_append_right before mem_cons_self
  · refine iff_of_false (fun member => apart ?_) inside
    rw [take_append_of_le_length (by omega)] at member
    exact mem_of_mem_take member

theorem Ordered.inCache_eq (ordered : falru.Ordered order) {visited rest : List Nat} {blk : Nat}
    (split : order = visited ++ blk :: rest) {level : Nat} {flags : BitVec 32}
    (here : Level falru.capacity visited.length level)
    (flagged : Flagged flags falru.numCaches level) : falru.inCache blk = flags := by
  have distinct := ordered.nodup
  have member : blk ∈ order := by
    rw [split]
    exact mem_append_right visited mem_cons_self
  rw [split] at distinct
  have apart : blk ∉ visited := by grind
  refine BitVec.eq_of_getLsbD_eq fun i _ => ?_
  rw [ordered.resident blk member i, flagged i, split]
  refine decide_eq_decide.mpr ?_
  rw [mem_take_iff apart, here i]
  exact and_comm

theorem checkFrom_ok (sized : falru.Sized) (ordered : falru.Ordered order) (rest : List Nat) :
    ∀ (visited : List Nat) (start : Option Nat) (fuel level : Nat) (flags : BitVec 32),
      order = visited ++ rest → Segment falru.next start rest none → rest.length ≤ fuel →
      (rest ≠ [] → Level falru.capacity visited.length level) →
      Flagged flags falru.numCaches level →
      falru.checkFrom fuel start (visited.length * falru.blkSize) (2 ^ 17 * 2 ^ level) level flags =
        .ok true := by
  induction rest with
  | nil =>
    intro visited start fuel level flags _ segment _ _ _
    obtain rfl : start = none := segment
    rw [checkFrom]
  | cons blk rest hypothesis =>
    intro visited start fuel level flags split segment enough here flagged
    obtain ⟨rfl, continued⟩ := segment
    obtain ⟨fuel, rfl⟩ : ∃ less, fuel = less + 1 := ⟨fuel - 1, by simp at enough; omega⟩
    rw [length_cons] at enough
    have here := here (cons_ne_nil blk rest)
    have tail : blk = falru.tail ↔ rest = [] :=
      Linked.eq_tail_iff (split ▸ ordered.toLinked) (split ▸ ordered.nodup)
    have again : order = (visited ++ [blk]) ++ rest := by
      rw [split, append_assoc]
      rfl
    have length : (visited ++ [blk]).length = visited.length + 1 := length_append
    have total : visited.length * falru.blkSize + falru.blkSize =
        (visited ++ [blk]).length * falru.blkSize := by
      rw [length, Nat.succ_mul]
    rw [checkFrom, if_neg (not_not.mpr (ordered.inCache_eq split here flagged)), total]
    by_cases ends : visited.length + 1 = falru.capacity level ∧ blk ≠ falru.tail
    · obtain ⟨ends, inner⟩ := ends
      have tracked : level < falru.numCaches := by
        by_contra beyond
        have all : falru.numBlocks ≤ visited.length + 1 := by
          rw [ends, ← sized.capacity_numCaches]
          exact sized.capacity_strictMono.monotone (Nat.le_of_not_lt beyond)
        have size := ordered.length_eq
        rw [split, length_append, length_cons] at size
        exact inner (tail.mpr (length_eq_zero_iff.mp (by omega)))
      have boundary : falru.cacheBoundaries level = some blk := by
        rw [ordered.boundaries level tracked, ← ends, again, ← length, take_left, getLast?_concat]
      rw [if_pos ⟨by rw [length, ends, sized.capacity_mul], inner⟩, if_neg (not_not.mpr boundary),
        mul_assoc, ← pow_succ]
      refine hypothesis (visited ++ [blk]) _ fuel (level + 1) _ again continued (by omega)
        (fun _ => ?_) (flagged.clear (tracked.trans sized.fits))
      rw [length]
      exact Level.pass sized.capacity_strictMono ends
    · have apart : ¬((visited ++ [blk]).length * falru.blkSize = 2 ^ 17 * 2 ^ level ∧
          blk ≠ falru.tail) := by
        rintro ⟨same, inner⟩
        rw [length, ← sized.capacity_mul] at same
        exact ends ⟨Nat.eq_of_mul_eq_mul_right sized.blkSize_pos same, inner⟩
      rw [if_neg apart]
      refine hypothesis (visited ++ [blk]) _ fuel level flags again continued (by omega)
        (fun present => ?_) flagged
      rw [length]
      refine here.stay sized.capacity_strictMono fun same => ends ⟨same, fun last => ?_⟩
      exact present (tail.mp last)

theorem check_ok (sized : falru.Sized) (ordered : falru.Ordered order) :
    falru.check = .ok true := by
  have walked := checkFrom_ok sized ordered order [] (some falru.head) falru.numBlocks 0
    falru.cacheMask rfl ordered.next ordered.length_eq.le
    (fun _ i => iff_of_true ((sized.two_le_capacity i).trans_lt' (by decide)) (Nat.zero_le i))
    (fun i => by rw [sized.mask]; simp)
  rwa [length_nil, zero_mul, pow_zero, mul_one] at walked

/-! ### The constructor -/

/-- The blocks before `count` are linked, all but the first of them by the loop. -/
structure Linking.Upto (start : Falru) (count : Nat) (linking : Linking) : Prop where
  frame : linking.falru = { start with
    prev := linking.falru.prev, next := linking.falru.next, inCache := linking.falru.inCache
    cacheBoundaries := linking.falru.cacheBoundaries }
  level : Level start.capacity count linking.j
  index : linking.index = start.capacity linking.j
  flagged : Flagged linking.flags start.numCaches linking.j
  boundaries : ∀ i < linking.j, linking.falru.cacheBoundaries i = some (start.capacity i - 1)
  linked : ∀ blk, 0 < blk → blk < count → linking.falru.prev blk = some (blk - 1) ∧
    linking.falru.next blk = some (blk + 1) ∧
    ∀ i, (linking.falru.inCache blk).getLsbD i =
      decide (i < start.numCaches ∧ blk < start.capacity i)
  kept : ∀ blk, blk = 0 ∨ count ≤ blk → linking.falru.prev blk = start.prev blk ∧
    linking.falru.next blk = start.next blk ∧ linking.falru.inCache blk = start.inCache blk

/-- Both branches of the loop write the fields of the block in the same way. -/
theorem Linking.link_fields (linking : Linking) (i : Nat) :
    (linking.link i).falru = { linking.falru with
      inCache := update linking.falru.inCache i linking.flags
      prev := update linking.falru.prev i (some (i - 1))
      next := update linking.falru.next i (some (i + 1))
      cacheBoundaries := (linking.link i).falru.cacheBoundaries } := by
  rw [link]
  split
  · rfl
  · rfl

theorem Linking.Upto.link {start : Falru} (sized : start.Sized) {count : Nat} (positive : 0 < count)
    (inner : count + 1 < start.numBlocks) {linking : Linking} (upto : linking.Upto start count) :
    (linking.link count).Upto start (count + 1) := by
  have fields := linking.link_fields count
  have frame : (linking.link count).falru = { start with
      prev := (linking.link count).falru.prev, next := (linking.link count).falru.next
      inCache := (linking.link count).falru.inCache
      cacheBoundaries := (linking.link count).falru.cacheBoundaries } := by
    rw [fields, upto.frame]
  have linked : ∀ blk, 0 < blk → blk < count + 1 →
      (linking.link count).falru.prev blk = some (blk - 1) ∧
      (linking.link count).falru.next blk = some (blk + 1) ∧
      ∀ i, ((linking.link count).falru.inCache blk).getLsbD i =
        decide (i < start.numCaches ∧ blk < start.capacity i) := by
    intro blk first less
    rw [fields]
    by_cases same : blk = count
    · rw [same]
      refine ⟨update_self _ _ _, update_self _ _ _, fun i => ?_⟩
      show (update linking.falru.inCache count linking.flags count).getLsbD i = _
      rw [update_self, upto.flagged i]
      refine decide_eq_decide.mpr ?_
      rw [← upto.level i]
      exact and_comm
    · have before := upto.linked blk first (by omega)
      simp only [update_of_ne same]
      exact before
  have kept : ∀ blk, blk = 0 ∨ count + 1 ≤ blk →
      (linking.link count).falru.prev blk = start.prev blk ∧
      (linking.link count).falru.next blk = start.next blk ∧
      (linking.link count).falru.inCache blk = start.inCache blk := by
    intro blk outside
    have different : blk ≠ count := by omega
    rw [fields]
    simp only [update_of_ne different]
    exact upto.kept blk (by omega)
  by_cases ends : count + 1 = linking.index
  · have passes : count + 1 = start.capacity linking.j := ends.trans upto.index
    have tracked : linking.j < start.numCaches := by
      rw [passes, ← sized.capacity_numCaches] at inner
      exact sized.capacity_strictMono.lt_iff_lt.mp inner
    have j : (linking.link count).j = linking.j + 1 := by
      rw [Linking.link, if_pos ends]
    refine ⟨frame, ?_, ?_, ?_, ?_, linked, kept⟩
    · rw [j]
      exact Level.pass sized.capacity_strictMono passes
    · rw [j, sized.capacity_succ, ← upto.index, Linking.link, if_pos ends]
    · rw [j, Linking.link, if_pos ends]
      exact upto.flagged.clear (tracked.trans sized.fits)
    · intro i less
      rw [j] at less
      rw [Linking.link, if_pos ends]
      show update linking.falru.cacheBoundaries linking.j (some count) i = _
      by_cases same : i = linking.j
      · rw [same, update_self, ← passes, Nat.add_sub_cancel]
      · rw [update_of_ne same]
        exact upto.boundaries i (by omega)
  · have shape : linking.link count = { linking with falru := (linking.link count).falru } := by
      rw [Linking.link, if_neg ends]
    refine ⟨frame, ?_, ?_, ?_, ?_, linked, kept⟩
    · rw [shape]
      exact upto.level.stay sized.capacity_strictMono (upto.index ▸ ends)
    · rw [shape]
      exact upto.index
    · rw [shape]
      exact upto.flagged
    · rw [Linking.link, if_neg ends]
      exact upto.boundaries

theorem Linking.Upto.links {start : Falru} (sized : start.Sized) {linking : Linking}
    (upto : linking.Upto start 1) (more : Nat) (inner : more + 1 < start.numBlocks) :
    ((range' 1 more).foldl Linking.link linking).Upto start (more + 1) := by
  induction more with
  | zero => exact upto
  | succ more hypothesis =>
    rw [range'_1_concat, foldl_append, add_comm 1 more]
    exact (hypothesis (by omega)).link sized (Nat.succ_pos more) inner

/-- The loop changes nothing but the list, the boundaries and the masks. -/
theorem Linking.links_moved (linking : Linking) (blocks : List Nat) :
    linking.falru.Moved (blocks.foldl Linking.link linking).falru := by
  induction blocks generalizing linking with
  | nil => rfl
  | cons blk _ hypothesis =>
    have first : linking.falru.Moved (linking.link blk).falru := by
      rw [Moved, linking.link_fields]
    exact first.trans (hypothesis (linking.link blk))

/-- A first index that no block of the loop reaches leaves the boundaries unset. -/
theorem Linking.links_of_index_le (linking : Linking) (small : linking.index ≤ 1) (more : Nat) :
    ((range' 1 more).foldl Linking.link linking).j = linking.j ∧
      ((range' 1 more).foldl Linking.link linking).index = linking.index := by
  induction more with
  | zero => exact ⟨rfl, rfl⟩
  | succ more hypothesis =>
    obtain ⟨level, index⟩ := hypothesis
    have apart : 1 + more + 1 ≠ ((range' 1 more).foldl Linking.link linking).index := by omega
    rw [range'_1_concat, foldl_append, foldl_cons, foldl_nil, Linking.link, if_neg apart]
    exact ⟨level, index⟩

theorem segment_range {next : Nat → Option Nat} (count : Nat)
    (links : ∀ blk < count, next blk = some (blk + 1)) :
    Segment next (some 0) (range count) (some count) := by
  induction count with
  | zero => rfl
  | succ count hypothesis =>
    rw [range_succ]
    exact segment_append.mpr ⟨some count, hypothesis fun blk less => links blk (by omega),
      rfl, links count (by omega)⟩

theorem segment_range_reverse {prev : Nat → Option Nat} (first : prev 0 = none) (count : Nat)
    (links : ∀ blk < count, prev (blk + 1) = some blk) :
    Segment prev (some count) (range (count + 1)).reverse none := by
  induction count with
  | zero => exact ⟨rfl, first⟩
  | succ count hypothesis =>
    rw [range_succ, reverse_concat]
    refine ⟨rfl, ?_⟩
    rw [links count (by omega)]
    exact hypothesis fun blk less => links blk (by omega)

section Ends

variable (blkSize numBlocks numCaches : Nat) (cacheMask : BitVec 32)

section

variable (sized : (ends blkSize numBlocks numCaches cacheMask).Sized)
include sized

theorem ends_upto :
    Linking.Upto (ends blkSize numBlocks numCaches cacheMask) 1
      ⟨ends blkSize numBlocks numCaches cacheMask, 2 ^ 17 / blkSize, 0, cacheMask⟩ where
  frame := rfl
  level i := iff_of_true (sized.two_le_capacity i) (Nat.zero_le i)
  index := by
    show 2 ^ 17 / blkSize = 2 ^ 17 * 2 ^ 0 / blkSize
    rw [pow_zero, mul_one]
  flagged i := by
    rw [show cacheMask.getLsbD i = decide (i < numCaches) from sized.mask i]
    exact decide_eq_decide.mpr (by simp [ends])
  boundaries i less := absurd less (Nat.not_lt_zero i)
  linked blk first less := by omega
  kept _ _ := ⟨rfl, rfl, rfl⟩

theorem ends_ordered {linking : Linking}
    (upto : linking.Upto (ends blkSize numBlocks numCaches cacheMask) (numBlocks - 2 + 1))
    (done : linking.j = numCaches) : linking.falru.Ordered (range numBlocks) := by
  obtain ⟨last, rfl⟩ : ∃ last, numBlocks = last + 2 :=
    ⟨numBlocks - 2, (Nat.sub_add_cancel sized.two_le_numBlocks).symm⟩
  have upto : linking.Upto (ends blkSize (last + 2) numCaches cacheMask) (last + 1) := upto
  obtain ⟨firstPrev, firstNext, firstMask⟩ := upto.kept 0 (.inl rfl)
  obtain ⟨lastPrev, lastNext, lastMask⟩ := upto.kept (last + 1) (.inr le_rfl)
  have caches : linking.falru.numCaches = numCaches := by rw [upto.frame]; rfl
  have sizes : linking.falru.capacity =
      (ends blkSize (last + 2) numCaches cacheMask).capacity := by
    rw [upto.frame]
    rfl
  have forward : ∀ blk < last + 1, linking.falru.next blk = some (blk + 1) := by
    intro blk less
    by_cases zero : blk = 0
    · rw [zero, firstNext]
      simp [ends]
    · exact (upto.linked blk (Nat.pos_of_ne_zero zero) less).2.1
  have backward : ∀ blk < last + 1, linking.falru.prev (blk + 1) = some blk := by
    intro blk less
    by_cases same : blk = last
    · rw [same, lastPrev]
      simp [ends]
    · exact (upto.linked (blk + 1) (Nat.succ_pos blk) (by omega)).1
  refine ⟨⟨?_, ?_⟩, ?_, ?_, ?_⟩
  · rw [upto.frame, range_succ]
    exact segment_append.mpr ⟨some (last + 1), segment_range _ forward, rfl,
      lastNext.trans (by simp [ends])⟩
  · rw [upto.frame]
    refine segment_range_reverse ?_ (last + 1) backward
    rw [firstPrev]
    simp [ends]
  · rw [upto.frame]
    exact List.Perm.refl _
  · intro i tracked
    rw [caches] at tracked
    have small : _ < last + 2 := sized.capacity_lt tracked
    have many := sized.two_le_capacity i
    rw [sizes, upto.boundaries i (done ▸ tracked), take_range, min_eq_left small.le,
      getLast?_range, if_neg (by omega)]
  · intro blk member i
    rw [caches, sizes, take_range]
    simp only [mem_range] at member ⊢
    have many := sized.two_le_capacity i
    rcases Nat.eq_zero_or_pos blk with rfl | positive
    · rw [firstMask]
      refine (sized.mask i).trans (decide_eq_decide.mpr (iff_self_and.mpr fun _ => by omega))
    · by_cases same : blk = last + 1
      · have outside : ¬(i < numCaches ∧
            blk < min ((ends blkSize (last + 2) numCaches cacheMask).capacity i) (last + 2)) := by
          rintro ⟨tracked, _⟩
          have small : _ < last + 2 := sized.capacity_lt tracked
          omega
        rw [decide_eq_false outside, same, lastMask]
        simp [ends]
      · rw [(upto.linked blk positive (by omega)).2.2 i]
        exact decide_eq_decide.mpr (and_congr_right fun _ => by omega)

end

end Ends

theorem initialMask_getLsbD {numCaches : Nat} (small : numCaches < 32) (i : Nat) :
    (initialMask numCaches).getLsbD i = decide (i < numCaches) := by
  rcases Nat.eq_zero_or_pos numCaches with rfl | positive
  · exact BitVec.getLsbD_zero
  · have power : 2 ^ numCaches < 2 ^ 32 := Nat.pow_lt_pow_right (by decide) small
    have value : ((1#32 <<< numCaches) - 1).toNat = 2 ^ numCaches - 1 := by
      rw [BitVec.toNat_sub, BitVec.toNat_shiftLeft, Nat.shiftLeft_eq]
      have := Nat.two_pow_pos numCaches
      simp
      omega
    rw [initialMask, if_pos positive, BitVec.getLsbD, value, Nat.testBit_two_pow_sub_one]

/-- The first and the last block of the configuration with these exponents. -/
def endsOf (b s : Nat) : Falru :=
  ends (2 ^ b) (2 ^ s / 2 ^ b) (s - 17) (initialMask (s - 17))

variable {size blkSize : BitVec 32}

/-- The configurations that are accepted. -/
theorem create_inversion (created : create size blkSize = .ok falru) :
    ∃ b s, blkSize.toNat = 2 ^ b ∧ 17 ≤ s ∧ s < 32 ∧
      (linkBlocks (2 ^ b) (2 ^ s / 2 ^ b) (s - 17) (initialMask (s - 17))).j = s - 17 ∧
      falru = (linkBlocks (2 ^ b) (2 ^ s / 2 ^ b) (s - 17) (initialMask (s - 17))).falru ∧
      (endsOf b s).Moved falru := by
  rw [create] at created
  split_ifs at created with power whole small
  obtain ⟨b, blkSizeEq⟩ := isPowerOf2_iff.mp power
  obtain ⟨s, sizeEq⟩ := isPowerOf2_iff.mp whole
  have log : floorLog2 size = s := by
    rw [floorLog2, sizeEq, Nat.log2_two_pow]
  dsimp only at created
  rw [log] at small
  rw [blkSizeEq, sizeEq, log] at created
  split_ifs at created with done
  have bound := size.isLt
  rw [sizeEq] at bound
  cases created
  exact ⟨b, s, blkSizeEq, by omega, (Nat.pow_lt_pow_iff_right (by decide)).mp bound, done.1, rfl,
    Linking.links_moved ⟨endsOf b s, _, _, _⟩ _⟩

/-- Nothing has been stored or counted. -/
structure Blank (falru : Falru) : Prop where
  tag : ∀ blk, falru.tag blk = 0
  isValid : ∀ blk, falru.isValid blk = false
  tagHash : ∀ addr, falru.tagHash addr = none
  hits : ∀ i, falru.hits i = 0
  misses : ∀ i, falru.misses i = 0

theorem ends_sized {b s : Nat} (deep : b < 17) (large : 17 ≤ s) (small : s < 32) :
    (endsOf b s).Sized where
  exponent := by
    refine ⟨17 - b, by omega, ?_, ?_⟩
    · show 2 ^ b * 2 ^ (17 - b) = 2 ^ 17
      rw [← Nat.pow_add, Nat.add_sub_cancel' deep.le]
    · show 2 ^ s / 2 ^ b = 2 ^ (17 - b + (s - 17))
      rw [Nat.pow_div (by omega) (by decide)]
      congr 1
      omega
  fits := by
    show s - 17 < 32
    omega
  mask := initialMask_getLsbD (by omega)

theorem create_blank (created : create size blkSize = .ok falru) :
    falru.Blank ∧ falru.blkSize = blkSize.toNat := by
  obtain ⟨b, s, power, _, _, _, _, moved⟩ := create_inversion created
  rw [moved, power]
  exact ⟨⟨fun _ => rfl, fun _ => rfl, fun _ => rfl, fun _ => rfl, fun _ => rfl⟩, rfl⟩

/-- Every configuration that is accepted is set up in order. -/
theorem create_ok (created : create size blkSize = .ok falru)
    (several : 0 < falru.numCaches ∨ 1 < falru.numBlocks) :
    falru.Sized ∧ falru.Ordered (range falru.numBlocks) := by
  obtain ⟨b, s, _, large, small, done, linked, moved⟩ := create_inversion created
  have blocks : falru.numBlocks = 2 ^ s / 2 ^ b := by
    rw [moved]
    rfl
  by_cases deep : b < 17
  · have sized := ends_sized deep large small
    have many : 2 ≤ 2 ^ s / 2 ^ b := sized.two_le_numBlocks
    have inner : 2 ^ s / 2 ^ b - 2 + 1 < 2 ^ s / 2 ^ b := by omega
    have upto := (ends_upto _ _ _ _ sized).links sized (2 ^ s / 2 ^ b - 2) inner
    rw [blocks]
    exact ⟨moved.sized sized, linked ▸ ends_ordered _ _ _ _ sized upto done⟩
  · have index : 2 ^ 17 / 2 ^ b ≤ 1 := by
      rw [← Nat.div_self (Nat.two_pow_pos 17)]
      exact Nat.div_le_div_left (Nat.pow_le_pow_right (by decide) (by omega)) (Nat.two_pow_pos 17)
    have level := (Linking.links_of_index_le ⟨endsOf b s, _, 0, initialMask (s - 17)⟩ index
      (2 ^ s / 2 ^ b - 2)).1
    have exactly : s = 17 :=
      le_antisymm (Nat.sub_eq_zero_iff_le.mp (done.symm.trans level)) large
    subst exactly
    have caches : falru.numCaches = 0 := by
      rw [moved]
      rfl
    rw [caches, blocks] at several
    exact absurd several (not_or.mpr ⟨lt_irrefl 0, not_lt.mpr index⟩)

/-! ### Hits and evictions -/

variable {before after : List Nat} {blk : Nat}

theorem hit_ok (sized : falru.Sized) (ordered : falru.Ordered (before ++ blk :: after)) :
    ∃ next, falru.hit blk = .ok next ∧ (falru.recordHit blk).Moved next ∧
      next.Ordered (blk :: (before ++ after)) := by
  have counted : (falru.recordHit blk).Ordered (before ++ blk :: after) := { ordered with }
  rw [hit]
  by_cases first : blk = (falru.recordHit blk).head
  · have nothing : before = [] := ordered.nothing_before_head first
    subst nothing
    rw [if_pos first]
    exact ⟨_, rfl, rfl, counted⟩
  · rw [if_neg first]
    exact moveToHead_ok { sized with } counted

theorem findVictim_ok (sized : falru.Sized) (ordered : falru.Ordered (before ++ [blk]))
    (addr : Addr) :
    ∃ moved, falru.Moved moved ∧ moved.Ordered (blk :: before) ∧
      falru.findVictim addr = .ok ({ moved with
        tagHash := update (update falru.tagHash (falru.tag blk) none)
          (falru.blkAlign addr) (some blk) }, blk) := by
  have tail : blk = falru.tail := (ordered.eq_tail_iff ordered.nodup).mpr rfl
  have apart : blk ∉ before := by
    have distinct := ordered.nodup
    grind
  have outside : falru.inCache blk = 0 := by
    refine BitVec.eq_of_getLsbD_eq fun i _ => ?_
    rw [ordered.resident blk (mem_append_right before mem_cons_self)]
    refine (decide_eq_false fun inside => ?_).trans BitVec.getLsbD_zero.symm
    obtain ⟨tracked, member⟩ := inside
    have early := (mem_take_iff apart _).mp member
    have small := sized.capacity_lt tracked
    rw [← ordered.length_eq, length_append, length_singleton] at small
    omega
  obtain ⟨moved, computed, frame, reordered⟩ := moveToHead_ok sized ordered
  rw [append_nil] at reordered
  refine ⟨moved, frame, reordered, ?_⟩
  have hash : moved.tagHash = falru.tagHash := by rw [frame]
  have tags : moved.tag = falru.tag := by rw [frame]
  rw [findVictim, ← tail, if_pos outside]
  dsimp only
  rw [computed, ok_bind, hash, tags]
  rfl

end Falru

/-! ### The sizes that are tracked -/

/-- The tag store with the lines its blocks hold and the lines that were referenced. -/
structure FalruHistory where
  falru : Falru
  lines : Nat → Option Addr
  references : List Addr

/-- A block that holds a line is hit, or a line that no block holds evicts the tail. -/
inductive FalruCall where
  | hit (blk : Nat)
  | evict (addr : Addr)
deriving DecidableEq, Repr

namespace FalruHistory

def step (history : FalruHistory) : FalruCall → Except FalruFault FalruHistory
  | .hit blk => do
    let moved ← history.falru.hit blk
    return { history with
      falru := moved, references := history.references ++ (history.lines blk).toList }
  | .evict addr => do
    let (moved, blk) ← history.falru.recordMiss.findVictim addr
    let line := history.falru.blkAlign addr
    return {
      falru := moved
      lines := update history.lines blk (some line)
      references := history.references ++ [line] }

/-- A call refers to a line that a block holds, or to one that none holds. -/
def Called (history : FalruHistory) : FalruCall → Prop
  | .hit blk => blk < history.falru.numBlocks ∧ (history.lines blk).isSome
  | .evict addr => ∀ blk < history.falru.numBlocks,
      history.lines blk ≠ some (history.falru.blkAlign addr)

instance (history : FalruHistory) : (call : FalruCall) → Decidable (history.Called call)
  | .hit _ => inferInstanceAs (Decidable (_ ∧ _))
  | .evict _ => inferInstanceAs (Decidable (∀ blk < history.falru.numBlocks, _))

def start (falru : Falru) : FalruHistory := ⟨falru, fun _ => none, []⟩

/-- The blocks at the head of the list hold the lines that were used last, and every size counts
what a cache of that size would. -/
structure Tracks (history : FalruHistory) (used free : List Nat) : Prop where
  sized : history.falru.Sized
  ordered : history.falru.Ordered (used ++ free)
  held : used.map history.lines =
    ((recency history.references).take history.falru.numBlocks).map some
  unused : ∀ blk ∈ free, history.lines blk = none
  counts : ∀ i ≤ history.falru.numCaches,
    history.falru.hits i =
        (LruCache.run (history.falru.capacity i) history.references).hits ∧
      history.falru.misses i =
        (LruCache.run (history.falru.capacity i) history.references).misses

/-- The sizes that were tracked are tracked still. -/
def SameSizes (history next : FalruHistory) : Prop :=
  next.falru.blkSize = history.falru.blkSize ∧ next.falru.numCaches = history.falru.numCaches

variable {history next : FalruHistory} {used free before after : List Nat} {blk : Nat}

section

variable (tracks : history.Tracks used free)
include tracks

theorem Tracks.capacity_le {i : Nat} (tracked : i ≤ history.falru.numCaches) :
    history.falru.capacity i ≤ history.falru.numBlocks := by
  rw [← tracks.sized.capacity_numCaches]
  exact tracks.sized.capacity_strictMono.monotone tracked

/-- A reference to a line is counted right for every size. -/
theorem Tracks.referenced {line : Addr} {moved : Falru}
    (sizes : moved.capacity = history.falru.capacity)
    (caches : moved.numCaches = history.falru.numCaches)
    (counted : ∀ i ≤ history.falru.numCaches,
      moved.hits i = history.falru.hits i +
          (if line ∈ (recency history.references).take (history.falru.capacity i) then 1 else 0) ∧
        moved.misses i = history.falru.misses i +
          (if line ∈ (recency history.references).take (history.falru.capacity i) then 0 else 1)) :
    ∀ i ≤ moved.numCaches,
      moved.hits i = (LruCache.run (moved.capacity i) (history.references ++ [line])).hits ∧
        moved.misses i =
          (LruCache.run (moved.capacity i) (history.references ++ [line])).misses := by
  intro i tracked
  rw [caches] at tracked
  obtain ⟨hits, misses⟩ := counted i tracked
  obtain ⟨countedHits, countedMisses⟩ := tracks.counts i tracked
  obtain ⟨less, size⟩ : ∃ less, history.falru.capacity i = less + 1 :=
    ⟨history.falru.capacity i - 1, by have := tracks.sized.two_le_capacity i; omega⟩
  obtain ⟨addedHits, addedMisses⟩ := LruCache.run_append history.references line less
  rw [← size] at addedHits addedMisses
  rw [sizes, addedHits, addedMisses, ← countedHits, ← countedMisses]
  exact ⟨hits, misses⟩

theorem Tracks.take_recency (line : Addr) :
    (recency (history.references ++ [line])).take history.falru.numBlocks =
      if line ∈ (recency history.references).take history.falru.numBlocks then
        line :: ((recency history.references).take history.falru.numBlocks).erase line
      else (line :: (recency history.references).take history.falru.numBlocks).take
        history.falru.numBlocks := by
  obtain ⟨less, size⟩ : ∃ less, history.falru.numBlocks = less + 1 :=
    ⟨history.falru.numBlocks - 1, by have := tracks.sized.two_le_numBlocks; omega⟩
  rw [size, recency_append, take_touch]

end

section

variable (tracks : history.Tracks (before ++ blk :: after) free)
include tracks

theorem Tracks.split :
    ∃ line first second, history.lines blk = some line ∧ line ∉ first ∧
      (recency history.references).take history.falru.numBlocks = first ++ line :: second ∧
      before.map history.lines = first.map some ∧ after.map history.lines = second.map some := by
  have held := tracks.held
  rw [map_append, map_cons] at held
  obtain ⟨first, _, split, left, right⟩ := map_eq_append_iff.mp held.symm
  obtain ⟨line, second, rfl, here, later⟩ := map_eq_cons_iff.mp right
  have distinct := (recency_nodup history.references).sublist
    (take_sublist history.falru.numBlocks _)
  rw [split] at distinct
  have absent : line ∉ first := by grind
  exact ⟨line, first, second, here.symm, absent, split, left.symm, later.symm⟩

theorem Tracks.mem_take_iff {line : Addr}
    (here : history.lines blk = some line) {count : Nat} (small : count ≤ history.falru.numBlocks) :
    blk ∈ (before ++ blk :: after ++ free).take count ↔
      line ∈ (recency history.references).take count := by
  obtain ⟨line', first, second, there, lines, split, left, _⟩ := tracks.split
  obtain rfl : line' = line := Option.some.inj (there.symm.trans here)
  have blocks : blk ∉ before := by
    have distinct := tracks.ordered.nodup
    grind
  have length : before.length = first.length := by
    rw [← length_map history.lines, left, length_map]
  have same : (recency history.references).take count = (first ++ line' :: second).take count := by
    rw [← split, take_take, min_eq_left small]
  rw [append_assoc, cons_append, Falru.mem_take_iff blocks, length, same, Falru.mem_take_iff lines]

theorem Tracks.hit :
    ∃ next, history.step (.hit blk) = .ok next ∧ history.SameSizes next ∧
      next.Tracks (blk :: (before ++ after)) free := by
  obtain ⟨line, first, _, here, absent, split, left, right⟩ := tracks.split
  have ordered := tracks.ordered
  rw [append_assoc, cons_append] at ordered
  obtain ⟨moved, computed, frame, reordered⟩ := Falru.hit_ok tracks.sized ordered
  have blocks : moved.numBlocks = history.falru.numBlocks := by rw [frame]; rfl
  have caches : moved.numCaches = history.falru.numCaches := by rw [frame]; rfl
  have sizes : moved.capacity = history.falru.capacity := by rw [frame]; rfl
  have hits : moved.hits = (history.falru.recordHit blk).hits := by rw [frame]
  have misses : moved.misses = (history.falru.recordHit blk).misses := by rw [frame]
  have listed : blk ∈ before ++ blk :: (after ++ free) :=
    mem_append_right before mem_cons_self
  rw [step, computed, ok_bind, here]
  refine ⟨_, rfl, ⟨by rw [frame]; rfl, caches⟩, ?_, ?_, ?_, tracks.unused, ?_⟩
  · exact frame.sized { tracks.sized with }
  · rw [cons_append, append_assoc]
    exact reordered
  · show _ = ((recency (history.references ++ [line])).take moved.numBlocks).map some
    rw [blocks, tracks.take_recency, split, if_pos (by simp), erase_append_right _ absent,
      erase_cons_head, map_cons, map_cons, map_append, map_append, left, right, here]
  · refine tracks.referenced sizes caches fun i tracked => ?_
    have resident : i = history.falru.numCaches ∨ i < history.falru.numCaches ∧
          (history.falru.inCache blk).getLsbD i = true ↔
        line ∈ (recency history.references).take (history.falru.capacity i) := by
      have same := tracks.mem_take_iff here (tracks.capacity_le tracked)
      rw [append_assoc, cons_append] at same
      rw [ordered.resident blk listed i, decide_eq_true_iff, ← same]
      constructor
      · rintro (whole | inside)
        · rw [same, whole, tracks.sized.capacity_numCaches, split]
          exact mem_append_right first mem_cons_self
        · exact inside.2.2
      · intro member
        by_cases whole : i = history.falru.numCaches
        · exact .inl whole
        · exact .inr ⟨by omega, by omega, member⟩
    rw [hits, misses]
    constructor
    · exact congrArg (history.falru.hits i + ·) (if_congr resident rfl rfl)
    · refine congrArg (history.falru.misses i + ·) ?_
      rw [← ite_not]
      refine if_congr ?_ rfl rfl
      rw [← resident]
      grind

end

theorem map_update_cons {items : List Nat} {last : Nat} (apart : last ∉ items)
    (lines : Nat → Option Addr) (line : Addr) :
    (last :: items).map (update lines last (some line)) =
      some line :: items.map lines := by
  rw [map_cons, update_self]
  refine congrArg (some line :: ·) (map_congr_left fun blk member => ?_)
  exact update_of_ne (ne_of_mem_of_not_mem member apart) _ _

section

variable (tracks : history.Tracks used free)
include tracks

section

variable {addr : Addr} (called : history.Called (.evict addr))
include called

theorem Tracks.absent :
    history.falru.blkAlign addr ∉
      (recency history.references).take history.falru.numBlocks := by
  intro member
  have mapped : some (history.falru.blkAlign addr) ∈ used.map history.lines := by
    rw [tracks.held]
    exact mem_map_of_mem member
  obtain ⟨blk, inside, here⟩ := mem_map.mp mapped
  have bound := tracks.ordered.perm.mem_iff.mp (mem_append_left free inside)
  exact called blk (mem_range.mp bound) here

theorem Tracks.evict_last (later spare : List Nat) {front : List Nat} {last : Nat}
    (split : used ++ free = front ++ [last]) (moved : last :: front = later ++ spare)
    (held : later.map (update history.lines last (some (history.falru.blkAlign addr))) =
      ((history.falru.blkAlign addr ::
        (recency history.references).take history.falru.numBlocks).take
          history.falru.numBlocks).map some)
    (unused : ∀ blk ∈ spare, blk ∈ free ∧ blk ≠ last) :
    ∃ next, history.step (.evict addr) = .ok next ∧ history.SameSizes next ∧
      next.Tracks later spare := by
  have absent := tracks.absent called
  have ordered : history.falru.recordMiss.Ordered (front ++ [last]) := by
    rw [← split]
    exact { tracks.ordered with }
  have sized : history.falru.recordMiss.Sized := { tracks.sized with }
  obtain ⟨victim, frame, reordered, computed⟩ := Falru.findVictim_ok sized ordered addr
  have blocks : victim.numBlocks = history.falru.numBlocks := by rw [frame]; rfl
  have caches : victim.numCaches = history.falru.numCaches := by rw [frame]; rfl
  have sizes : victim.capacity = history.falru.capacity := by rw [frame]; rfl
  have hits : victim.hits = history.falru.hits := by rw [frame]; rfl
  have misses : victim.misses = history.falru.recordMiss.misses := by rw [frame]
  rw [step, computed, ok_bind]
  refine ⟨_, rfl, ⟨by rw [frame]; rfl, caches⟩, ?_, ?_, ?_, ?_, ?_⟩
  · exact { frame.sized sized with }
  · rw [← moved]
    exact { reordered with }
  · show _ = ((recency (history.references ++ [history.falru.blkAlign addr])).take
      victim.numBlocks).map some
    rw [blocks, tracks.take_recency, if_neg absent]
    exact held
  · intro blk member
    show update history.lines last _ blk = none
    rw [update_of_ne (unused blk member).2]
    exact tracks.unused blk (unused blk member).1
  · refine tracks.referenced sizes caches fun i tracked => ?_
    have outside : history.falru.blkAlign addr ∉
        (recency history.references).take (history.falru.capacity i) := fun member =>
      absent ((take_sublist_take_left (tracks.capacity_le tracked)).subset member)
    rw [if_neg outside, if_neg outside]
    refine ⟨congrFun hits i, ?_⟩
    show victim.misses i = _
    rw [misses]
    exact congrArg (history.falru.misses i + ·) (if_pos tracked)

/-- The line that was used least recently makes room. -/
theorem Tracks.evict :
    ∃ next used free, history.step (.evict addr) = .ok next ∧ history.SameSizes next ∧
      next.Tracks used free := by
  have distinct := tracks.ordered.nodup
  have size := tracks.ordered.length_eq
  have length := congrArg length tracks.held
  rw [length_map, length_map] at length
  rw [length_append] at size
  rcases eq_nil_or_concat' free with rfl | ⟨rest, last, rfl⟩
  · rcases eq_nil_or_concat' used with rfl | ⟨front, last, rfl⟩
    · have many := tracks.sized.two_le_numBlocks
      rw [← size] at many
      exact absurd many (by decide)
    · obtain ⟨_, _, second, _, _, split, left, right⟩ := tracks.split
      obtain rfl : second = [] := map_eq_nil_iff.mp right.symm
      have apart : last ∉ front := by grind
      have same := congrArg List.length left
      rw [length_map, length_map] at same
      have held : (last :: front).map (update history.lines last
          (some (history.falru.blkAlign addr))) = ((history.falru.blkAlign addr ::
            (recency history.references).take history.falru.numBlocks).take
              history.falru.numBlocks).map some := by
        rw [map_update_cons apart, left, split, ← map_cons, ← cons_append,
          take_left' (by simp at size ⊢; omega)]
      obtain ⟨next, stepped, later⟩ := tracks.evict_last called (last :: front) []
        (append_nil _) (append_nil _).symm held (fun _ member => by cases member)
      exact ⟨next, _, _, stepped, later⟩
  · have apart : last ∉ used := by grind
    have held : (last :: used).map (update history.lines last
        (some (history.falru.blkAlign addr))) = ((history.falru.blkAlign addr ::
          (recency history.references).take history.falru.numBlocks).take
            history.falru.numBlocks).map some := by
      rw [map_update_cons apart, tracks.held, ← map_cons]
      refine congrArg (map some) (take_of_length_le ?_).symm
      rw [length_cons, ← length, ← size, length_append]
      simp
    obtain ⟨next, stepped, later⟩ := tracks.evict_last called (last :: used) rest
      (append_assoc used rest [last]).symm rfl held
      (fun blk member => ⟨mem_append_left _ member, by grind⟩)
    exact ⟨next, _, _, stepped, later⟩

end

theorem Tracks.step {call : FalruCall} (called : history.Called call) :
    ∃ next used free, history.step call = .ok next ∧ history.SameSizes next ∧
      next.Tracks used free := by
  cases call with
  | evict => exact tracks.evict called
  | hit blk =>
    obtain ⟨bound, holds⟩ := called
    have member : blk ∈ used ++ free :=
      tracks.ordered.perm.mem_iff.mpr (mem_range.mpr bound)
    rcases mem_append.mp member with inside | outside
    · obtain ⟨_, _, rfl⟩ := append_of_mem inside
      obtain ⟨next, stepped, later⟩ := tracks.hit
      exact ⟨next, _, _, stepped, later⟩
    · rw [tracks.unused blk outside] at holds
      cases holds

end

theorem Tracks.start {falru : Falru} {size blkSize : BitVec 32}
    (created : Falru.create size blkSize = .ok falru) (tracked : 0 < falru.numCaches) :
    (FalruHistory.start falru).Tracks [] (range falru.numBlocks) := by
  obtain ⟨sized, ordered⟩ := Falru.create_ok created (.inl tracked)
  obtain ⟨blank, _⟩ := Falru.create_blank created
  refine ⟨sized, ordered, ?_, fun _ _ => rfl, fun i _ => ⟨blank.hits i, blank.misses i⟩⟩
  show [] = ((recency []).take falru.numBlocks).map some
  rw [recency, foldl_nil, take_nil, map_nil]

/-- The walk of `check` finds the list, the boundaries and the masks in order after every sequence
of hits and evictions, every tracked size counts what a cache of that size alone would, and no call
fails. -/
theorem falru_tracks_sizes {size blkSize : BitVec 32} {falru : Falru}
    (created : Falru.create size blkSize = .ok falru) (tracked : 0 < falru.numCaches)
    {calls : List FalruCall} {history : FalruHistory}
    (run : Run FalruHistory.step Called (FalruHistory.start falru) calls history) :
    history.falru.check = .ok true ∧
      (∀ i ≤ falru.numCaches,
        history.falru.hits i =
          (LruCache.run (2 ^ 17 * 2 ^ i / blkSize.toNat) history.references).hits ∧
        history.falru.misses i =
          (LruCache.run (2 ^ 17 * 2 ^ i / blkSize.toNat) history.references).misses) ∧
      ∀ call, history.Called call → ∃ next, history.step call = .ok next := by
  obtain ⟨⟨used, free, tracks⟩, blkSizes, caches⟩ := run.invariant_of_total
    (fun history => (∃ used free, history.Tracks used free) ∧
      (FalruHistory.start falru).SameSizes history)
    (by
      rintro history call ⟨⟨used, free, tracks⟩, blkSizes, caches⟩ called
      obtain ⟨next, used, free, stepped, same, tracks⟩ := tracks.step called
      exact ⟨next, stepped, ⟨used, free, tracks⟩, same.1.trans blkSizes, same.2.trans caches⟩)
    ⟨⟨_, _, Tracks.start created tracked⟩, rfl, rfl⟩
  have whole : falru.blkSize = blkSize.toNat := (Falru.create_blank created).2
  refine ⟨Falru.check_ok tracks.sized tracks.ordered, fun i small => ?_, fun call called => ?_⟩
  · have counts := tracks.counts i (small.trans_eq caches.symm)
    rw [Falru.capacity, blkSizes] at counts
    rw [← whole]
    exact counts
  · obtain ⟨next, _, _, stepped, _⟩ := tracks.step called
    exact ⟨next, stepped⟩

/-- Four blocks, of which the first two are the smaller cache: a line is hit when it is among the
first four but not among the first two. -/
theorem falru_tracks_sizes_four_blocks : ∃ falru history,
    Falru.create 262144#32 65536#32 = .ok falru ∧ falru.numCaches = 1 ∧
      Run FalruHistory.step Called (FalruHistory.start falru)
        [.evict 0, .evict 65536, .evict 131080, .hit 3] history ∧
      history.falru.check = .ok true ∧ history.falru.hits 0 = 0 ∧ history.falru.hits 1 = 1 ∧
      (LruCache.run 2 history.references).hits = 0 ∧
      (LruCache.run 4 history.references).hits = 1 := by
  obtain ⟨falru, created, checked⟩ : ∃ falru, Falru.create 262144#32 65536#32 = .ok falru ∧
      (falru.numCaches == 1 &&
        (guardedRun FalruHistory.step Called (FalruHistory.start falru)
          [.evict 0, .evict 65536, .evict 131080, .hit 3]).any
          fun history => history.falru.hits 0 = 0 ∧ history.falru.hits 1 = 1) = true :=
    exists_of_check (by decide +kernel)
  rw [Bool.and_eq_true, beq_iff_eq] at checked
  obtain ⟨caches, checked⟩ := checked
  obtain ⟨history, run, counted⟩ := Run.exists_check checked
  obtain ⟨walked, counts, _⟩ := falru_tracks_sizes created (by omega) run
  exact ⟨falru, history, created, caches, run, walked, counted.1, counted.2,
    (counts 0 (by omega)).1.symm.trans counted.1, (counts 1 caches.ge).1.symm.trans counted.2⟩

end FalruHistory

end Gem5.Mem
