/-
This file models the histogram storage (`HistStor` of `base/statistics.hh` and `statistics.cc`).
When a sample is out of range the buckets are folded in pairs, in place: upward from zero, outward
from the middle, or once from the top when the first negative sample makes the range a signed one.

The conversion and, for most sizes, the outward folding put counts into buckets of another interval
or lose them. The file proves that the counts are right as long as no sample is negative, and also
with negative samples if there are `4 m + 1` buckets and the first sample is negative, so that the
conversion folds empty buckets. Values and counters are doubles: the samples are bounded so that no
sum is rounded.
-/

import Gem5.Library.Run
import Mathlib.Algebra.BigOperators.Group.Finset.Basic
import Mathlib.Tactic.Ring

namespace Gem5.Base.Stats

open Library List

inductive Fault where
  | assertion
  | endless
  deriving DecidableEq

/-- The double next to an integer, the even one of two. -/
def toDouble (value : Int) : Int :=
  let unit := 2 ^ (value.natAbs.log2 - 52)
  let below := value / unit
  let rest := value % unit
  if 2 * rest < unit ∨ 2 * rest = unit ∧ below % 2 = 0 then below * unit else (below + 1) * unit

theorem toDouble_eq {value : Int} (small : value.natAbs ≤ 2 ^ 53) : toDouble value = value := by
  rcases Nat.lt_or_eq_of_le small with less | most
  · have unit : value.natAbs.log2 - 52 = 0 := by
      by_cases none : value.natAbs = 0
      · rw [none]
        rfl
      · have bits := (Nat.log2_lt none).mpr less
        omega
    rw [toDouble, unit]
    simp [Int.emod_one]
  · obtain rfl | rfl : value = 2 ^ 53 ∨ value = -2 ^ 53 := by omega
    all_goals rfl

/-- The counters of the buckets are at the indices from zero to `size`; `log` has the values that
were sampled, each with its number. -/
structure HistStor where
  size : Nat
  minBucket : Int
  maxBucket : Int
  bucketSize : Int
  cvec : Int → Int
  samples : Int
  log : List (Int × Int)

namespace HistStor

def reset (buckets : Nat) : HistStor :=
  ⟨buckets, 0, toDouble (buckets - 1), 1, fun _ => 0, 0, []⟩

/-- The loops that fold pairs from an index upward or downward, with the pair they end at. A counter
that has no other one to its pair is a double already. -/
def foldPairs (step : Int) (inside : Int → Bool) :
    Nat → Int → Int → (Int → Int) → (Int → Int) × Int
  | 0, _, pair, cvec => (cvec, pair)
  | count + 1, i, pair, cvec =>
    foldPairs step inside count (i + step) (pair + 2 * step) fun j =>
      if j = i then toDouble (cvec pair + if inside (pair + step) then cvec (pair + step) else 0)
      else cvec j

def pairUp (size : Int) : Nat → Int → Int → (Int → Int) → (Int → Int) × Int :=
  foldPairs 1 (· < size)

def pairDown : Nat → Int → Int → (Int → Int) → (Int → Int) × Int := foldPairs (-1) (0 ≤ ·)

/-- The loops that clear a range of buckets. -/
def clear (first last : Int) (cvec : Int → Int) : Int → Int :=
  fun j => if first ≤ j ∧ j < last then 0 else cvec j

def growOut (hist : HistStor) : Except Fault HistStor := do
  let size : Int := hist.size
  let zero := size / 2
  let topHalf := zero + (size - zero + 1) / 2
  let bottomHalf := (size - zero) / 2
  let (cvec, lowPair) := pairDown (zero - bottomHalf).toNat (zero - 1) (zero - 1) hist.cvec
  if lowPair ≠ 0 ∧ lowPair ≠ -1 ∧ lowPair ≠ -2 then throw .assertion
  let cvec := clear 0 bottomHalf cvec
  let (cvec, highPair) := pairUp size (topHalf - zero).toNat zero zero cvec
  if highPair ≠ size ∧ highPair ≠ size + 1 then throw .assertion
  return { hist with
    cvec := clear topHalf size cvec
    maxBucket := hist.maxBucket * 2, minBucket := hist.minBucket * 2
    bucketSize := hist.bucketSize * 2 }

def growConvert (hist : HistStor) : HistStor :=
  let size : Int := hist.size
  let half := (size + 1) / 2
  let (cvec, _) := pairDown (size - half).toNat (size - 1) (size - 1) hist.cvec
  { hist with
    cvec := clear 0 half cvec, minBucket := -hist.maxBucket, bucketSize := hist.bucketSize * 2 }

def growUp (hist : HistStor) : Except Fault HistStor := do
  let size : Int := hist.size
  let half := (size + 1) / 2
  let (cvec, pair) := pairUp size half.toNat 0 0 hist.cvec
  if pair ≠ size ∧ pair ≠ size + 1 then throw .assertion
  return { hist with
    cvec := clear half size cvec, maxBucket := hist.maxBucket * 2
    bucketSize := hist.bucketSize * 2 }

/-- The loops that grow while a value is out of range. -/
def growWhile (out : HistStor → Prop) [DecidablePred out]
    (grow : HistStor → Except Fault HistStor) : Nat → HistStor → Except Fault HistStor
  | fuel, hist =>
    if out hist then
      match fuel with
      | 0 => .error .endless
      | fuel + 1 => do growWhile out grow fuel (← grow hist)
    else .ok hist

/-- The part of `sample` that makes room. -/
def makeRoom (hist : HistStor) (val : Int) : Except Fault HistStor :=
  if val < hist.minBucket then
    let hist := if hist.minBucket = 0 then hist.growConvert else hist
    growWhile (val < ·.minBucket) growOut (hist.minBucket - val).toNat hist
  else if toDouble (hist.maxBucket + hist.bucketSize) ≤ val then
    growWhile (fun hist => toDouble (hist.maxBucket + hist.bucketSize) ≤ val)
      (if hist.minBucket = 0 then growUp else growOut)
      ((val + 1 - (hist.maxBucket + hist.bucketSize)).toNat + 1) hist
  else .ok hist

/-- The size of the buckets is a power of two, so that the division is exact. -/
def sample (hist : HistStor) (val number : Int) : Except Fault HistStor :=
  if hist.maxBucket ≤ hist.minBucket then .error .assertion
  else do
    let hist ← hist.makeRoom val
    let index := toDouble (val - hist.minBucket) / hist.bucketSize
    if index < 0 ∨ hist.size ≤ index then throw .assertion
    return { hist with
      cvec := fun j => if j = index then toDouble (hist.cvec j + number) else hist.cvec j
      samples := toDouble (hist.samples + number), log := hist.log ++ [(val, number)] }

/-! ### Folding -/

/-- A counter, or zero out of range. -/
def counter (hist : HistStor) (i : Int) : Int := if 0 ≤ i ∧ i < hist.size then hist.cvec i else 0

theorem foldPairs_eq {step : Int} (unit : step = 1 ∨ step = -1) (inside : Int → Bool) (count : Nat)
    {i pair : Int} (after : 0 ≤ (pair - i) * step) (cvec : Int → Int) :
    foldPairs step inside count i pair cvec = (fun j =>
      if 0 ≤ (j - i) * step ∧ (j - i) * step < count then
        toDouble (cvec (pair + 2 * (j - i)) +
          if inside (pair + 2 * (j - i) + step) then cvec (pair + 2 * (j - i) + step) else 0)
      else cvec j, pair + 2 * step * count) := by
  induction count generalizing i pair cvec with
  | zero =>
    rw [foldPairs]
    refine Prod.ext (funext fun j => ?_) (by simp)
    exact (if_neg (by omega)).symm
  | succ count hypothesis =>
    rw [foldPairs, hypothesis (by obtain rfl | rfl := unit <;> omega)]
    refine Prod.ext (funext fun j => ?_) (by obtain rfl | rfl := unit <;> dsimp only <;> omega)
    have same : pair + 2 * step + 2 * (j - (i + step)) = pair + 2 * (j - i) := by omega
    have range : (0 ≤ (j - (i + step)) * step ∧ (j - (i + step)) * step < count) ↔
        j ≠ i ∧ 0 ≤ (j - i) * step ∧ (j - i) * step < (count + 1 : Nat) := by
      obtain rfl | rfl := unit <;> omega
    dsimp only
    rw [same]
    by_cases now : 0 ≤ (j - i) * step ∧ (j - i) * step < (count + 1 : Nat)
    · rw [if_pos now]
      by_cases first : j = i
      · have whole : pair + 2 * (j - i) = pair := by omega
        rw [if_neg fun later => (range.mp later).1 first, if_pos first, whole]
      · -- the counters of the pair are not yet overwritten
        have apart : ¬ pair + 2 * (j - i) = i ∧ ¬ pair + 2 * (j - i) + step = i := by
          obtain rfl | rfl := unit <;> omega
        rw [if_pos (range.mpr ⟨first, now⟩), if_neg apart.1, if_neg apart.2]
    · have first : j ≠ i := by
        rintro rfl
        exact now (by simp)
      rw [if_neg now, if_neg fun later => now (range.mp later).2, if_neg first]

/-- The range has `zero` buckets below zero: none, or one less than half of them and an even
number. -/
structure Scaled (hist : HistStor) (zero : Int) : Prop where
  positive : 0 < hist.bucketSize
  lower : hist.minBucket = -zero * hist.bucketSize
  upper : hist.maxBucket = (hist.size - 1 - zero) * hist.bucketSize
  middle : zero = 0 ∨ 0 < zero ∧ hist.size = 2 * zero + 1 ∧ zero % 2 = 0
  two : 2 ≤ hist.size

/-- Every pair of buckets around zero is folded into one. -/
structure Folds (zero : Int) (hist next : HistStor) : Prop where
  counter : ∀ i, next.counter i =
    toDouble (hist.counter (2 * i - zero) + hist.counter (2 * i - zero + 1))
  bucketSize : next.bucketSize = hist.bucketSize * 2
  minBucket : next.minBucket = hist.minBucket * 2
  maxBucket : next.maxBucket = hist.maxBucket * 2
  size : next.size = hist.size
  samples : next.samples = hist.samples
  log : next.log = hist.log

theorem growUp_spec {hist : HistStor} (unsigned : hist.minBucket = 0) (two : 2 ≤ hist.size) :
    ∃ next, hist.growUp = .ok next ∧ Folds 0 hist next := by
  rw [growUp, pairUp, foldPairs_eq (.inl rfl) _ _ (by simp)]
  dsimp only
  rw [if_neg (by omega)]
  refine ⟨_, rfl, ⟨fun i => ?_, rfl, by simp [unsigned], rfl, rfl, rfl, rfl⟩⟩
  simp only [counter, clear]
  have none : toDouble 0 = 0 := rfl
  grind

theorem growOut_spec {hist : HistStor} {zero : Int} (odd : hist.size = 2 * zero + 1)
    (even : zero % 2 = 0) : ∃ next, hist.growOut = .ok next ∧ Folds zero hist next := by
  have half : (hist.size : Int) / 2 = zero := by omega
  have top : (hist.size - zero + 1) / 2 = zero / 2 + 1 := by omega
  have bottom : (hist.size - zero) / 2 = zero / 2 := by omega
  rw [growOut]
  simp only [half, top, bottom, pairUp, pairDown, foldPairs_eq (.inl rfl), foldPairs_eq (.inr rfl),
    Int.sub_self, Int.zero_mul, Int.le_refl]
  rw [if_neg (by omega), if_neg (by omega)]
  refine ⟨_, rfl, ⟨fun i => ?_, rfl, rfl, rfl, rfl, rfl, rfl⟩⟩
  simp only [counter, clear]
  have none : toDouble 0 = 0 := rfl
  grind

/-! ### Counts -/

/-- The least value of a bucket. -/
def edge (hist : HistStor) (i : Int) : Int := hist.minBucket + i * hist.bucketSize

/-- The total of the samples between two bounds. -/
def between (low high : Int) (calls : List (Int × Int)) : Int :=
  (calls.map fun call => if low ≤ call.1 ∧ call.1 < high then call.2 else 0).sum

/-- A bound for the counters. -/
def total (log : List (Int × Int)) : Nat := (log.map fun entry => entry.2.natAbs).sum

/-- The counters say how many samples belong into each bucket, and none belongs elsewhere. -/
structure Counted (hist : HistStor) : Prop where
  few : total hist.log ≤ 2 ^ 53
  counter : ∀ i, hist.counter i = between (hist.edge i) (hist.edge (i + 1)) hist.log
  ranged : ∀ entry ∈ hist.log,
    hist.minBucket ≤ entry.1 ∧ entry.1 < hist.maxBucket + hist.bucketSize

variable {hist next : HistStor} {zero val : Int}

theorem natAbs_sum_le (part : Int × Int → Int)
    (parts : ∀ entry, (part entry).natAbs ≤ entry.2.natAbs) (log : List (Int × Int)) :
    (log.map part).sum.natAbs ≤ total log := by
  induction log with
  | nil => exact Nat.le_refl 0
  | cons entry log hypothesis =>
    have own := parts entry
    rw [total, map_cons, map_cons, sum_cons, sum_cons, ← total]
    omega

theorem toDouble_between (low high : Int) {log : List (Int × Int)} (few : total log ≤ 2 ^ 53) :
    toDouble (between low high log) = between low high log :=
  toDouble_eq ((natAbs_sum_le _ (fun _ => by split <;> omega) log).trans few)

theorem between_add {low middle high : Int} (left : low ≤ middle) (right : middle ≤ high)
    (calls : List (Int × Int)) :
    between low middle calls + between middle high calls = between low high calls := by
  rw [between, between, ← sum_map_add]
  refine congrArg sum (map_congr_left fun call _ => ?_)
  split_ifs <;> omega

theorem Scaled.edge_le (scaled : hist.Scaled zero) {i j : Int} (less : i ≤ j) :
    hist.edge i ≤ hist.edge j :=
  Int.add_le_add_left (Int.mul_le_mul_of_nonneg_right less (Int.le_of_lt scaled.positive)) _

theorem Scaled.edge_size (scaled : hist.Scaled zero) :
    hist.edge hist.size = hist.maxBucket + hist.bucketSize := by
  rw [edge, scaled.lower, scaled.upper]
  ring

/-- The bucket that a value belongs into. -/
theorem Scaled.bucket (scaled : hist.Scaled zero) (val i : Int) :
    (val - hist.minBucket) / hist.bucketSize = i ↔
      hist.edge i ≤ val ∧ val < hist.edge (i + 1) := by
  have low := Int.le_ediv_iff_mul_le (a := i) (b := val - hist.minBucket) scaled.positive
  have high := Int.ediv_lt_iff_lt_mul (a := val - hist.minBucket) (b := i + 1) scaled.positive
  rw [edge, edge]
  omega

theorem Folds.scaled (folds : Folds zero hist next) (scaled : hist.Scaled zero) :
    next.Scaled zero := by
  obtain ⟨_, lower, upper, _⟩ := scaled
  refine ⟨?_, ?_, ?_, ?_, ?_⟩
  · rw [folds.bucketSize]
    omega
  · rw [folds.minBucket, folds.bucketSize, lower, Int.mul_assoc]
  · rw [folds.maxBucket, folds.bucketSize, folds.size, upper, Int.mul_assoc]
  · rwa [folds.size]
  · rwa [folds.size]

theorem Scaled.bounds (scaled : hist.Scaled zero) :
    hist.minBucket ≤ 0 ∧ 0 < hist.maxBucket + hist.bucketSize ∧ hist.minBucket < hist.maxBucket ∧
      (hist.minBucket = 0 ↔ zero = 0) := by
  obtain ⟨positive, lower, _, middle, _⟩ := scaled
  have below : 0 ≤ zero * hist.bucketSize := Int.mul_nonneg (by omega) (Int.le_of_lt positive)
  have above : 0 < (hist.size - 1 - zero) * hist.bucketSize := Int.mul_pos (by omega) positive
  rw [Int.neg_mul] at lower
  refine ⟨by omega, by omega, by omega, ?_⟩
  rw [lower, Int.neg_eq_zero, Int.mul_eq_zero]
  exact or_iff_left (Int.ne_of_gt positive)

/-- A signed range is symmetric, with two buckets at least on each side. -/
theorem Scaled.symmetric (scaled : hist.Scaled zero) (signed : zero ≠ 0) :
    hist.maxBucket = -hist.minBucket ∧ 2 * hist.bucketSize ≤ -hist.minBucket := by
  obtain ⟨positive, lower, upper, middle, _⟩ := scaled
  have same : (hist.size : Int) - 1 - zero = zero := by omega
  have wide := Int.mul_le_mul_of_nonneg_right (show 2 ≤ zero by omega) (Int.le_of_lt positive)
  rw [lower, upper, same, Int.neg_mul, Int.neg_neg]
  exact ⟨rfl, wide⟩

theorem Folds.counted (folds : Folds zero hist next) (scaled : hist.Scaled zero)
    (counted : hist.Counted) : next.Counted := by
  have few : total next.log ≤ 2 ^ 53 := folds.log ▸ counted.few
  refine ⟨few, fun i => ?_, fun entry logged => ?_⟩
  · have edges : ∀ i, next.edge i = hist.edge (2 * i - zero) := by
      intro i
      rw [edge, edge, folds.minBucket, folds.bucketSize, scaled.lower]
      ring
    have last : 2 * (i + 1) - zero = 2 * i - zero + 1 + 1 := by omega
    rw [folds.counter, counted.counter, counted.counter,
      between_add (scaled.edge_le (by omega)) (scaled.edge_le (by omega)), edges, edges, last,
      folds.log, toDouble_between _ _ counted.few]
  · rw [folds.log] at logged
    have ranged := counted.ranged entry logged
    have bounds := scaled.bounds
    rw [folds.minBucket, folds.maxBucket, folds.bucketSize]
    omega

theorem Scaled.grow (scaled : hist.Scaled zero) :
    ∃ next, (if hist.minBucket = 0 then growUp else growOut) hist = .ok next ∧
      Folds zero hist next := by
  by_cases unsigned : hist.minBucket = 0
  · rw [if_pos unsigned]
    cases scaled.bounds.2.2.2.mp unsigned
    exact growUp_spec unsigned scaled.two
  · rw [if_neg unsigned]
    obtain none | ⟨-, odd, even⟩ := scaled.middle
    · exact absurd (scaled.bounds.2.2.2.mpr none) unsigned
    · exact growOut_spec odd even

/-! ### Making room -/

/-- The end of the range is a double. -/
def Ends (hist : HistStor) (zero : Int) : Prop :=
  hist.maxBucket + hist.bucketSize ≤ if zero = 0 then 2 ^ 51 else 2 ^ 52

theorem Ends.toDouble_eq (ends : hist.Ends zero) (scaled : hist.Scaled zero) :
    toDouble (hist.maxBucket + hist.bucketSize) = hist.maxBucket + hist.bucketSize := by
  have bounds := scaled.bounds
  rw [Ends] at ends
  exact Stats.toDouble_eq (by split at ends <;> omega)

/-- The counters are right, and the range is one that the code can make. -/
structure Holds (hist : HistStor) (zero : Int) : Prop where
  scaled : hist.Scaled zero
  counted : hist.Counted
  ends : hist.Ends zero

/-- The histogram after its range has grown. -/
structure Grown (zero : Int) (hist next : HistStor) : Prop where
  holds : next.Holds zero
  size : next.size = hist.size
  samples : next.samples = hist.samples
  log : next.log = hist.log

/-- One round of a loop: the histogram grows, and the distance to a value becomes smaller. -/
def Grows (zero : Int) (gap : HistStor → Int) (grow : HistStor → Except Fault HistStor)
    (hist : HistStor) : Prop :=
  0 < gap hist ∧ ∃ next, grow hist = .ok next ∧ Folds zero hist next ∧ next.Ends zero ∧
    gap next < gap hist

theorem growWhile_spec (gap : HistStor → Int) {out : HistStor → Prop} [DecidablePred out]
    {grow : HistStor → Except Fault HistStor}
    (grows : ∀ {hist : HistStor}, hist.Holds zero → out hist → Grows zero gap grow hist)
    (fuel : Nat) (holds : hist.Holds zero) (enough : gap hist ≤ fuel) :
    ∃ next, growWhile out grow fuel hist = .ok next ∧ ¬ out next ∧ Grown zero hist next := by
  induction fuel generalizing hist with
  | zero =>
    have inside : ¬ out hist := fun more => absurd (grows holds more).1 (by omega)
    rw [growWhile, if_neg inside]
    exact ⟨hist, rfl, inside, holds, rfl, rfl, rfl⟩
  | succ _ hypothesis =>
    rw [growWhile]
    by_cases more : out hist
    · obtain ⟨-, _, grown, folds, ends, closer⟩ := grows holds more
      obtain ⟨next, looped, inside, holds, size, samples, log⟩ := hypothesis
        ⟨folds.scaled holds.scaled, folds.counted holds.scaled holds.counted, ends⟩ (by omega)
      refine ⟨next, ?_, inside, holds, size.trans folds.size, samples.trans folds.samples,
        log.trans folds.log⟩
      rw [if_pos more, grown]
      exact looped
    · rw [if_neg more]
      exact ⟨hist, rfl, more, holds, rfl, rfl, rfl⟩

theorem Holds.growDown (holds : hist.Holds zero) (small : val.natAbs ≤ 2 ^ 50)
    (signed : zero ≠ 0) :
    ∃ next, growWhile (val < ·.minBucket) growOut (hist.minBucket - val).toNat hist = .ok next ∧
      ¬ val < next.minBucket ∧ Grown zero hist next := by
  refine growWhile_spec (fun hist => hist.minBucket - val)
    (fun {hist} holds out => ⟨Int.sub_pos.mpr out, ?_⟩) _ holds (by omega)
  obtain ⟨_, _, -, unsigned⟩ := holds.scaled.bounds
  have negative : hist.minBucket ≠ 0 := fun none => signed (unsigned.mp none)
  obtain ⟨_, _⟩ := holds.scaled.symmetric signed
  obtain ⟨next, grown, folds⟩ := holds.scaled.grow
  rw [if_neg negative] at grown
  refine ⟨next, grown, folds, ?_, ?_⟩
  · rw [Ends, if_neg signed, folds.maxBucket, folds.bucketSize]
    omega
  · dsimp only
    rw [folds.minBucket]
    omega

theorem Holds.growAbove (holds : hist.Holds zero) (small : val.natAbs ≤ 2 ^ 50) :
    ∃ next, growWhile (fun hist => toDouble (hist.maxBucket + hist.bucketSize) ≤ val)
        (if hist.minBucket = 0 then growUp else growOut)
        ((val + 1 - (hist.maxBucket + hist.bucketSize)).toNat + 1) hist = .ok next ∧
      ¬ toDouble (next.maxBucket + next.bucketSize) ≤ val ∧ Grown zero hist next := by
  have same := holds.scaled.bounds.2.2.2
  refine growWhile_spec (fun hist => val + 1 - (hist.maxBucket + hist.bucketSize))
    (fun {hist} holds out => ?_) _ holds (by omega)
  rw [holds.ends.toDouble_eq holds.scaled] at out
  obtain ⟨_, _, -, unsigned⟩ := holds.scaled.bounds
  obtain ⟨next, grown, folds⟩ := holds.scaled.grow
  rw [if_congr (unsigned.trans same.symm) rfl rfl] at grown
  refine ⟨by dsimp only; omega, next, grown, folds, ?_, ?_⟩
  · rw [Ends, folds.maxBucket, folds.bucketSize]
    split <;> omega
  · dsimp only
    rw [folds.maxBucket, folds.bucketSize]
    omega

theorem growConvert_spec (holds : hist.Holds 0) (empty : hist.log = [])
    {half : Int} (halves : (hist.size : Int) = 4 * half + 1) :
    Grown (2 * half) hist hist.growConvert := by
  obtain ⟨scaled, counted, ends⟩ := holds
  obtain ⟨_, above, _⟩ := scaled.bounds
  obtain ⟨_, _, upper, -, two⟩ := scaled
  have zeros : ∀ i, 0 ≤ i → i < (hist.size : Int) → hist.cvec i = 0 := by
    intro i low high
    have none := counted.counter i
    rwa [counter, if_pos ⟨low, high⟩, empty] at none
  have none : hist.growConvert.log = [] := empty
  refine ⟨⟨⟨?_, ?_, ?_, ?_, two⟩, ⟨counted.few, fun i => ?_, by simp [none]⟩, ?_⟩, rfl, rfl, rfl⟩
  · simp only [growConvert]
    omega
  · simp only [growConvert, upper, halves]
    ring
  · simp only [growConvert, upper, halves]
    ring
  · simp only [growConvert]
    omega
  · rw [none]
    simp only [between, map_nil, sum_nil, counter, growConvert, clear, pairDown,
      foldPairs_eq (.inr rfl), Int.sub_self, Int.zero_mul, Int.le_refl]
    have zero : toDouble 0 = 0 := rfl
    grind
  · rw [Ends, if_pos rfl] at ends
    rw [Ends, if_neg (by omega)]
    simp only [growConvert]
    omega

/-- The states that the allowed samples lead to. -/
structure Sound (hist : HistStor) (zero : Int) : Prop where
  holds : hist.Holds zero
  unsigned : zero = 0 → ∀ entry ∈ hist.log, 0 ≤ entry.1
  total : hist.samples = (hist.log.map Prod.snd).sum

/-- A negative sample has to be the first, or to follow a negative one that was. -/
def Signs (hist : HistStor) (val : Int) : Prop :=
  0 ≤ val ∨ hist.size % 4 = 1 ∧ ∀ first ∈ hist.log.head?, first.1 < 0
deriving Decidable

/-- The bounds keep every difference and every counter a double. -/
def Allowed (hist : HistStor) (call : Int × Int) : Prop :=
  hist.Signs call.1 ∧ call.1.natAbs ≤ 2 ^ 50 ∧ total (hist.log ++ [call]) ≤ 2 ^ 53
deriving Decidable

theorem Sound.makeRoom (sound : hist.Sound zero) (allowed : hist.Signs val)
    (small : val.natAbs ≤ 2 ^ 50) :
    ∃ next zero, hist.makeRoom val = .ok next ∧ Grown zero hist next ∧ next.minBucket ≤ val ∧
      val < next.maxBucket + next.bucketSize ∧
      (zero = 0 → 0 ≤ val ∧ ∀ entry ∈ hist.log, 0 ≤ entry.1) := by
  obtain ⟨holds, unsigned, -⟩ := sound
  obtain ⟨_, _, -, negative⟩ := holds.scaled.bounds
  rw [HistStor.makeRoom]
  by_cases less : val < hist.minBucket
  · rw [if_pos less]
    -- the histogram that is grown: the converted one if this is the first negative sample
    have start : ∃ zero, zero ≠ 0 ∧
        Grown zero hist (if hist.minBucket = 0 then hist.growConvert else hist) := by
      split
      · cases negative.mp ‹_›
        have empty : hist.log = [] := by
          rcases logged : hist.log with _ | ⟨first, _⟩
          · rfl
          · have sign := unsigned rfl first (by rw [logged]; exact mem_cons_self)
            unfold Signs at allowed
            rw [logged] at allowed
            have signed : first.1 < 0 := (allowed.resolve_left (by omega)).2 first rfl
            omega
        have sized : hist.size % 4 = 1 := (allowed.resolve_left (by omega)).1
        have two := holds.scaled.two
        exact ⟨2 * (hist.size / 4), by omega, growConvert_spec holds empty (by omega)⟩
      · exact ⟨zero, fun still => absurd (negative.mpr still) ‹_›, holds, rfl, rfl, rfl⟩
    obtain ⟨zero, signed, holds, size, samples, log⟩ := start
    obtain ⟨next, looped, above, holds, sized, sampled, logged⟩ := holds.growDown small signed
    have bounds := holds.scaled.bounds
    exact ⟨next, zero, looped, ⟨holds, sized.trans size, sampled.trans samples, logged.trans log⟩,
      Int.not_lt.mp above, by omega, fun still => absurd still signed⟩
  · have signs : zero = 0 → 0 ≤ val ∧ ∀ entry ∈ hist.log, 0 ≤ entry.1 := fun still =>
      ⟨by have := negative.mpr still; omega, unsigned still⟩
    rw [if_neg less, holds.ends.toDouble_eq holds.scaled]
    by_cases out : hist.maxBucket + hist.bucketSize ≤ val
    · obtain ⟨next, looped, below, grown⟩ := holds.growAbove small
      have bounds := grown.holds.scaled.bounds
      rw [grown.holds.ends.toDouble_eq grown.holds.scaled] at below
      rw [if_pos out]
      exact ⟨next, zero, looped, grown, by omega, Int.not_le.mp below, signs⟩
    · rw [if_neg out]
      exact ⟨hist, zero, rfl, ⟨holds, rfl, rfl, rfl⟩, Int.not_lt.mp less, Int.not_le.mp out, signs⟩

theorem Holds.toDouble_eq (holds : hist.Holds zero) (small : val.natAbs ≤ 2 ^ 50)
    (above : hist.minBucket ≤ val) : toDouble (val - hist.minBucket) = val - hist.minBucket := by
  obtain ⟨scaled, -, ends⟩ := holds
  have positive := scaled.positive
  obtain ⟨_, _, _, unsigned⟩ := scaled.bounds
  refine Stats.toDouble_eq ?_
  rw [Ends] at ends
  split at ends
  · have none := unsigned.mpr ‹_›
    omega
  · obtain ⟨_, _⟩ := scaled.symmetric ‹_›
    omega

theorem Sound.sample {call : Int × Int} (sound : hist.Sound zero) (allowed : hist.Allowed call) :
    ∃ next zero, hist.sample call.1 call.2 = .ok next ∧ next.Sound zero ∧
      next.log = hist.log ++ [call] ∧ next.size = hist.size := by
  obtain ⟨val, number⟩ := call
  obtain ⟨signed, small, few⟩ := allowed
  dsimp only at signed small
  obtain ⟨room, zero, made, ⟨holds, size, samples, log⟩, above, below, signs⟩ :=
    sound.makeRoom signed small
  have exact := holds.toDouble_eq small above
  obtain ⟨scaled, counted, ends⟩ := holds
  have ordered : ¬ hist.maxBucket ≤ hist.minBucket :=
    Int.not_le.mpr sound.holds.scaled.bounds.2.2.1
  rw [HistStor.sample, if_neg ordered, made, ok_bind, exact]
  have inside : ¬ ((val - room.minBucket) / room.bucketSize < 0 ∨
      room.size ≤ (val - room.minBucket) / room.bucketSize) := by
    have low := Int.ediv_nonneg (Int.sub_nonneg.mpr above) (Int.le_of_lt scaled.positive)
    have high := (Int.ediv_lt_iff_lt_mul scaled.positive).mpr
      (Int.sub_left_lt_of_lt_add (scaled.edge_size ▸ below))
    omega
  rw [← log] at few
  dsimp only
  rw [if_neg inside]
  refine ⟨_, zero, rfl, ⟨⟨?_, ⟨few, fun i => ?_, ?_⟩, ends⟩, ?_, ?_⟩, by rw [← log], size⟩
  · exact { scaled with }
  · have rounded := toDouble_between (room.edge i) (room.edge (i + 1)) few
    have sum : between (room.edge i) (room.edge (i + 1)) (room.log ++ [(val, number)]) =
        room.counter i + if (val - room.minBucket) / room.bucketSize = i then number else 0 := by
      rw [between, map_append, sum_append, ← between, ← counted.counter, map_singleton,
        sum_singleton, if_congr (scaled.bucket val i) rfl rfl]
    refine Eq.trans ?_ sum.symm
    rw [sum] at rounded
    simp only [counter] at rounded ⊢
    split_ifs at rounded ⊢ <;> grind
  · intro entry logged
    rcases mem_append.mp logged with old | new
    · exact counted.ranged entry old
    · cases mem_singleton.mp new
      exact ⟨above, below⟩
  · intro unsigned entry logged
    obtain ⟨sign, signs⟩ := signs unsigned
    rcases mem_append.mp logged with old | new
    · exact signs entry (log ▸ old)
    · cases mem_singleton.mp new
      exact sign
  · have sum : room.samples + number = ((room.log ++ [(val, number)]).map Prod.snd).sum := by
      rw [samples, log, sound.total, map_append, sum_append, map_singleton, sum_singleton]
    dsimp only
    rw [sum, toDouble_eq ((natAbs_sum_le _ (fun _ => Nat.le_refl _) _).trans few)]

theorem Sound.cvec_eq (sound : hist.Sound zero) {i : Nat} (inside : i < hist.size) :
    hist.cvec i = between (hist.edge i) (hist.edge (i + 1)) hist.log := by
  rw [← sound.holds.counted.counter, counter, if_pos (by omega)]

theorem Sound.sum_eq (sound : hist.Sound zero) :
    ∑ i ∈ Finset.range hist.size, hist.cvec i = hist.samples := by
  have scaled := sound.holds.scaled
  have sums : ∀ count ≤ hist.size, ∑ i ∈ Finset.range count, hist.cvec i =
      between (hist.edge 0) (hist.edge count) hist.log := by
    intro count inside
    induction count with
    | zero =>
      have empty := between_add (Int.le_refl (hist.edge 0)) (Int.le_refl _) hist.log
      exact (add_eq_left.mp empty).symm
    | succ count hypothesis =>
      rw [Finset.sum_range_succ, hypothesis (by omega), sound.cvec_eq (by omega),
        between_add (scaled.edge_le (by omega)) (scaled.edge_le (by omega))]
      rfl
  rw [sums _ le_rfl, scaled.edge_size, sound.total, between]
  refine congrArg sum (map_congr_left fun call logged => if_pos ?_)
  have ranged := sound.holds.counted.ranged call logged
  simp only [edge]
  omega

theorem reset_sound {buckets : Nat} (two : 2 ≤ buckets) (few : buckets + 1 < 2 ^ 31) :
    (reset buckets).Sound 0 := by
  have top : toDouble ((buckets : Int) - 1) = buckets - 1 := toDouble_eq (by omega)
  refine ⟨⟨⟨Int.one_pos, rfl, ?_, .inl rfl, two⟩,
    ⟨Nat.zero_le _, fun i => ite_self 0, by simp [reset]⟩, ?_⟩, by simp [reset], rfl⟩
  · rw [reset, top]
    simp
  · rw [Ends, reset, top, if_pos rfl]
    dsimp only
    omega

theorem Sound.of_run {start : HistStor} (sound : start.Sound zero) {calls : List (Int × Int)}
    (run : Run (fun hist call => hist.sample call.1 call.2) Allowed start calls hist) :
    ∃ zero, hist.Sound zero ∧ hist.log = start.log ++ calls ∧ hist.size = start.size := by
  induction run generalizing zero with
  | nil => exact ⟨zero, sound, (append_nil _).symm, rfl⟩
  | cons meets taken _ hypothesis =>
    obtain ⟨_, _, sampled, after, log, size⟩ := sound.sample meets
    cases sampled.symm.trans taken
    obtain ⟨last, ended, logged, sized⟩ := hypothesis after
    refine ⟨last, ended, ?_, sized.trans size⟩
    rw [logged, log, append_assoc, singleton_append]

/-- Every sequence of samples that are not negative is counted right, and, with `4 m + 1` buckets,
every sequence whose first sample is negative, as long as no sum is rounded. The indices of the
loops are integers of 32 bits. -/
theorem samples_counted {buckets : Nat} (two : 2 ≤ buckets) (few : buckets + 1 < 2 ^ 31)
    {calls : List (Int × Int)}
    (run : Run (fun hist call => hist.sample call.1 call.2) Allowed (reset buckets) calls hist) :
    hist.size = buckets ∧
      (∀ i : Nat, i < buckets → hist.cvec i = between (hist.edge i) (hist.edge (i + 1)) calls) ∧
      ∑ i ∈ Finset.range buckets, hist.cvec i = (calls.map Prod.snd).sum ∧
      hist.samples = (calls.map Prod.snd).sum ∧
      ∀ call, hist.Allowed call → ∃ next, hist.sample call.1 call.2 = .ok next := by
  obtain ⟨_, sound, log, size⟩ := (reset_sound two few).of_run run
  replace log : hist.log = calls := log
  replace size : hist.size = buckets := size
  have total := sound.total
  rw [log] at total
  refine ⟨size, fun i below => ?_, ?_, total, fun call allowed => ?_⟩
  · rw [sound.cvec_eq (by omega), log]
  · rw [← size, sound.sum_eq, total]
  · obtain ⟨next, -, sampled, -⟩ := sound.sample allowed
    exact ⟨next, sampled⟩

/-- With five buckets, a first sample of minus three makes the range signed, and a sample of forty
makes it grow outward. -/
theorem samples_counted_signed : ∃ hist,
    Run (fun hist call => hist.sample call.1 call.2) Allowed (reset 5)
      [(-3, 1), (7, 2), (40, 1)] hist ∧ hist.minBucket < 0 ∧
      hist.cvec 2 = between (hist.edge 2) (hist.edge 3) [(-3, 1), (7, 2), (40, 1)] := by
  refine Run.exists_checked (fun hist => hist.minBucket < 0)
    (by decide +kernel) fun _ run checked => ?_
  exact ⟨checked, (samples_counted (by decide) (by decide) run).2.1 2 (by decide)⟩

/-- With three buckets, a sample of zero and then one of minus one: the conversion clears the bucket
that has the zero, so that the counters sum to one after two samples. -/
theorem zero_lost : ∃ hist,
    Run (fun hist call => hist.sample call.1 call.2) (fun _ _ => True) (reset 3) [(0, 1), (-1, 1)]
      hist ∧ hist.samples = 2 ∧ ∑ i ∈ Finset.range 3, hist.cvec i = 1 := by
  exact Run.exists_check (by decide +kernel)

end HistStor

end Gem5.Base.Stats
