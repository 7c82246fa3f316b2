/-
This file models the tag store with flexible insertion and promotion
(`mem/cache/tags/flip.cc`) on the saturating counters it keeps its positions in
(`mem/cache/tags/sat_counter.hh`), and tells which of its indices can leave their
arrays. A block counts its promotions up to a limit; the counters of first reuses
have no place for a block that has reached the limit. In a set of one way the
counters of positions do not saturate.
-/

import Gem5.Mem.CacheSet

namespace Gem5.Mem

open Base Library List Function

/-! ### Saturating counters -/

structure SaturatingCounter where
  max : BitVec 32
  counter : BitVec 32
  start : BitVec 32
deriving DecidableEq, Repr

namespace SaturatingCounter

/-- The constructor compares the counter with its maximum before the counter has been set; what it
holds by then is the argument `found`. -/
def create (found max start : BitVec 32) : SaturatingCounter :=
  ⟨max, if max < found then max else start, start⟩

def increment (sat : SaturatingCounter) (n : BitVec 32) : SaturatingCounter :=
  if sat.counter ≤ sat.max - n then { sat with counter := sat.counter + n }
  else { sat with counter := sat.max }

def decrement (sat : SaturatingCounter) (n : BitVec 32) : SaturatingCounter :=
  if n ≤ sat.counter then { sat with counter := sat.counter - n } else { sat with counter := 0 }

def reset (sat : SaturatingCounter) : SaturatingCounter := { sat with counter := sat.start }

variable {sat : SaturatingCounter}

theorem increment_bounds (sat : SaturatingCounter) (n : BitVec 32) :
    (sat.increment n).max = sat.max ∧ (sat.increment n).start = sat.start := by
  unfold increment
  split <;> exact ⟨rfl, rfl⟩

theorem decrement_bounds (sat : SaturatingCounter) (n : BitVec 32) :
    (sat.decrement n).max = sat.max ∧ (sat.decrement n).start = sat.start := by
  unfold decrement
  split <;> exact ⟨rfl, rfl⟩

/-- A step up of at most the maximum saturates. -/
theorem increment_counter {n : BitVec 32} (moderate : n ≤ sat.max) :
    (sat.increment n).counter.toNat = min sat.max.toNat (sat.counter.toNat + n.toNat) := by
  have less : (sat.max - n).toNat = sat.max.toNat - n.toNat := BitVec.toNat_sub_of_le moderate
  rw [BitVec.le_def] at moderate
  rw [increment]
  split
  case isTrue room =>
    rw [BitVec.le_def, less] at room
    rw [BitVec.toNat_add, Nat.mod_eq_of_lt (by omega), min_eq_right (by omega)]
  case isFalse full =>
    rw [BitVec.le_def, less] at full
    show sat.max.toNat = _
    rw [min_eq_left (by omega)]

theorem decrement_counter (sat : SaturatingCounter) (n : BitVec 32) :
    (sat.decrement n).counter.toNat = sat.counter.toNat - n.toNat := by
  rw [decrement]
  split
  case isTrue above => exact BitVec.toNat_sub_of_le above
  case isFalse below =>
    rw [BitVec.le_def] at below
    exact (Nat.sub_eq_zero_of_le (by omega)).symm

end SaturatingCounter

/-- A counter that moves up only when the state machine beside it is at its maximum; the state
machine moves up by one and is reset instead of moving down. -/
structure ConservativeSaturatingCounter where
  base : SaturatingCounter
  sm : SaturatingCounter
deriving DecidableEq, Repr

namespace ConservativeSaturatingCounter

def create (found foundState max stateMax start stateStart : BitVec 32) :
    ConservativeSaturatingCounter :=
  ⟨.create found max start, .create foundState stateMax stateStart⟩

def increment (pos : ConservativeSaturatingCounter) (n : BitVec 32) :
    ConservativeSaturatingCounter :=
  let sm := pos.sm.increment 1
  if sm.counter = sm.max then ⟨pos.base.increment n, sm⟩ else ⟨pos.base, sm⟩

def decrement (pos : ConservativeSaturatingCounter) (n : BitVec 32) :
    ConservativeSaturatingCounter :=
  let sm := pos.sm.reset
  if sm.counter = 0 then ⟨pos.base.decrement n, sm⟩ else ⟨pos.base, sm⟩

def value (pos : ConservativeSaturatingCounter) : Nat := pos.base.counter.toNat

end ConservativeSaturatingCounter

/-! ### Counters that saturate -/

inductive CounterCall where
  | increment (n : BitVec 32)
  | decrement (n : BitVec 32)
  | reset

/-- A counter does not move up by more than its maximum. -/
def CounterCall.Moderate (max : BitVec 32) : CounterCall → Prop
  | increment n => n ≤ max
  | decrement _ | reset => True

def ConservativeSaturatingCounter.step (pos : ConservativeSaturatingCounter) :
    CounterCall → ConservativeSaturatingCounter
  | .increment n => pos.increment n
  | .decrement n => pos.decrement n
  | .reset => ⟨pos.base.reset, pos.sm⟩

namespace SaturatingCounter

def step (sat : SaturatingCounter) : CounterCall → SaturatingCounter
  | .increment n => sat.increment n
  | .decrement n => sat.decrement n
  | .reset => sat.reset

/-- A counter in its range. -/
structure Within (max : BitVec 32) (sat : SaturatingCounter) : Prop where
  kept : sat.max = max
  start : sat.start ≤ max
  counter : sat.counter ≤ max

variable {found foundState max stateMax start stateStart : BitVec 32} {call : CounterCall}
  {calls : List CounterCall} {sat : SaturatingCounter}

theorem within_create (fits : start ≤ max) : (create found max start).Within max := by
  refine ⟨rfl, fits, ?_⟩
  unfold create
  split
  · exact BitVec.le_refl max
  · exact fits

theorem Within.increment {n : BitVec 32} (within : sat.Within max) (moderate : n ≤ max) :
    (sat.increment n).Within max := by
  obtain ⟨rfl, fits, _⟩ := within
  have kept := sat.increment_bounds n
  refine ⟨kept.1, kept.2 ▸ fits, ?_⟩
  rw [BitVec.le_def, increment_counter moderate]
  exact min_le_left ..

theorem Within.decrement (within : sat.Within max) (n : BitVec 32) :
    (sat.decrement n).Within max := by
  obtain ⟨rfl, fits, counter⟩ := within
  have kept := sat.decrement_bounds n
  refine ⟨kept.1, kept.2 ▸ fits, ?_⟩
  rw [BitVec.le_def, decrement_counter]
  exact (Nat.sub_le ..).trans counter

theorem Within.step (within : sat.Within max) (moderate : call.Moderate max) :
    (sat.step call).Within max := by
  cases call with
  | increment => exact within.increment moderate
  | decrement n => exact within.decrement n
  | reset => exact ⟨within.kept, within.start, within.start⟩

theorem Within.conservative {pos : ConservativeSaturatingCounter} (within : pos.base.Within max)
    (moderate : call.Moderate max) : (pos.step call).base.Within max := by
  cases call with
  | increment =>
    rw [ConservativeSaturatingCounter.step, ConservativeSaturatingCounter.increment]
    split
    · exact within.increment moderate
    · exact within
  | decrement n =>
    rw [ConservativeSaturatingCounter.step, ConservativeSaturatingCounter.decrement]
    split
    · exact within.decrement n
    · exact within
  | reset => exact ⟨within.kept, within.start, within.start⟩

/-- With a start in the range and no increment beyond the maximum, both kinds of counter stay in
their range, and the plain one moves as over the integers. -/
theorem counters_saturate (fits : start ≤ max) (moderate : ∀ call ∈ calls, call.Moderate max)
    (n : BitVec 32) :
    (calls.foldl step (create found max start)).counter ≤ max ∧
    (calls.foldl ConservativeSaturatingCounter.step
      (.create found foundState max stateMax start stateStart)).base.counter ≤ max ∧
    (n ≤ max → ((calls.foldl step (create found max start)).increment n).counter.toNat =
      min max.toNat ((calls.foldl step (create found max start)).counter.toNat + n.toNat)) ∧
    ((calls.foldl step (create found max start)).decrement n).counter.toNat =
      (calls.foldl step (create found max start)).counter.toNat - n.toNat := by
  have created : (create found max start).Within max := within_create fits
  have within : (calls.foldl step (create found max start)).Within max :=
    foldlRecOn calls step created fun _ sound call member => sound.step (moderate call member)
  have conservative : (calls.foldl ConservativeSaturatingCounter.step
      (.create found foundState max stateMax start stateStart)).base.Within max :=
    foldlRecOn (motive := fun pos : ConservativeSaturatingCounter => pos.base.Within max)
      calls _ created fun _ sound call member => sound.conservative (moderate call member)
  refine ⟨within.counter, conservative.counter, fun small => ?_, decrement_counter ..⟩
  rw [← within.kept] at small
  rw [increment_counter small, within.kept]

theorem counters_saturate_three :
    (∀ call ∈ [CounterCall.increment 3, .decrement 1], call.Moderate 3) ∧
    ([.increment 3, .decrement 1].foldl step (create 0 3 0)).counter ≤ 3 ∧
    ([.increment 3, .decrement 1].foldl ConservativeSaturatingCounter.step
      (.create 0 0 3 7 0 0)).base.counter ≤ 3 := by
  have moderate : ∀ call ∈ [CounterCall.increment 3, .decrement 1], call.Moderate 3 := by
    simp [CounterCall.Moderate]
  obtain ⟨plain, conservative, -⟩ := @counters_saturate 0 0 3 7 0 0 _ (by decide) moderate 0
  exact ⟨moderate, plain, conservative⟩

/-- The difference of the maximum and a larger step wraps around. -/
theorem increment_wraps : ((create 0 3 0).increment 4).counter = 4 := by decide

end SaturatingCounter

/-! ### The tag store -/

structure Flip where
  base : SetAssoc
  pos : List ConservativeSaturatingCounter
  frc : List (BitVec 64)
  posDistBlock : Nat
  blkMaxCount : BitVec 32
  detectTh : BitVec 32
  tagRefcount : Nat → BitVec 32

namespace Flip

/-- The parameters, and what the counters and the blocks hold before they are set. -/
structure Params where
  size : BitVec 64
  blkSize : BitVec 32
  assoc : BitVec 32
  blkMaxCount : BitVec 32
  startPrior : BitVec 32
  detectTh : BitVec 32
  found : BitVec 32
  foundState : BitVec 32
  foundRefcount : Nat → BitVec 32

def create (params : Params) : Except TagFault Flip := do
  let base ← SetAssoc.create params.size params.blkSize params.assoc
  return {
    base := base
    pos := replicate params.blkMaxCount.toNat
      (.create params.found params.foundState (params.assoc - 1) 7 params.startPrior 0)
    frc := replicate params.blkMaxCount.toNat 0
    posDistBlock := params.blkMaxCount.toNat + 1
    blkMaxCount := params.blkMaxCount
    detectTh := params.detectTh
    tagRefcount := params.foundRefcount }

def countReuse (flip : Flip) (index : Nat) : Except TagFault Flip :=
  match flip.frc[index]? with
  | none => .error .outOfRange
  | some count => .ok { flip with frc := flip.frc.set index (count + 1) }

/-- The hit of a block in the last way is a first reuse. -/
def countIfLast (flip : Flip) (lrustate index : Nat) : Except TagFault Flip :=
  if lrustate = flip.base.assoc - 1 then flip.countReuse index else .ok flip

/-- The block is moved to the position of its number of promotions. -/
def moveToPos (flip : Flip) (set blk index : Nat) : Except TagFault Flip :=
  match flip.pos[index]? with
  | none => .error .outOfRange
  | some pos => do
    let base ← flip.base.moveTo set blk pos.value
    if index < flip.posDistBlock then return { flip with base := base } else throw .outOfRange

/-- The block is moved to the first way. -/
def moveToFront (flip : Flip) (set blk index : Nat) : Except TagFault Flip := do
  let base ← flip.base.moveToHead set blk
  if index < flip.posDistBlock then return { flip with base := base } else throw .outOfRange

/-- The block is moved according to its number of promotions. -/
def moveByCount (flip : Flip) (set blk : Nat) (index : BitVec 32) : Except TagFault Flip :=
  if index < flip.blkMaxCount then flip.moveToPos set blk index.toNat
  else if index = flip.blkMaxCount then flip.moveToFront set blk index.toNat
  else .error .countTooLarge

/-- The hit of a block. -/
def promote (flip : Flip) (blk : Nat) : Except TagFault Flip := do
  let set := flip.base.set blk
  let lrustate ← CacheSet.getLRUState (flip.base.sets set) blk
  let curIndex := flip.tagRefcount blk
  let counted ← flip.countIfLast lrustate curIndex.toNat
  let newIndex := if curIndex < flip.blkMaxCount then curIndex + 1 else curIndex
  let promoted := { counted with tagRefcount := update counted.tagRefcount blk newIndex }
  promoted.moveByCount set blk newIndex

def accessBlock (flip : Flip) (addr : Addr) (isSecure : Bool) : Except TagFault Flip :=
  match flip.base.findBlock addr isSecure with
  | none => .ok flip
  | some blk => flip.promote blk

def insertBlock (flip : Flip) (addr : Addr) (blk : Nat) : Except TagFault Flip :=
  let inserted := { flip with
    base := flip.base.insertTag addr blk
    tagRefcount := update flip.tagRefcount blk 0 }
  inserted.moveToPos (flip.base.extractSet addr) blk 0

/-- One turn of the loop of `updatePriorityPointer`. -/
def updatePointer (flip : Flip) (i : Nat) : Except TagFault Flip :=
  match flip.frc[i]?, flip.pos[i]? with
  | some count, some pos =>
    .ok { flip with
      pos := flip.pos.set i (if flip.detectTh.toNat ≤ count.toNat then pos.decrement 1
        else pos.increment 1)
      frc := flip.frc.set i 0 }
  | _, _ => .error .outOfRange

def updatePriorityPointer (flip : Flip) : Except TagFault Flip :=
  (range flip.blkMaxCount.toNat).foldlM updatePointer flip

end Flip

/-- The calls of a cache, with the periodic event. A fill replaces the victim and marks the block
valid. -/
inductive FlipCall where
  | access (addr : Addr) (isSecure : Bool)
  | fill (addr : Addr) (isSecure : Bool)
  | invalidate (blk : Nat)
  | updatePriorityPointer
deriving DecidableEq, Repr

namespace Flip

def step (flip : Flip) : FlipCall → Except TagFault Flip
  | .access addr isSecure => flip.accessBlock addr isSecure
  | .fill addr isSecure => do
    let blk ← flip.base.findVictim addr
    let inserted ← flip.insertBlock addr blk
    return { inserted with base := inserted.base.markValid blk isSecure }
  | .invalidate blk => do
    let base ← flip.base.invalidate blk
    return { flip with base := base }
  | .updatePriorityPointer => flip.updatePriorityPointer

def Called (flip : Flip) : FlipCall → Prop
  | .invalidate blk => flip.base.isValid blk = true
  | _ => True

instance (flip : Flip) : (call : FlipCall) → Decidable (flip.Called call)
  | .invalidate _ => inferInstanceAs (Decidable (_ = true))
  | .access .. | .fill .. | .updatePriorityPointer => isTrue trivial

/-! ### The calls that leave an array -/

/-- The position to which a block is moved is past the ways. -/
def PastWays (flip : Flip) (index : Nat) : Prop :=
  flip.base.assoc = 1 ∧ ∃ pos, flip.pos[index]? = some pos ∧ pos.value ≠ 0

/-- The hit of a block in the last way that has been promoted as often as is counted; or, with one
way, the promotion to a position that has moved. -/
def HitOverruns (flip : Flip) (blk : Nat) : Prop :=
  ((flip.base.sets (flip.base.set blk))[flip.base.assoc - 1]? = some blk ∧
      flip.tagRefcount blk = flip.blkMaxCount) ∨
    ((flip.tagRefcount blk).toNat + 1 < flip.blkMaxCount.toNat ∧
      flip.PastWays ((flip.tagRefcount blk).toNat + 1))

/-- A fill has no position if no promotion is counted; or, with one way, its position has moved. -/
def Overruns (flip : Flip) : FlipCall → Prop
  | .access addr isSecure => ∃ blk, flip.base.findBlock addr isSecure = some blk ∧
      flip.HitOverruns blk
  | .fill _ _ => flip.blkMaxCount = 0 ∨ flip.PastWays 0
  | .invalidate _ => False
  | .updatePriorityPointer => False

/-! ### What every call keeps -/

/-- A position is below the number of ways unless there is only one. -/
def Positioned (assoc : Nat) (pos : ConservativeSaturatingCounter) : Prop :=
  pos.base.max.toNat + 1 = assoc ∧ (1 < assoc → pos.value < assoc)

structure Tidy (flip : Flip) : Prop where
  permuted : flip.base.Permuted
  positions : flip.pos.length = flip.blkMaxCount.toNat
  reuses : flip.frc.length = flip.blkMaxCount.toNat
  samples : flip.posDistBlock = flip.blkMaxCount.toNat + 1
  positioned : ∀ pos ∈ flip.pos, Positioned flip.base.assoc pos
  counted : ∀ blk, flip.base.isValid blk = true → flip.tagRefcount blk ≤ flip.blkMaxCount

/-- A call fails exactly in a case that is given, and with an index out of range. -/
def FailsIf (overruns : Prop) (result : Except TagFault Flip) : Prop :=
  overruns ∧ result = .error .outOfRange ∨ ¬overruns ∧ ∃ next, result = .ok next ∧ next.Tidy

variable {flip next : Flip} {blk set : Nat}

theorem Positioned.increment {assoc : Nat} {pos : ConservativeSaturatingCounter}
    (positioned : Positioned assoc pos) : Positioned assoc (pos.increment 1) := by
  obtain ⟨most, inside⟩ := positioned
  rw [ConservativeSaturatingCounter.increment]
  split
  · refine ⟨(congrArg _ (congrArg _ (pos.base.increment_bounds 1).1)).trans most, fun many => ?_⟩
    have moved := @SaturatingCounter.increment_counter pos.base 1 (by bv_omega)
    show (pos.base.increment 1).counter.toNat < assoc
    omega
  · exact ⟨most, inside⟩

theorem Positioned.decrement {assoc : Nat} {pos : ConservativeSaturatingCounter}
    (positioned : Positioned assoc pos) : Positioned assoc (pos.decrement 1) := by
  obtain ⟨most, inside⟩ := positioned
  rw [ConservativeSaturatingCounter.decrement]
  split
  · refine ⟨(congrArg _ (congrArg _ (pos.base.decrement_bounds 1).1)).trans most, fun many => ?_⟩
    have value : pos.base.counter.toNat < assoc := inside many
    show (pos.base.decrement 1).counter.toNat < assoc
    rw [SaturatingCounter.decrement_counter]
    omega
  · exact ⟨most, inside⟩

section

variable (tidy : flip.Tidy)
include tidy

theorem Tidy.setWays {blks : List Nat} (perm : blks.Perm (flip.base.sets set)) :
    Tidy { flip with base := flip.base.setWays set blks } :=
  { tidy with permuted := tidy.permuted.setWays perm }

theorem Tidy.moveToPos (bound : set < flip.base.numSets)
    (member : blk ∈ flip.base.sets set) {index : Nat} (few : index < flip.blkMaxCount.toNat) :
    (flip.PastWays index ∧ flip.moveToPos set blk index = .error .outOfRange) ∨
      (¬flip.PastWays index ∧ ∃ blks, blks.Perm (flip.base.sets set) ∧
        flip.moveToPos set blk index = .ok { flip with base := flip.base.setWays set blks }) := by
  obtain ⟨pos, here⟩ : ∃ pos, flip.pos[index]? = some pos :=
    ⟨_, getElem?_eq_getElem (tidy.positions ▸ few)⟩
  obtain ⟨_, inside⟩ := tidy.positioned pos (mem_of_getElem? here)
  rw [Flip.moveToPos, here]
  dsimp only
  by_cases past : flip.base.assoc ≤ pos.value
  · left
    have single : flip.base.assoc = 1 := by
      by_contra many
      have := inside (by omega)
      omega
    refine ⟨⟨single, pos, here, by omega⟩, ?_⟩
    rw [tidy.permuted.moveTo_outOfRange bound past]
    rfl
  · right
    obtain ⟨blks, moved, perm⟩ := tidy.permuted.moveTo bound member (Nat.lt_of_not_le past)
    refine ⟨?_, blks, perm, ?_⟩
    · rintro ⟨_, _, there, _⟩
      cases here.symm.trans there
      omega
    · rw [moved, ok_bind, if_pos (by rw [tidy.samples]; omega)]
      rfl

/-- The counts of first reuses and of the promotions of one block change. -/
theorem Tidy.record {frc : List (BitVec 64)}
    (length : frc.length = flip.frc.length) {count : BitVec 32} (few : count ≤ flip.blkMaxCount) :
    Tidy { flip with frc := frc, tagRefcount := update flip.tagRefcount blk count } := by
  refine { tidy with reuses := length.trans tidy.reuses, counted := fun other valid => ?_ }
  show update flip.tagRefcount blk count other ≤ flip.blkMaxCount
  rw [update_apply]
  split
  · exact few
  · exact tidy.counted other valid

theorem Tidy.moveByCount (bound : set < flip.base.numSets)
    (member : blk ∈ flip.base.sets set) {count : BitVec 32} (few : count ≤ flip.blkMaxCount) :
    FailsIf (count < flip.blkMaxCount ∧ flip.PastWays count.toNat)
      (flip.moveByCount set blk count) := by
  rw [Flip.moveByCount]
  by_cases less : count < flip.blkMaxCount
  · rw [if_pos less]
    rcases tidy.moveToPos bound member (BitVec.lt_def.mp less) with
      ⟨past, failed⟩ | ⟨inside, blks, perm, moved⟩
    · exact .inl ⟨⟨less, past⟩, failed⟩
    · exact .inr ⟨fun both => inside both.2, _, moved, tidy.setWays perm⟩
  · have most : count = flip.blkMaxCount := by bv_omega
    obtain ⟨_, moved, perm⟩ := tidy.permuted.moveToHead bound member
    refine .inr ⟨fun both => less both.1, _, ?_, tidy.setWays perm⟩
    rw [if_neg less, if_pos most, moveToFront, moved, ok_bind,
      if_pos (by rw [tidy.samples, most]; omega)]
    rfl

/-- The position of a block of a set is the last exactly if the block is in the last way. -/
theorem lastWay_iff (bound : set < flip.base.numSets) (member : blk ∈ flip.base.sets set) :
    ∃ lrustate, CacheSet.getLRUState (flip.base.sets set) blk = .ok lrustate ∧
      (lrustate = flip.base.assoc - 1 ↔
        (flip.base.sets set)[flip.base.assoc - 1]? = some blk) := by
  obtain ⟨before, after, split, apart⟩ :=
    CacheSet.exists_split (tidy.permuted.nodup bound) member
  rw [split, CacheSet.getLRUState_eq fun inside => apart (mem_append_left after inside)]
  refine ⟨before.length, rfl, ?_, fun last => (CacheSet.length_of_getElem? apart last).symm⟩
  intro last
  rw [← last, CacheSet.getElem?_at]

theorem Tidy.countReuse {count : BitVec 32} (less : count < flip.blkMaxCount) :
    ∃ frc, frc.length = flip.frc.length ∧
      flip.countReuse count.toNat = .ok { flip with frc := frc } := by
  have bound : count.toNat < flip.frc.length := by
    rw [tidy.reuses]
    exact BitVec.lt_def.mp less
  rw [Flip.countReuse, getElem?_eq_getElem bound]
  exact ⟨_, length_set, rfl⟩

theorem Tidy.countReuse_error :
    flip.countReuse flip.blkMaxCount.toNat = .error .outOfRange := by
  rw [Flip.countReuse, getElem?_eq_none_iff.mpr (by rw [tidy.reuses])]

end

/-- The number of promotions after a hit is one for which the position is used. -/
theorem promoted_iff {count most : BitVec 32} (few : count ≤ most) :
    ((if count < most then count + 1 else count) < most ↔ count.toNat + 1 < most.toNat) ∧
      (count.toNat + 1 < most.toNat →
        (if count < most then count + 1 else count).toNat = count.toNat + 1) ∧
      (if count < most then count + 1 else count) ≤ most := by
  split
  · refine ⟨?_, ?_, ?_⟩ <;> bv_omega
  · refine ⟨?_, ?_, ?_⟩ <;> bv_omega

section

variable (tidy : flip.Tidy)
include tidy

theorem Tidy.promote (valid : flip.base.isValid blk = true) :
    FailsIf (flip.HitOverruns blk) (flip.promote blk) := by
  have bound := tidy.permuted.set_lt (tidy.permuted.valid blk valid)
  have member : blk ∈ flip.base.sets (flip.base.set blk) := by
    rw [tidy.permuted.mem_iff bound, tidy.permuted.set]
  have few := tidy.counted blk valid
  obtain ⟨lrustate, found, lastWay⟩ := lastWay_iff tidy bound member
  obtain ⟨room, count, most⟩ := promoted_iff few
  by_cases overrun : lrustate = flip.base.assoc - 1 ∧ flip.tagRefcount blk = flip.blkMaxCount
  · refine .inl ⟨.inl ⟨lastWay.mp overrun.1, overrun.2⟩, ?_⟩
    rw [Flip.promote]
    dsimp only
    rw [found, ok_bind, countIfLast, if_pos overrun.1, overrun.2, tidy.countReuse_error]
    rfl
  · obtain ⟨frc, length, reused⟩ : ∃ frc, frc.length = flip.frc.length ∧
        flip.countIfLast lrustate (flip.tagRefcount blk).toNat = .ok { flip with frc := frc } := by
      rw [countIfLast]
      by_cases last : lrustate = flip.base.assoc - 1
      · have different : flip.tagRefcount blk ≠ flip.blkMaxCount := fun same => overrun ⟨last, same⟩
        rw [if_pos last]
        exact tidy.countReuse (by bv_omega)
      · rw [if_neg last]
        exact ⟨flip.frc, rfl, rfl⟩
    have promoted : Tidy { flip with
        frc := frc
        tagRefcount := update flip.tagRefcount blk
          (if flip.tagRefcount blk < flip.blkMaxCount then flip.tagRefcount blk + 1
            else flip.tagRefcount blk) } := tidy.record length most
    have overruns : flip.HitOverruns blk ↔
        (flip.tagRefcount blk).toNat + 1 < flip.blkMaxCount.toNat ∧
          flip.PastWays ((flip.tagRefcount blk).toNat + 1) := by
      rw [HitOverruns, ← lastWay]
      exact or_iff_right overrun
    rw [overruns, Flip.promote]
    dsimp only
    rw [found, ok_bind, reused, ok_bind]
    rcases promoted.moveByCount bound member most with ⟨⟨less, past⟩, failed⟩ | ⟨inside, moved⟩
    · have few := room.mp less
      rw [count few] at past
      exact .inl ⟨⟨few, past⟩, failed⟩
    · refine .inr ⟨fun both => inside ⟨room.mpr both.1, ?_⟩, moved⟩
      rw [count both.1]
      exact both.2

theorem Tidy.access (addr : Addr) (isSecure : Bool) :
    FailsIf (flip.Overruns (.access addr isSecure)) (flip.step (.access addr isSecure)) := by
  rw [step, accessBlock, Overruns]
  cases found : flip.base.findBlock addr isSecure with
  | none => exact .inr ⟨fun ⟨_, other, _⟩ => (by cases other), flip, rfl, tidy⟩
  | some blk =>
    have only : (∃ other, some blk = some other ∧ flip.HitOverruns other) ↔
        flip.HitOverruns blk := by
      simp only [Option.some.injEq, exists_eq_left']
    rw [only]
    exact tidy.promote (tidy.permuted.findBlock found).1

/-- The block of a fill gets its tag and has no promotion. -/
theorem Tidy.insertTag (addr : Addr) (blk : Nat) :
    Tidy { flip with
      base := flip.base.insertTag addr blk
      tagRefcount := update flip.tagRefcount blk 0 } := by
  refine { tidy with
    permuted := tidy.permuted.insertTag addr blk
    positioned := ?_, counted := fun other valid => ?_ }
  · rw [(flip.base.insertTag_frame addr blk).2.1]
    exact tidy.positioned
  · show update flip.tagRefcount blk 0 other ≤ flip.blkMaxCount
    rw [update_apply]
    split
    · exact BitVec.le_def.mpr (Nat.zero_le _)
    · exact tidy.counted other (SetAssoc.isValid_of_insertTag valid)

theorem Tidy.markValid (isSecure : Bool)
    (bound : blk < flip.base.numSets * flip.base.assoc) (fresh : flip.tagRefcount blk = 0) :
    Tidy { flip with base := flip.base.markValid blk isSecure } := by
  refine { tidy with
    permuted := tidy.permuted.markValid isSecure bound, counted := fun other valid => ?_ }
  replace valid : update flip.base.isValid blk true other = true := valid
  by_cases same : other = blk
  · show flip.tagRefcount other ≤ _
    rw [same, fresh]
    exact BitVec.le_def.mpr (Nat.zero_le _)
  · rw [update_of_ne same] at valid
    exact tidy.counted other valid

theorem Tidy.fill (addr : Addr) (isSecure : Bool) :
    FailsIf (flip.Overruns (.fill addr isSecure)) (flip.step (.fill addr isSecure)) := by
  obtain ⟨blk, victim, member⟩ := tidy.permuted.findVictim addr
  have bound := tidy.permuted.extractSet_lt addr
  have small := tidy.permuted.mem_lt bound member
  have inserted := tidy.insertTag addr blk
  obtain ⟨sets, assoc, numSets⟩ := flip.base.insertTag_frame addr blk
  have past : Flip.PastWays { flip with
      base := flip.base.insertTag addr blk
      tagRefcount := update flip.tagRefcount blk 0 } 0 ↔ flip.PastWays 0 := by
    rw [PastWays, PastWays]
    rw [assoc]
  rw [step, victim, ok_bind, insertBlock, Overruns]
  by_cases none : flip.blkMaxCount = 0
  · refine .inl ⟨.inl none, ?_⟩
    have empty : flip.pos[0]? = .none := by
      rw [getElem?_eq_none_iff, tidy.positions, none]
      rfl
    rw [Flip.moveToPos]
    rw [empty]
    rfl
  · have room : 0 < flip.blkMaxCount.toNat := by bv_omega
    rcases inserted.moveToPos (numSets ▸ bound) (sets ▸ member) room with
      ⟨overrun, failed⟩ | ⟨inside, blks, perm, moved⟩
    · refine .inl ⟨.inr (past.mp overrun), ?_⟩
      rw [failed]
      rfl
    · refine .inr ⟨fun overrun => overrun.elim none fun overrun => inside (past.mpr overrun), ?_⟩
      rw [moved, ok_bind]
      refine ⟨_, rfl, (inserted.setWays perm).markValid isSecure ?_ (update_self _ _ _)⟩
      show blk < (flip.base.insertTag addr blk).numSets * (flip.base.insertTag addr blk).assoc
      rw [numSets, assoc]
      exact small

theorem Tidy.invalidate (valid : flip.base.isValid blk = true) :
    ∃ next, flip.step (.invalidate blk) = .ok next ∧ next.Tidy := by
  have bound := tidy.permuted.set_lt (tidy.permuted.valid blk valid)
  have member : blk ∈ flip.base.sets (flip.base.set blk) := by
    rw [tidy.permuted.mem_iff bound, tidy.permuted.set]
  obtain ⟨_, moved, perm⟩ := tidy.permuted.moveToTail bound member
  rw [step, SetAssoc.invalidate, if_pos valid, moved]
  exact ⟨_, rfl, { tidy with
    permuted := (tidy.permuted.setWays perm).clearStatus blk
    counted := fun other still => tidy.counted other (SetAssoc.isValid_of_clearStatus still) }⟩

theorem Tidy.updatePointer {i : Nat} (few : i < flip.blkMaxCount.toNat) :
    ∃ next, flip.updatePointer i = .ok next ∧ next.Tidy ∧ next.blkMaxCount = flip.blkMaxCount := by
  obtain ⟨count, reused⟩ : ∃ count, flip.frc[i]? = some count :=
    ⟨_, getElem?_eq_getElem (tidy.reuses ▸ few)⟩
  obtain ⟨pos, here⟩ : ∃ pos, flip.pos[i]? = some pos :=
    ⟨_, getElem?_eq_getElem (tidy.positions ▸ few)⟩
  have positioned := tidy.positioned pos (mem_of_getElem? here)
  rw [Flip.updatePointer, reused, here]
  refine ⟨_, rfl, { tidy with
    positions := length_set.trans tidy.positions, reuses := length_set.trans tidy.reuses
    positioned := fun other member => ?_ }, rfl⟩
  rcases mem_or_eq_of_mem_set member with old | rfl
  · exact tidy.positioned other old
  · split
    · exact positioned.decrement
    · exact positioned.increment

theorem Tidy.updatePointers {indices : List Nat} (few : ∀ i ∈ indices, i < flip.blkMaxCount.toNat) :
    ∃ next, indices.foldlM Flip.updatePointer flip = .ok next ∧ next.Tidy := by
  induction indices generalizing flip with
  | nil => exact ⟨flip, rfl, tidy⟩
  | cons _ _ hypothesis =>
    rw [forall_mem_cons] at few
    obtain ⟨_, updated, tidied, same⟩ := tidy.updatePointer few.1
    rw [foldlM_cons, updated, ok_bind]
    exact hypothesis tidied (same ▸ few.2)

theorem Tidy.step {call : FlipCall} (called : flip.Called call) :
    FailsIf (flip.Overruns call) (flip.step call) := by
  cases call with
  | access addr isSecure => exact tidy.access addr isSecure
  | fill addr isSecure => exact tidy.fill addr isSecure
  | invalidate => exact .inr ⟨fun overrun => overrun, tidy.invalidate called⟩
  | updatePriorityPointer =>
    exact .inr ⟨fun overrun => overrun, tidy.updatePointers fun i member => mem_range.mp member⟩

end

theorem create_tidy {params : Params} (created : create params = .ok flip)
    (prior : params.startPrior < params.assoc) : flip.Tidy := by
  obtain ⟨base, made, returned⟩ := bind_eq_ok created
  obtain ⟨permuted, assoc, invalid⟩ := SetAssoc.create_permuted made
  cases returned
  refine ⟨permuted, length_replicate, length_replicate, rfl, fun pos member => ?_,
    fun blk valid => ?_⟩
  · rw [(mem_replicate.mp member).2]
    show Positioned base.assoc _
    rw [assoc]
    refine ⟨?_, fun many => ?_⟩
    · show (params.assoc - 1).toNat + 1 = params.assoc.toNat
      bv_omega
    · show (if params.assoc - 1 < params.found then params.assoc - 1
        else params.startPrior).toNat < params.assoc.toNat
      split
      · bv_omega
      · bv_omega
  · replace valid : base.isValid blk = true := valid
    rw [invalid blk] at valid
    cases valid

/-- After every run of calls the ways of every set are a permutation of its blocks, and the next
call uses an index that is in range for every array exactly unless it is the hit of a block in the
last way that has been promoted as often as is counted, a fill when no promotion is counted or, in
sets of one way, a move to a position that is no longer zero. -/
theorem flip_in_range_iff {params : Params} {start final : Flip} {calls : List FlipCall}
    (created : create params = .ok start) (prior : params.startPrior < params.assoc)
    (run : Run Flip.step Called start calls final) :
    (∀ set < final.base.numSets,
        (final.base.sets set).Perm (range' (set * final.base.assoc) final.base.assoc)) ∧
      ∀ call, final.Called call →
        ((∃ next, final.step call = .ok next) ↔ ¬final.Overruns call) ∧
          ∀ fault, final.step call = .error fault → fault = .outOfRange := by
  have tidy : final.Tidy := run.invariant Flip.Tidy
    (fun tidy called taken => by
      rcases tidy.step called with ⟨_, failed⟩ | ⟨_, _, stepped, tidied⟩
      · cases failed.symm.trans taken
      · cases stepped.symm.trans taken
        exact tidied)
    (create_tidy created prior)
  refine ⟨tidy.permuted.ways, fun call called => ?_⟩
  rcases tidy.step called with ⟨overrun, failed⟩ | ⟨inside, next, stepped, _⟩
  · refine ⟨iff_of_false ?_ (not_not.mpr overrun), fun fault raised => ?_⟩
    · rintro ⟨_, stepped⟩
      cases failed.symm.trans stepped
    · cases failed.symm.trans raised
      rfl
  · refine ⟨iff_of_true ⟨next, stepped⟩ inside, fun fault raised => ?_⟩
    cases stepped.symm.trans raised

/-- A cache of one set with two ways. -/
def twoWays : Params := ⟨128, 64, 2, 1, 0, 1, 0, 0, fun _ => 0⟩

theorem flip_in_range_iff_two_ways : ∃ start final,
    create twoWays = .ok start ∧
      Run Flip.step Called start [.fill 0 false, .access 0 false, .updatePriorityPointer] final ∧
      ∃ next, final.step (.fill 64 false) = .ok next := by
  obtain ⟨start, created, checked⟩ : ∃ start, create twoWays = .ok start ∧
      (guardedRun Flip.step Called start
        [.fill 0 false, .access 0 false, .updatePriorityPointer]).any
          (fun flip => flip.base.assoc = 2 ∧ flip.blkMaxCount = 1) = true :=
    exists_of_check (by decide +kernel)
  obtain ⟨final, run, sizes⟩ := Run.exists_check checked
  obtain ⟨_, indices⟩ := flip_in_range_iff created (by decide) run
  refine ⟨start, final, created, run, (indices (.fill 64 false) trivial).1.mpr ?_⟩
  rintro (none | ⟨single, _⟩)
  · rw [sizes.2] at none
    cases none
  · rw [sizes.1] at single
    cases single

/-- A block is hit and so promoted as often as is counted, a fill takes the first way, and the next
hit of the block, then in the last way, counts past the counters of first reuses. -/
theorem reuse_of_promoted_block_overruns : ∃ start final,
    create twoWays = .ok start ∧
      Run Flip.step Called start [.fill 0 false, .access 0 false, .fill 64 false] final ∧
      final.step (.access 0 false) = .error .outOfRange := by
  obtain ⟨start, created, checked⟩ : ∃ start, create twoWays = .ok start ∧
      (guardedRun Flip.step Called start [.fill 0 false, .access 0 false, .fill 64 false]).any
          (fun flip => raised (flip.step (.access 0 false)) = some .outOfRange) = true :=
    exists_of_check (by decide +kernel)
  obtain ⟨final, run, failed⟩ := Run.exists_check checked
  exact ⟨start, final, created, run, eq_error_of_raised failed⟩

end Flip

end Gem5.Mem
