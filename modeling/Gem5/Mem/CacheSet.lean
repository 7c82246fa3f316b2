/-
This file models the sets of the set associative tag stores
(`mem/cache/tags/cacheset.hh`, `mem/cache/tags/base_set_assoc.hh`). The ways of
a set are an array of blocks; the loops that move a block write it where it goes
and carry the blocks in between by one way each.
-/

import Gem5.Base.AddrRange
import Gem5.Base.IntMath
import Gem5.Library.Run
import Mathlib.Data.List.Induction
import Mathlib.Data.List.InsertIdx

namespace Gem5.Mem

open Base Library List Function

/-! ### The ways of a set -/

/-- An index past an array, and the fatal errors and assertions of the tag stores. -/
inductive TagFault where
  | outOfRange
  | notFound
  | notAtTarget
  | notValid
  | countTooLarge
  | badParameters
deriving DecidableEq, Repr

namespace CacheSet

/-- The loop of `moveToHead`: the block carried so far is written, and the one it overwrites is
carried on, until that is the moved block. -/
def swapUp (blk : Nat) : Nat → Nat → Nat → List Nat → Except TagFault (List Nat)
  | 0, _, _, _ => .error .outOfRange
  | fuel + 1, i, next, blks =>
    match blks[i]? with
    | none => .error .outOfRange
    | some tmp =>
      if tmp = blk then .ok (blks.set i next) else swapUp blk fuel (i + 1) tmp (blks.set i next)

/-- The loop of `moveToTail` and `moveTo`, which goes down. -/
def swapDown (blk : Nat) : Nat → Nat → List Nat → Except TagFault (List Nat)
  | i, next, blks =>
    match blks[i]? with
    | none => .error .outOfRange
    | some tmp =>
      if tmp = blk then .ok (blks.set i next)
      else
        match i with
        | 0 => .error .outOfRange
        | i + 1 => swapDown blk i tmp (blks.set (i + 1) next)

def moveToHead (blks : List Nat) (blk : Nat) : Except TagFault (List Nat) :=
  match blks[0]? with
  | none => .error .outOfRange
  | some first => if first = blk then .ok blks else swapUp blk blks.length 0 blk blks

def moveToTail (assoc : Nat) (blks : List Nat) (blk : Nat) : Except TagFault (List Nat) :=
  match blks[assoc - 1]? with
  | none => .error .outOfRange
  | some last => if last = blk then .ok blks else swapDown blk (assoc - 1) blk blks

/-- The first way that holds the block. -/
def getLRUState (blks : List Nat) (blk : Nat) : Except TagFault Nat :=
  if blk ∈ blks then .ok (blks.idxOf blk) else .error .notFound

def moveTo (blks : List Nat) (blk lru : Nat) : Except TagFault (List Nat) :=
  match blks[lru]? with
  | none => .error .outOfRange
  | some there =>
    if there = blk then .ok blks
    else do
      let headed ← moveToHead blks blk
      let moved ← swapDown blk lru blk headed
      let lrustate ← getLRUState moved blk
      if lru = lrustate then return moved else throw .notAtTarget

theorem getElem?_at (front rest : List Nat) (item : Nat) :
    (front ++ item :: rest)[front.length]? = some item := by
  rw [getElem?_append_right le_rfl, Nat.sub_self, getElem?_cons_zero]

theorem set_at (front rest : List Nat) (item next : Nat) :
    (front ++ item :: rest).set front.length next = front ++ next :: rest := by
  rw [set_append_right _ _ le_rfl, Nat.sub_self, set_cons_zero]

/-- The blocks before the moved one go up by one way. -/
theorem swapUp_eq {blk : Nat} {middle : List Nat} (apart : blk ∉ middle) (rest : List Nat) :
    ∀ (front : List Nat) (next fuel : Nat), middle.length < fuel →
      swapUp blk fuel front.length next (front ++ (middle ++ blk :: rest)) =
        .ok (front ++ (next :: middle ++ rest)) := by
  induction middle with
  | nil =>
    intro front next fuel enough
    obtain ⟨fuel, rfl⟩ : ∃ less, fuel = less + 1 := ⟨fuel - 1, (Nat.sub_add_cancel enough).symm⟩
    rw [swapUp, nil_append, getElem?_at, set_at]
    dsimp only
    rw [if_pos rfl]
    rfl
  | cons item _ hypothesis =>
    intro front next fuel enough
    obtain ⟨fuel, rfl⟩ : ∃ less, fuel = less + 1 :=
      ⟨fuel - 1, (Nat.sub_add_cancel (Nat.zero_lt_of_lt enough)).symm⟩
    rw [mem_cons, not_or] at apart
    have continued := hypothesis apart.2 (front ++ [next]) item fuel
      (Nat.lt_of_succ_lt_succ enough)
    rw [length_append, append_assoc, append_assoc] at continued
    rw [swapUp, cons_append, getElem?_at, set_at]
    dsimp only
    rw [if_neg (Ne.symm apart.1)]
    exact continued

/-- The blocks after the moved one go down by one way. -/
theorem swapDown_eq {blk : Nat} (front : List Nat) :
    ∀ (middle : List Nat) (next : Nat) (rest : List Nat), blk ∉ middle →
      swapDown blk (front.length + middle.length) next (front ++ (blk :: middle ++ rest)) =
        .ok (front ++ (middle ++ next :: rest)) := by
  intro middle
  induction middle using reverseRecOn with
  | nil =>
    intro next rest _
    rw [swapDown, cons_append, length_nil, add_zero, getElem?_at, set_at]
    dsimp only
    rw [if_pos rfl]
    rfl
  | append_singleton middle item hypothesis =>
    intro next rest apart
    rw [mem_append, mem_singleton, not_or] at apart
    have regrouped : front ++ (blk :: (middle ++ [item]) ++ rest) =
        (front ++ blk :: middle) ++ item :: rest := by simp
    have length : (front ++ blk :: middle).length = front.length + middle.length + 1 := by
      rw [length_append]
      rfl
    have here : ((front ++ blk :: middle) ++ item :: rest)[front.length + middle.length + 1]? =
        some item := by
      rw [← length, getElem?_at]
    have written : ((front ++ blk :: middle) ++ item :: rest).set
        (front.length + middle.length + 1) next = (front ++ blk :: middle) ++ next :: rest := by
      rw [← length, set_at]
    have continued := hypothesis item (next :: rest) apart.1
    rw [length_append, length_singleton, ← add_assoc, regrouped, swapDown, here]
    dsimp only
    rw [if_neg (Ne.symm apart.2), written, append_assoc, continued, append_assoc]
    rfl

/-! ### What the moves do -/

variable {blk : Nat} {before after : List Nat}

theorem moveToHead_eq (apart : blk ∉ before) :
    moveToHead (before ++ blk :: after) blk = .ok (blk :: (before ++ after)) := by
  cases before with
  | nil =>
    rw [moveToHead, nil_append, getElem?_cons_zero]
    dsimp only
    rw [if_pos rfl]
    rfl
  | cons first rest =>
    have moved := swapUp_eq apart after [] blk (first :: rest ++ blk :: after).length (by
      rw [length_append, length_cons]
      simp)
    rw [mem_cons, not_or] at apart
    rw [moveToHead, cons_append, getElem?_cons_zero]
    dsimp only
    rw [if_neg (Ne.symm apart.1)]
    exact moved

/-- The way the block goes to may be the one it is in. -/
theorem swapDown_self {blks : List Nat} {i : Nat} (here : blks[i]? = some blk) :
    swapDown blk i blk blks = .ok blks := by
  obtain ⟨_, same⟩ := List.getElem?_eq_some_iff.mp here
  rw [swapDown, here]
  dsimp only
  rw [if_pos rfl, ← same, set_getElem_self]

theorem moveToTail_eq (apart : blk ∉ after) :
    moveToTail (before ++ blk :: after).length (before ++ blk :: after) blk =
      .ok (before ++ (after ++ [blk])) := by
  have last : (before ++ blk :: after).length - 1 = before.length + after.length := by
    rw [length_append, length_cons]
    rfl
  have bound : before.length + after.length < (before ++ blk :: after).length := by
    rw [length_append, length_cons]
    omega
  have moved := swapDown_eq before after blk [] apart
  rw [append_nil] at moved
  rw [moveToTail, last]
  cases here : (before ++ blk :: after)[before.length + after.length]? with
  | none =>
    rw [getElem?_eq_none_iff] at here
    omega
  | some item =>
    dsimp only
    by_cases same : item = blk
    · rw [same] at here
      rw [if_pos same, ← moved, swapDown_self here]
    · rw [if_neg same]
      exact moved

theorem getLRUState_eq (apart : blk ∉ before) :
    getLRUState (before ++ blk :: after) blk = .ok before.length := by
  rw [getLRUState, if_pos (mem_append_right before mem_cons_self),
    idxOf_append_of_notMem apart, idxOf_cons_self, add_zero]

/-- A block is in one way only. -/
theorem length_of_getElem? (apart : blk ∉ before ++ after) {i : Nat}
    (here : (before ++ blk :: after)[i]? = some blk) : i = before.length := by
  rw [mem_append, not_or] at apart
  rcases Nat.lt_trichotomy i before.length with less | same | more
  · rw [getElem?_append_left less] at here
    exact absurd (mem_of_getElem? here) apart.1
  · exact same
  · obtain ⟨extra, rfl⟩ : ∃ extra, i = before.length + (extra + 1) :=
      ⟨i - before.length - 1, by omega⟩
    rw [getElem?_append_right (Nat.le_add_right _ _), Nat.add_sub_cancel_left,
      getElem?_cons_succ] at here
    exact absurd (mem_of_getElem? here) apart.2

/-- The block goes to the way that is asked for, and the others keep their order. -/
theorem moveTo_eq {front back : List Nat} (apart : blk ∉ before ++ after)
    (split : before ++ after = front ++ back) :
    moveTo (before ++ blk :: after) blk front.length = .ok (front ++ blk :: back) := by
  have outside : blk ∉ before := fun member => apart (mem_append_left after member)
  have unused : blk ∉ front := by
    rw [split] at apart
    exact fun member => apart (mem_append_left back member)
  have headed : moveToHead (before ++ blk :: after) blk = .ok (blk :: (front ++ back)) := by
    rw [moveToHead_eq outside, split]
  have moved : swapDown blk front.length blk (blk :: (front ++ back)) =
      .ok (front ++ blk :: back) := by
    have carried := swapDown_eq [] front blk back unused
    rwa [length_nil, zero_add] at carried
  have bound : front.length < (before ++ blk :: after).length := by
    have lengths := congrArg length split
    rw [length_append, length_append] at lengths
    rw [length_append, length_cons]
    omega
  rw [moveTo]
  cases here : (before ++ blk :: after)[front.length]? with
  | none =>
    rw [getElem?_eq_none_iff] at here
    omega
  | some item =>
    dsimp only
    by_cases same : item = blk
    · rw [same] at here
      obtain ⟨rfl, rfl⟩ := append_inj split (length_of_getElem? apart here).symm
      rw [if_pos same]
    · rw [if_neg same, headed, ok_bind, moved, ok_bind, getLRUState_eq unused, ok_bind, if_pos rfl]
      rfl

/-- The move ends with the block in this way and the other blocks in their order. -/
def Moves (blks : List Nat) (blk way : Nat) (result : Except TagFault (List Nat)) : Prop :=
  ∃ next, result = .ok next ∧ next[way]? = some blk ∧ next.erase blk = blks.erase blk

theorem Moves.of_split {front back : List Nat} {result : Except TagFault (List Nat)}
    (apart : blk ∉ before ++ after) (split : before ++ after = front ++ back)
    (moved : result = .ok (front ++ blk :: back)) :
    Moves (before ++ blk :: after) blk front.length result := by
  refine ⟨front ++ blk :: back, moved, getElem?_at front back blk, ?_⟩
  rw [erase_append_right _ fun member => apart (mem_append_left after member),
    erase_cons_head, split]
  rw [split] at apart
  rw [erase_append_right _ fun member => apart (mem_append_left back member), erase_cons_head]

section

variable {blks : List Nat} (distinct : blks.Nodup) (member : blk ∈ blks)
include distinct member

/-- A block of a set stands between the others. -/
theorem exists_split : ∃ before after, blks = before ++ blk :: after ∧ blk ∉ before ++ after := by
  obtain ⟨before, after, rfl⟩ := append_of_mem member
  exact ⟨before, after, rfl, (nodup_cons.mp (perm_middle.nodup_iff.mp distinct)).1⟩

theorem moveToHead_moves : Moves blks blk 0 (moveToHead blks blk) := by
  obtain ⟨before, after, rfl, apart⟩ := exists_split distinct member
  refine .of_split apart (nil_append _).symm
    (moveToHead_eq fun inside => apart (mem_append_left after inside))

theorem moveToTail_moves :
    Moves blks blk (blks.length - 1) (moveToTail blks.length blks blk) := by
  obtain ⟨before, after, rfl, apart⟩ := exists_split distinct member
  have last : (before ++ blk :: after).length - 1 = (before ++ after).length := by simp
  rw [last]
  refine .of_split apart (append_nil _).symm ?_
  rw [moveToTail_eq fun inside => apart (mem_append_right before inside), append_assoc]

theorem moveTo_moves {lru : Nat} (inside : lru < blks.length) :
    Moves blks blk lru (moveTo blks blk lru) := by
  obtain ⟨before, after, rfl, apart⟩ := exists_split distinct member
  have front : ((before ++ after).take lru).length = lru := by
    rw [length_append, length_cons] at inside
    rw [length_take, length_append]
    omega
  have split := (take_append_drop lru (before ++ after)).symm
  have moved := Moves.of_split apart split (moveTo_eq apart split)
  rwa [front] at moved

/-- A block of a set is moved to the first way, to the last one and to any other, and the other
blocks of the set keep their order. -/
theorem moves_keep_order {lru : Nat} (inside : lru < blks.length) :
    Moves blks blk 0 (moveToHead blks blk) ∧
      Moves blks blk (blks.length - 1) (moveToTail blks.length blks blk) ∧
      Moves blks blk lru (moveTo blks blk lru) :=
  ⟨moveToHead_moves distinct member, moveToTail_moves distinct member,
    moveTo_moves distinct member inside⟩

end

theorem moves_keep_order_three :
    [3, 1, 2].Nodup ∧ 2 ∈ [3, 1, 2] ∧ 1 < [3, 1, 2].length ∧
      Moves [3, 1, 2] 2 1 (moveTo [3, 1, 2] 2 1) :=
  ⟨by decide, by decide, by decide, (moves_keep_order (by decide) (by decide) (by decide)).2.2⟩

/-- A way past the array cannot be read. -/
theorem moveTo_outOfRange {blks : List Nat} {lru : Nat} (past : blks.length ≤ lru) :
    moveTo blks blk lru = .error .outOfRange := by
  rw [moveTo, getElem?_eq_none_iff.mpr past]

end CacheSet

/-! ### The set associative tag store -/

/-- The tag store. A block is known by its index; the fields of the blocks are kept apart. -/
structure SetAssoc where
  assoc : Nat
  numSets : Nat
  setShift : Nat
  tagShift : Nat
  sets : Nat → List Nat
  set : Nat → Nat
  tag : Nat → Addr
  isValid : Nat → Bool
  isSecure : Nat → Bool

namespace SetAssoc

/-- The constructor. -/
def create (size : BitVec 64) (blkSize assoc : BitVec 32) : Except TagFault SetAssoc :=
  let numSets := BitVec.ofNat 32 (size.toNat / (blkSize * assoc).toNat)
  if blkSize < 4 ∨ isPowerOf2 blkSize = false then .error .badParameters
  else if isPowerOf2 numSets = false then .error .badParameters
  else if assoc = 0 then .error .badParameters
  else .ok {
    assoc := assoc.toNat
    numSets := numSets.toNat
    setShift := floorLog2 blkSize
    tagShift := floorLog2 blkSize + floorLog2 numSets
    sets := fun i => range' (i * assoc.toNat) assoc.toNat
    set := fun blk => blk / assoc.toNat
    tag := fun blk => BitVec.ofNat 64 (blk % assoc.toNat)
    isValid := fun _ => false
    isSecure := fun _ => false }

def extractTag (tags : SetAssoc) (addr : Addr) : Addr := addr >>> tags.tagShift

def extractSet (tags : SetAssoc) (addr : Addr) : Nat :=
  (addr >>> tags.setShift &&& BitVec.ofNat 64 (tags.numSets - 1)).toNat

/-- The first way with a valid block of this tag. -/
def findBlk (tags : SetAssoc) (blks : List Nat) (tag : Addr) (isSecure : Bool) : Option Nat :=
  blks.find? fun blk => tags.tag blk = tag && tags.isValid blk && tags.isSecure blk = isSecure

def findBlock (tags : SetAssoc) (addr : Addr) (isSecure : Bool) : Option Nat :=
  tags.findBlk (tags.sets (tags.extractSet addr)) (tags.extractTag addr) isSecure

def setWays (tags : SetAssoc) (set : Nat) (blks : List Nat) : SetAssoc :=
  { tags with sets := update tags.sets set blks }

/-- The block loses its status. -/
def clearStatus (tags : SetAssoc) (blk : Nat) : SetAssoc :=
  { tags with
    isValid := update tags.isValid blk false
    isSecure := update tags.isSecure blk false }

/-- The block gets the tag of the address. -/
def insertTag (tags : SetAssoc) (addr : Addr) (blk : Nat) : SetAssoc :=
  let cleared := if tags.isValid blk then tags.clearStatus blk else tags
  { cleared with tag := update cleared.tag blk (tags.extractTag addr) }

/-- The cache sets the status of a block that was filled. -/
def markValid (tags : SetAssoc) (blk : Nat) (isSecure : Bool) : SetAssoc :=
  { tags with
    isValid := update tags.isValid blk true
    isSecure := update tags.isSecure blk (tags.isSecure blk || isSecure) }

/-- The victim of the policies that replace the block in the last way. -/
def findVictim (tags : SetAssoc) (addr : Addr) : Except TagFault Nat :=
  match (tags.sets (tags.extractSet addr))[tags.assoc - 1]? with
  | none => .error .outOfRange
  | some blk => .ok blk

def moveToHead (tags : SetAssoc) (set blk : Nat) : Except TagFault SetAssoc := do
  let blks ← CacheSet.moveToHead (tags.sets set) blk
  return tags.setWays set blks

def moveToTail (tags : SetAssoc) (set blk : Nat) : Except TagFault SetAssoc := do
  let blks ← CacheSet.moveToTail tags.assoc (tags.sets set) blk
  return tags.setWays set blks

def moveTo (tags : SetAssoc) (set blk lru : Nat) : Except TagFault SetAssoc := do
  let blks ← CacheSet.moveTo (tags.sets set) blk lru
  return tags.setWays set blks

/-- A valid block is invalidated: the policy moves it to the last way, the cache clears its
status. -/
def invalidate (tags : SetAssoc) (blk : Nat) : Except TagFault SetAssoc :=
  if tags.isValid blk then do
    let moved ← tags.moveToTail (tags.set blk) blk
    return moved.clearStatus blk
  else .error .notValid

/-! ### The ways are a permutation of the blocks of the set -/

/-- Every set has its own blocks in its ways, and the blocks know their set. -/
structure Permuted (tags : SetAssoc) : Prop where
  positive : 0 < tags.assoc
  nonempty : 0 < tags.numSets
  ways : ∀ set < tags.numSets,
    (tags.sets set).Perm (range' (set * tags.assoc) tags.assoc)
  set : ∀ blk, tags.set blk = blk / tags.assoc
  valid : ∀ blk, tags.isValid blk = true → blk < tags.numSets * tags.assoc

variable {tags next : SetAssoc} {blk set : Nat}

section

variable (permuted : tags.Permuted)
include permuted

section

variable (bound : set < tags.numSets)
include bound

theorem Permuted.nodup : (tags.sets set).Nodup :=
  (permuted.ways set bound).nodup_iff.mpr (nodup_range' _)

theorem Permuted.length_eq : (tags.sets set).length = tags.assoc := by
  rw [(permuted.ways set bound).length_eq, length_range']

theorem Permuted.mem_iff :
    blk ∈ tags.sets set ↔ blk / tags.assoc = set := by
  rw [(permuted.ways set bound).mem_iff, mem_range'_1, Nat.div_eq_iff permuted.positive]
  constructor
  · rintro ⟨least, _⟩
    have := permuted.positive
    constructor
    · exact least
    · omega
  · rintro ⟨least, _⟩
    have := permuted.positive
    exact ⟨least, by omega⟩

end

theorem Permuted.set_lt (bound : blk < tags.numSets * tags.assoc) :
    tags.set blk < tags.numSets := by
  rw [permuted.set]
  exact Nat.div_lt_of_lt_mul (Nat.mul_comm _ _ ▸ bound)

theorem Permuted.extractSet_lt (addr : Addr) : tags.extractSet addr < tags.numSets := by
  rw [extractSet, BitVec.toNat_and]
  refine lt_of_le_of_lt Nat.and_le_right ?_
  have := permuted.nonempty
  exact lt_of_le_of_lt (Nat.mod_le _ _) (by omega)

theorem Permuted.setWays {blks : List Nat} (perm : blks.Perm (tags.sets set)) :
    (tags.setWays set blks).Permuted := by
  refine { permuted with ways := fun other bound => ?_ }
  show (update tags.sets set blks other).Perm _
  by_cases same : other = set
  · subst same
    rw [update_self]
    exact perm.trans (permuted.ways other bound)
  · rw [update_of_ne same]
    exact permuted.ways other bound

end

/-! ### The moves in a set -/

theorem setWays_of_moves (member : blk ∈ tags.sets set) {way : Nat}
    {result : Except TagFault (List Nat)}
    (moves : CacheSet.Moves (tags.sets set) blk way result) :
    ∃ blks, (do return tags.setWays set (← result)) = .ok (tags.setWays set blks) ∧
      blks.Perm (tags.sets set) := by
  obtain ⟨blks, rfl, there, rest⟩ := moves
  refine ⟨blks, rfl, (perm_cons_erase (mem_of_getElem? there)).trans ?_⟩
  rw [rest]
  exact (perm_cons_erase member).symm

section

variable (permuted : tags.Permuted) (bound : set < tags.numSets)
include permuted bound

section

variable (member : blk ∈ tags.sets set)
include member

theorem Permuted.moveToHead :
    ∃ blks, tags.moveToHead set blk = .ok (tags.setWays set blks) ∧
      blks.Perm (tags.sets set) :=
  setWays_of_moves member (CacheSet.moveToHead_moves (permuted.nodup bound) member)

theorem Permuted.moveToTail :
    ∃ blks, tags.moveToTail set blk = .ok (tags.setWays set blks) ∧
      blks.Perm (tags.sets set) := by
  have moves := CacheSet.moveToTail_moves (permuted.nodup bound) member
  rw [permuted.length_eq bound] at moves
  exact setWays_of_moves member moves

theorem Permuted.moveTo {lru : Nat} (inside : lru < tags.assoc) :
    ∃ blks, tags.moveTo set blk lru = .ok (tags.setWays set blks) ∧
      blks.Perm (tags.sets set) := by
  rw [← permuted.length_eq bound] at inside
  exact setWays_of_moves member (CacheSet.moveTo_moves (permuted.nodup bound) member inside)

end

theorem Permuted.moveTo_outOfRange {lru : Nat} (past : tags.assoc ≤ lru) :
    tags.moveTo set blk lru = .error .outOfRange := by
  rw [SetAssoc.moveTo, CacheSet.moveTo_outOfRange (by rw [permuted.length_eq bound]; exact past)]
  rfl

end

/-! ### The other operations -/

theorem create_permuted {size : BitVec 64} {blkSize assoc : BitVec 32}
    (created : create size blkSize assoc = .ok tags) :
    tags.Permuted ∧ tags.assoc = assoc.toNat ∧ ∀ blk, tags.isValid blk = false := by
  rw [create] at created
  split_ifs at created with small uneven empty
  cases created
  have power : isPowerOf2 (BitVec.ofNat 32 (size.toNat / (blkSize * assoc).toNat)) = true := by
    rw [← Bool.not_eq_false]
    exact uneven
  obtain ⟨k, numSets⟩ := isPowerOf2_iff.mp power
  refine ⟨⟨?_, ?_, fun set bound => List.Perm.refl _, fun blk => rfl,
    fun blk valid => by cases valid⟩, rfl, fun blk => rfl⟩
  · refine Nat.pos_of_ne_zero fun zero => empty (BitVec.eq_of_toNat_eq zero)
  · show 0 < BitVec.toNat _
    rw [numSets]
    exact Nat.two_pow_pos k

theorem isValid_of_clearStatus {other : Nat} (valid : (tags.clearStatus blk).isValid other = true) :
    tags.isValid other = true := by
  replace valid : update tags.isValid blk false other = true := valid
  rw [update_apply] at valid
  split at valid
  · cases valid
  · exact valid

theorem Permuted.clearStatus (permuted : tags.Permuted) (blk : Nat) :
    (tags.clearStatus blk).Permuted :=
  { permuted with valid := fun other still => permuted.valid other (isValid_of_clearStatus still) }

theorem Permuted.insertTag (permuted : tags.Permuted) (addr : Addr) (blk : Nat) :
    (tags.insertTag addr blk).Permuted := by
  rw [SetAssoc.insertTag]
  by_cases valid : tags.isValid blk = true
  · rw [if_pos valid]
    exact { permuted.clearStatus blk with }
  · rw [if_neg valid]
    exact { permuted with }

theorem insertTag_frame (tags : SetAssoc) (addr : Addr) (blk : Nat) :
    (tags.insertTag addr blk).sets = tags.sets ∧ (tags.insertTag addr blk).assoc = tags.assoc ∧
      (tags.insertTag addr blk).numSets = tags.numSets := by
  rw [insertTag]
  split
  · exact ⟨rfl, rfl, rfl⟩
  · exact ⟨rfl, rfl, rfl⟩

theorem isValid_of_insertTag {addr : Addr} {other : Nat}
    (valid : (tags.insertTag addr blk).isValid other = true) : tags.isValid other = true := by
  rw [insertTag] at valid
  split at valid
  · exact isValid_of_clearStatus valid
  · exact valid

section

variable (permuted : tags.Permuted)
include permuted

theorem Permuted.markValid (isSecure : Bool) (bound : blk < tags.numSets * tags.assoc) :
    (tags.markValid blk isSecure).Permuted := by
  refine { permuted with valid := fun other now => ?_ }
  replace now : update tags.isValid blk true other = true := now
  by_cases same : other = blk
  · rw [same]
    exact bound
  · rw [update_of_ne same] at now
    exact permuted.valid other now

theorem Permuted.findBlock {addr : Addr} {isSecure : Bool}
    (found : tags.findBlock addr isSecure = some blk) :
    tags.isValid blk = true ∧ tags.set blk = tags.extractSet addr ∧
      blk ∈ tags.sets (tags.extractSet addr) := by
  have member := mem_of_find?_eq_some found
  have holds := find?_some found
  simp only [Bool.and_eq_true] at holds
  refine ⟨holds.1.2, ?_, member⟩
  rw [permuted.set]
  exact (permuted.mem_iff (permuted.extractSet_lt addr)).mp member

theorem Permuted.findVictim (addr : Addr) :
    ∃ blk, tags.findVictim addr = .ok blk ∧ blk ∈ tags.sets (tags.extractSet addr) := by
  have length := permuted.length_eq (permuted.extractSet_lt addr)
  have positive := permuted.positive
  rw [SetAssoc.findVictim]
  cases last : (tags.sets (tags.extractSet addr))[tags.assoc - 1]? with
  | none =>
    rw [getElem?_eq_none_iff] at last
    omega
  | some blk => exact ⟨blk, rfl, mem_of_getElem? last⟩

theorem Permuted.mem_lt (bound : set < tags.numSets) (member : blk ∈ tags.sets set) :
    blk < tags.numSets * tags.assoc := by
  have belongs := (permuted.mem_iff bound).mp member
  rw [← belongs] at bound
  exact (Nat.div_lt_iff_lt_mul permuted.positive).mp bound

end

end SetAssoc

end Gem5.Mem
