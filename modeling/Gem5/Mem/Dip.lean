/-
This file models the tag store that selects between two insertion policies
(`mem/cache/tags/dip.cc`, `bip.cc`, `psel.cc`) beside the plain one
(`mem/cache/tags/lru.cc`) and proves that the sets are isolated: a call changes
only the set it goes to, so a set that is dedicated to the plain policy, or one
that follows while the selector is not over, has the blocks in the order in which
the plain tag store has them, whatever happens in the other sets.
-/

import Gem5.Mem.CacheSet

namespace Gem5.Mem

open Base Library List Function

/-- The calls of a cache. A fill replaces the victim and marks the block valid. -/
inductive TagCall where
  | access (addr : Addr) (isSecure : Bool)
  | fill (addr : Addr) (isSecure : Bool)
  | invalidate (blk : Nat)
deriving DecidableEq, Repr

def TagCall.set (tags : SetAssoc) : TagCall → Nat
  | .access addr _ => tags.extractSet addr
  | .fill addr _ => tags.extractSet addr
  | .invalidate blk => tags.set blk

/-! ### The plain tag store -/

namespace Lru

def accessBlock (tags : SetAssoc) (addr : Addr) (isSecure : Bool) : Except TagFault SetAssoc :=
  match tags.findBlock addr isSecure with
  | none => .ok tags
  | some blk => tags.moveToHead (tags.set blk) blk

def insertBlock (tags : SetAssoc) (addr : Addr) (blk : Nat) : Except TagFault SetAssoc :=
  (tags.insertTag addr blk).moveToHead (tags.extractSet addr) blk

def step (tags : SetAssoc) : TagCall → Except TagFault (SetAssoc × Option Nat)
  | .access addr isSecure => do
    let accessed ← accessBlock tags addr isSecure
    return (accessed, none)
  | .fill addr isSecure => do
    let blk ← tags.findVictim addr
    let inserted ← insertBlock tags addr blk
    return (inserted.markValid blk isSecure, some blk)
  | .invalidate blk => do
    let moved ← tags.invalidate blk
    return (moved, none)

end Lru

/-! ### The tag store with two policies -/

structure PolicySelector where
  counter : Nat
  max : Nat
deriving DecidableEq, Repr

namespace PolicySelector

def create (nbit : Nat) : PolicySelector := ⟨(2 ^ nbit - 1) / 2, 2 ^ nbit - 1⟩

def increment (psel : PolicySelector) : PolicySelector :=
  { psel with counter := if psel.counter < psel.max then psel.counter + 1 else psel.max }

def decrement (psel : PolicySelector) : PolicySelector :=
  { psel with counter := if 0 < psel.counter then psel.counter - 1 else 0 }

def isOver (psel : PolicySelector) : Bool := psel.max / 2 < psel.counter

end PolicySelector

structure Dip where
  base : SetAssoc
  psel : PolicySelector
  epsilonNumerator : BitVec 32
  epsilonDenominator : BitVec 32
  epsilonCounter : BitVec 32
  numSetsInConstituency : Nat

namespace Dip

def getConstituencyID (numSetsInConstituency set : Nat) : Nat := set / numSetsInConstituency

def getConstituencyOffset (numSetsInConstituency set : Nat) : Nat := set % numSetsInConstituency

def isDedicatedLRU (numSetsInConstituency set : Nat) : Bool :=
  let id := getConstituencyID numSetsInConstituency set
  let offset := getConstituencyOffset numSetsInConstituency set
  if id % 2 = 0 then false else id % numSetsInConstituency = offset

def isDedicatedBIP (numSetsInConstituency set : Nat) : Bool :=
  let id := getConstituencyID numSetsInConstituency set
  let offset := getConstituencyOffset numSetsInConstituency set
  if id % 2 = 1 then false
  else id % numSetsInConstituency = (~~~(BitVec.ofNat 32 offset)).toNat % numSetsInConstituency

/-- The dedicated sets must not collide, and there must be as many of each policy as were asked
for. -/
def checkConstituency (numSets numAllDedicatedSets numSetsInConstituency : Nat) : Bool :=
  let lru := (range numSets).countP (isDedicatedLRU numSetsInConstituency)
  let bip := (range numSets).countP (isDedicatedBIP numSetsInConstituency)
  (range numSets).all (fun set =>
      !(isDedicatedLRU numSetsInConstituency set && isDedicatedBIP numSetsInConstituency set)) &&
    lru = bip && lru + bip = numAllDedicatedSets

/-- How the constructor ends: a division by zero, `fatal`, or the number of sets in a
constituency. -/
inductive Outcome where
  | divisionByZero
  | fatal
  | accepted (numSetsInConstituency : Nat)

/-- The part of the constructor that checks the number of dedicated sets. -/
def construct (numSets ndsets : Nat) : Outcome :=
  let numSetsInConstituency := numSets / (ndsets * 2)
  if numSetsInConstituency = 0 then .divisionByZero
  else if checkConstituency numSets (ndsets * 2) numSetsInConstituency then
    .accepted numSetsInConstituency
  else .fatal

structure Params where
  size : BitVec 64
  blkSize : BitVec 32
  assoc : BitVec 32
  epsilonNumerator : BitVec 32
  epsilonDenominator : BitVec 32
  ndsets : Nat
  pselBits : Nat

def create (params : Params) : Except TagFault Dip := do
  let base ← SetAssoc.create params.size params.blkSize params.assoc
  match construct base.numSets params.ndsets with
  | .divisionByZero | .fatal => throw .badParameters
  | .accepted numSetsInConstituency =>
    return {
      base := base
      psel := .create params.pselBits
      epsilonNumerator := params.epsilonNumerator
      epsilonDenominator := params.epsilonDenominator
      epsilonCounter := 0
      numSetsInConstituency := numSetsInConstituency }

/-- A miss in a dedicated set moves the selector. -/
def setSampling (dip : Dip) (set : Nat) : Dip :=
  let counted := if isDedicatedLRU dip.numSetsInConstituency set then dip.psel.increment
    else dip.psel
  { dip with
    psel := if isDedicatedBIP dip.numSetsInConstituency set then counted.decrement else counted }

def accessBlock (dip : Dip) (addr : Addr) (isSecure : Bool) : Except TagFault Dip :=
  match dip.base.findBlock addr isSecure with
  | none => .ok (dip.setSampling (dip.base.extractSet addr))
  | some blk => do
    let base ← dip.base.moveToHead (dip.base.set blk) blk
    return { dip with base := base }

/-- The counter of all insertions by the bimodal policy. -/
def countEpsilon (dip : Dip) : BitVec 32 :=
  if dip.epsilonDenominator ≤ dip.epsilonCounter + 1 then 0 else dip.epsilonCounter + 1

def insertBlockBip (dip : Dip) (addr : Addr) (blk : Nat) : Except TagFault Dip :=
  if dip.epsilonCounter < dip.epsilonNumerator then do
    let base ← dip.base.moveToHead (dip.base.extractSet addr) blk
    return { dip with base := base, epsilonCounter := dip.countEpsilon }
  else .ok { dip with epsilonCounter := dip.countEpsilon }

def insertBlockLru (dip : Dip) (addr : Addr) (blk : Nat) : Except TagFault Dip := do
  let base ← dip.base.moveToHead (dip.base.extractSet addr) blk
  return { dip with base := base }

def insertBlock (dip : Dip) (addr : Addr) (blk : Nat) : Except TagFault Dip :=
  let inserted := { dip with base := dip.base.insertTag addr blk }
  let set := dip.base.extractSet addr
  if isDedicatedLRU dip.numSetsInConstituency set then inserted.insertBlockLru addr blk
  else if isDedicatedBIP dip.numSetsInConstituency set then inserted.insertBlockBip addr blk
  else if dip.psel.isOver then inserted.insertBlockBip addr blk
  else inserted.insertBlockLru addr blk

def step (dip : Dip) : TagCall → Except TagFault (Dip × Option Nat)
  | .access addr isSecure => do
    let accessed ← dip.accessBlock addr isSecure
    return (accessed, none)
  | .fill addr isSecure => do
    let blk ← dip.base.findVictim addr
    let inserted ← dip.insertBlock addr blk
    return ({ inserted with base := inserted.base.markValid blk isSecure }, some blk)
  | .invalidate blk => do
    let base ← dip.base.invalidate blk
    return ({ dip with base := base }, none)

end Dip

/-! ### The isolation of the sets -/

namespace SetAssoc

/-- Two tag stores of one geometry have the same blocks in a set, in the same order and with the
same tags and status. -/
structure SameSet (set : Nat) (first second : SetAssoc) : Prop where
  assoc : first.assoc = second.assoc
  numSets : first.numSets = second.numSets
  setShift : first.setShift = second.setShift
  tagShift : first.tagShift = second.tagShift
  ways : first.sets set = second.sets set
  tag : ∀ blk, blk / first.assoc = set → first.tag blk = second.tag blk
  isValid : ∀ blk, blk / first.assoc = set → first.isValid blk = second.isValid blk
  isSecure : ∀ blk, blk / first.assoc = set → first.isSecure blk = second.isSecure blk

variable {tags first second third : SetAssoc} {set blk : Nat}

theorem SameSet.refl (set : Nat) (tags : SetAssoc) : SameSet set tags tags :=
  ⟨rfl, rfl, rfl, rfl, rfl, fun _ _ => rfl, fun _ _ => rfl, fun _ _ => rfl⟩

theorem SameSet.symm (same : SameSet set first second) : SameSet set second first where
  assoc := same.assoc.symm
  numSets := same.numSets.symm
  setShift := same.setShift.symm
  tagShift := same.tagShift.symm
  ways := same.ways.symm
  tag blk here := (same.tag blk (same.assoc ▸ here)).symm
  isValid blk here := (same.isValid blk (same.assoc ▸ here)).symm
  isSecure blk here := (same.isSecure blk (same.assoc ▸ here)).symm

theorem SameSet.trans (left : SameSet set first second) (right : SameSet set second third) :
    SameSet set first third where
  assoc := left.assoc.trans right.assoc
  numSets := left.numSets.trans right.numSets
  setShift := left.setShift.trans right.setShift
  tagShift := left.tagShift.trans right.tagShift
  ways := left.ways.trans right.ways
  tag blk here := (left.tag blk here).trans (right.tag blk (left.assoc ▸ here))
  isValid blk here := (left.isValid blk here).trans (right.isValid blk (left.assoc ▸ here))
  isSecure blk here := (left.isSecure blk here).trans (right.isSecure blk (left.assoc ▸ here))

theorem SameSet.extractSet (same : SameSet set first second) (addr : Addr) :
    first.extractSet addr = second.extractSet addr := by
  rw [SetAssoc.extractSet, SetAssoc.extractSet, same.setShift, same.numSets]

theorem SameSet.extractTag (same : SameSet set first second) (addr : Addr) :
    first.extractTag addr = second.extractTag addr := by
  rw [SetAssoc.extractTag, SetAssoc.extractTag, same.tagShift]

/-! Each operation does the same to two stores with the same set. -/

theorem SameSet.setWays (same : SameSet set first second) (blks : List Nat) :
    SameSet set (first.setWays set blks) (second.setWays set blks) := by
  refine { same with ways := ?_ }
  show update first.sets set blks set = update second.sets set blks set
  rw [update_self, update_self]

/-- A write to one block of both stores. -/
theorem update_congr {Value : Type} {left right : Nat → Value} {assoc : Nat}
    (same : ∀ blk, blk / assoc = set → left blk = right blk) (blk : Nat) {value other : Value}
    (equal : blk / assoc = set → value = other) :
    ∀ item, item / assoc = set →
      update left blk value item = update right blk other item := by
  intro item here
  by_cases target : item = blk
  · subst target
    rw [update_self, update_self, equal here]
  · rw [update_of_ne target, update_of_ne target, same item here]

section

variable (same : SameSet set first second)
include same

theorem SameSet.clearStatus (blk : Nat) :
    SameSet set (first.clearStatus blk) (second.clearStatus blk) :=
  { same with
    isValid := update_congr same.isValid blk fun _ => rfl
    isSecure := update_congr same.isSecure blk fun _ => rfl }

theorem SameSet.markValid (blk : Nat) (isSecure : Bool) :
    SameSet set (first.markValid blk isSecure) (second.markValid blk isSecure) :=
  { same with
    isValid := update_congr same.isValid blk fun _ => rfl
    isSecure := update_congr same.isSecure blk fun here => by rw [same.isSecure blk here] }

theorem SameSet.insertTag (here : blk / first.assoc = set) (addr : Addr) : SameSet set
    (first.insertTag addr blk) (second.insertTag addr blk) := by
  have tagged : ∀ {left right : SetAssoc}, SameSet set left right →
      SameSet set { left with tag := update left.tag blk (first.extractTag addr) }
        { right with tag := update right.tag blk (second.extractTag addr) } := by
    intro left right equal
    exact { equal with tag := update_congr equal.tag blk fun _ => same.extractTag addr }
  rw [SetAssoc.insertTag, SetAssoc.insertTag, same.isValid blk here]
  split
  · exact tagged (same.clearStatus blk)
  · exact tagged same

theorem SameSet.moveToHead (blk : Nat) :
    Agree (SameSet set) (first.moveToHead set blk) (second.moveToHead set blk) := by
  rw [SetAssoc.moveToHead, SetAssoc.moveToHead, same.ways]
  cases CacheSet.moveToHead (second.sets set) blk with
  | error => exact rfl
  | ok blks => exact same.setWays blks

theorem SameSet.moveToTail (blk : Nat) :
    Agree (SameSet set) (first.moveToTail set blk) (second.moveToTail set blk) := by
  rw [SetAssoc.moveToTail, SetAssoc.moveToTail, same.ways, same.assoc]
  cases CacheSet.moveToTail second.assoc (second.sets set) blk with
  | error => exact rfl
  | ok blks => exact same.setWays blks

theorem SameSet.findBlock (permuted : first.Permuted)
    {addr : Addr} (here : first.extractSet addr = set) (isSecure : Bool) :
    first.findBlock addr isSecure = second.findBlock addr isSecure := by
  have bound : set < first.numSets := here ▸ permuted.extractSet_lt addr
  rw [SetAssoc.findBlock, SetAssoc.findBlock, ← same.extractSet, here, ← same.ways, findBlk,
    findBlk, same.extractTag]
  rw [← head?_filter, ← head?_filter]
  refine congrArg head? (filter_congr fun blk member => ?_)
  have belongs := (permuted.mem_iff bound).mp member
  rw [same.tag blk belongs, same.isValid blk belongs, same.isSecure blk belongs]

theorem SameSet.findVictim {addr : Addr} (here : first.extractSet addr = set) :
    first.findVictim addr = second.findVictim addr := by
  rw [SetAssoc.findVictim, SetAssoc.findVictim, ← same.extractSet, here, same.ways, same.assoc]

end

/-! Each operation leaves the other sets alone. -/

variable {other : Nat}

theorem setWays_other (apart : other ≠ set) (tags : SetAssoc) (blks : List Nat) :
    SameSet other tags (tags.setWays set blks) := by
  refine ⟨rfl, rfl, rfl, rfl, ?_, fun _ _ => rfl, fun _ _ => rfl, fun _ _ => rfl⟩
  exact (update_of_ne apart blks tags.sets).symm

/-- A write to a block of another set. -/
theorem update_other {Value : Type} (field : Nat → Value) {assoc : Nat}
    (apart : blk / assoc ≠ other) (value : Value) :
    ∀ item, item / assoc = other → field item = update field blk value item := by
  intro item here
  refine (update_of_ne ?_ value field).symm
  rintro rfl
  exact apart here

theorem clearStatus_other (tags : SetAssoc) (apart : blk / tags.assoc ≠ other) :
    SameSet other tags (tags.clearStatus blk) :=
  ⟨rfl, rfl, rfl, rfl, rfl, fun _ _ => rfl, update_other _ apart false, update_other _ apart false⟩

theorem markValid_other (tags : SetAssoc) (apart : blk / tags.assoc ≠ other) (isSecure : Bool) :
    SameSet other tags (tags.markValid blk isSecure) :=
  ⟨rfl, rfl, rfl, rfl, rfl, fun _ _ => rfl, update_other _ apart true, update_other _ apart _⟩

theorem insertTag_other (tags : SetAssoc) (apart : blk / tags.assoc ≠ other) (addr : Addr) :
    SameSet other tags (tags.insertTag addr blk) := by
  rw [SetAssoc.insertTag]
  split
  · refine (clearStatus_other tags apart).trans ?_
    exact ⟨rfl, rfl, rfl, rfl, rfl, update_other _ apart _, fun _ _ => rfl, fun _ _ => rfl⟩
  · exact ⟨rfl, rfl, rfl, rfl, rfl, update_other _ apart _, fun _ _ => rfl, fun _ _ => rfl⟩

theorem moveToHead_other (apart : other ≠ set) (moved : tags.moveToHead set blk = .ok first) :
    SameSet other tags first := by
  obtain ⟨blks, _, rfl⟩ := map_eq_ok moved
  exact setWays_other apart tags blks

theorem invalidate_other (permuted : tags.Permuted) (apart : tags.set blk ≠ other)
    (moved : tags.invalidate blk = .ok first) : SameSet other tags first := by
  rw [SetAssoc.invalidate] at moved
  obtain ⟨-, moved⟩ := then_eq_ok moved
  obtain ⟨middle, shifted, returned⟩ := bind_eq_ok moved
  obtain ⟨blks, _, rfl⟩ := map_eq_ok shifted
  have same := setWays_other (Ne.symm apart) tags blks
  cases returned
  refine same.trans (clearStatus_other _ ?_)
  rwa [← same.assoc, ← permuted.set]

theorem SameSet.invalidate (same : SameSet set first second) (left : first.Permuted)
    (right : second.Permuted) (here : first.set blk = set) :
    Agree (SameSet set) (first.invalidate blk) (second.invalidate blk) := by
  have belongs : blk / first.assoc = set := by
    rw [← left.set]
    exact here
  have there : second.set blk = set := by
    rw [right.set, ← same.assoc]
    exact belongs
  rw [SetAssoc.invalidate, SetAssoc.invalidate, here, there, same.isValid blk belongs]
  refine Agree.ite (fun _ => ?_) fun _ => rfl
  exact (same.moveToTail blk).bind fun _ _ equal => equal.clearStatus blk

end SetAssoc

namespace Lru

open SetAssoc

variable {tags first second next : SetAssoc} {set other : Nat} {call : TagCall}
  {victim : Option Nat}

theorem step_same (same : SameSet set first second) (left : first.Permuted)
    (right : second.Permuted) (here : call.set first = set) :
    Agree (fun one two => SameSet set one.1 two.1 ∧ one.2 = two.2) (step first call)
      (step second call) := by
  cases call with
  | access addr isSecure =>
    have found := same.findBlock left here isSecure
    have accessed : Agree (SameSet set) (accessBlock first addr isSecure)
        (accessBlock second addr isSecure) := by
      rw [accessBlock, accessBlock, ← found]
      cases hit : first.findBlock addr isSecure with
      | none => exact same
      | some blk =>
        have belongs : first.set blk = set := (left.findBlock hit).2.1.trans here
        have there : second.set blk = set := by
          rw [right.set, ← same.assoc, ← left.set]
          exact belongs
        dsimp only
        rw [belongs, there]
        exact same.moveToHead blk
    exact accessed.bind fun _ _ equal => ⟨equal, rfl⟩
  | fill addr isSecure =>
    obtain ⟨blk, found, member⟩ := left.findVictim addr
    have belongs : blk / first.assoc = set :=
      ((left.mem_iff (left.extractSet_lt addr)).mp member).trans here
    have inserted : Agree (SameSet set) (insertBlock first addr blk)
        (insertBlock second addr blk) := by
      rw [insertBlock, insertBlock, ← same.extractSet, show first.extractSet addr = set from here]
      exact (same.insertTag belongs addr).moveToHead blk
    rw [step, step, ← same.findVictim here, found, ok_bind, ok_bind]
    exact inserted.bind fun _ _ equal => ⟨equal.markValid blk isSecure, rfl⟩
  | invalidate =>
    exact (same.invalidate left right here).bind fun _ _ equal => ⟨equal, rfl⟩

end Lru

/-! ### What a call of either store changes -/

namespace SetAssoc

/-- The tags after a call of either store. The policies differ in whether a fill moves the block to
the first way. -/
inductive Changed (tags : SetAssoc) : TagCall → SetAssoc → Option Nat → Prop where
  | missed {addr : Addr} {isSecure : Bool} : Changed tags (.access addr isSecure) tags none
  | hit {addr : Addr} {isSecure : Bool} {blk : Nat} {next : SetAssoc}
      (found : tags.findBlock addr isSecure = some blk)
      (moved : tags.moveToHead (tags.set blk) blk = .ok next) :
      Changed tags (.access addr isSecure) next none
  | filled {addr : Addr} {isSecure : Bool} {blk : Nat} {inserted : SetAssoc}
      (found : tags.findVictim addr = .ok blk)
      (moved : inserted = tags.insertTag addr blk ∨
        (tags.insertTag addr blk).moveToHead (tags.extractSet addr) blk = .ok inserted) :
      Changed tags (.fill addr isSecure) (inserted.markValid blk isSecure) (some blk)
  | invalidated {blk : Nat} {next : SetAssoc} (moved : tags.invalidate blk = .ok next) :
      Changed tags (.invalidate blk) next none

variable {tags next : SetAssoc} {set other : Nat} {call : TagCall} {victim : Option Nat}

theorem Permuted.mem_of_findVictim (permuted : tags.Permuted) {addr : Addr} {blk : Nat}
    (found : tags.findVictim addr = .ok blk) : blk ∈ tags.sets (tags.extractSet addr) := by
  obtain ⟨_, searched, member⟩ := permuted.findVictim addr
  cases found.symm.trans searched
  exact member

theorem Changed.elsewhere (changed : tags.Changed call next victim) (permuted : tags.Permuted)
    (apart : call.set tags ≠ other) : SameSet other tags next := by
  cases changed with
  | missed => exact .refl other tags
  | hit found moved =>
    refine moveToHead_other (fun same => apart ?_) moved
    rw [same, (permuted.findBlock found).2.1]
    rfl
  | @filled addr isSecure blk inserted found moved =>
    have belongs := (permuted.mem_iff (permuted.extractSet_lt addr)).mp
      (permuted.mem_of_findVictim found)
    have outside : blk / tags.assoc ≠ other := fun same => apart (belongs.symm.trans same)
    have tagged := insertTag_other tags outside addr
    have middle : SameSet other tags inserted := by
      rcases moved with rfl | moved
      · exact tagged
      · exact tagged.trans (moveToHead_other (Ne.symm apart) moved)
    exact middle.trans (markValid_other inserted (middle.assoc ▸ outside) isSecure)
  | invalidated moved => exact invalidate_other permuted apart moved

theorem Changed.permuted (changed : tags.Changed call next victim) (permuted : tags.Permuted) :
    next.Permuted := by
  cases changed with
  | missed => exact permuted
  | @hit addr _ _ _ found moved =>
    obtain ⟨_, belongs, member⟩ := permuted.findBlock found
    rw [belongs] at moved
    obtain ⟨_, done, perm⟩ := permuted.moveToHead (permuted.extractSet_lt addr) member
    cases moved.symm.trans done
    exact permuted.setWays perm
  | @filled addr isSecure blk _ found moved =>
    have bound := permuted.extractSet_lt addr
    have member := permuted.mem_of_findVictim found
    have small := permuted.mem_lt bound member
    have tagged := permuted.insertTag addr blk
    obtain ⟨sets, assoc, numSets⟩ := tags.insertTag_frame addr blk
    rcases moved with rfl | moved
    · exact tagged.markValid isSecure (by rw [numSets, assoc]; exact small)
    · obtain ⟨_, done, perm⟩ := tagged.moveToHead (numSets ▸ bound) (sets ▸ member)
      cases moved.symm.trans done
      refine (tagged.setWays perm).markValid isSecure ?_
      show blk < (tags.insertTag addr blk).numSets * (tags.insertTag addr blk).assoc
      rw [numSets, assoc]
      exact small
  | @invalidated blk _ moved =>
    rw [SetAssoc.invalidate] at moved
    obtain ⟨valid, moved⟩ := then_eq_ok moved
    have bound := permuted.set_lt (permuted.valid blk valid)
    have member : blk ∈ tags.sets (tags.set blk) := by
      rw [permuted.mem_iff bound, permuted.set]
    obtain ⟨_, done, perm⟩ := permuted.moveToTail bound member
    rw [done] at moved
    cases moved
    exact (permuted.setWays perm).clearStatus blk

end SetAssoc

open SetAssoc

theorem Lru.step_changed {tags next : SetAssoc} {call : TagCall} {victim : Option Nat}
    (taken : Lru.step tags call = .ok (next, victim)) : tags.Changed call next victim := by
  cases call with
  | access =>
    obtain ⟨_, done, returned⟩ := bind_eq_ok taken
    cases returned
    rw [accessBlock] at done
    split at done
    · cases done
      exact .missed
    · rename_i found
      exact .hit found done
  | fill =>
    obtain ⟨_, found, continued⟩ := bind_eq_ok taken
    obtain ⟨_, done, returned⟩ := bind_eq_ok continued
    cases returned
    exact .filled found (.inr done)
  | invalidate =>
    obtain ⟨_, done, returned⟩ := bind_eq_ok taken
    cases returned
    exact .invalidated done

namespace Dip

variable {dip next : Dip} {set blk : Nat} {call : TagCall} {victim : Option Nat} {addr : Addr}

theorem insertTag_extractSet (tags : SetAssoc) (addr : Addr) (blk : Nat) :
    (tags.insertTag addr blk).extractSet addr = tags.extractSet addr := by
  rw [SetAssoc.insertTag]
  split
  · rfl
  · rfl

theorem insertBlockLru_eq (inserted : dip.insertBlockLru addr blk = .ok next) :
    next.numSetsInConstituency = dip.numSetsInConstituency ∧
      dip.base.moveToHead (dip.base.extractSet addr) blk = .ok next.base := by
  obtain ⟨_, moved, rfl⟩ := map_eq_ok inserted
  exact ⟨rfl, moved⟩

theorem insertBlockBip_cases (inserted : dip.insertBlockBip addr blk = .ok next) :
    next.numSetsInConstituency = dip.numSetsInConstituency ∧
      (next.base = dip.base ∨
        dip.base.moveToHead (dip.base.extractSet addr) blk = .ok next.base) := by
  rw [insertBlockBip] at inserted
  split at inserted
  · obtain ⟨_, moved, rfl⟩ := map_eq_ok inserted
    exact ⟨rfl, .inr moved⟩
  · cases inserted
    exact ⟨rfl, .inl rfl⟩

theorem insertBlock_cases (inserted : dip.insertBlock addr blk = .ok next) :
    next.numSetsInConstituency = dip.numSetsInConstituency ∧
      (next.base = dip.base.insertTag addr blk ∨
        (dip.base.insertTag addr blk).moveToHead (dip.base.extractSet addr) blk =
          .ok next.base) := by
  rw [← insertTag_extractSet dip.base addr blk]
  rw [insertBlock] at inserted
  split at inserted
  · exact (insertBlockLru_eq inserted).imp_right .inr
  · split at inserted
    · exact insertBlockBip_cases inserted
    · split at inserted
      · exact insertBlockBip_cases inserted
      · exact (insertBlockLru_eq inserted).imp_right .inr

theorem step_changed (taken : dip.step call = .ok (next, victim)) :
    next.numSetsInConstituency = dip.numSetsInConstituency ∧
      dip.base.Changed call next.base victim := by
  cases call with
  | access =>
    obtain ⟨_, done, returned⟩ := bind_eq_ok taken
    cases returned
    rw [accessBlock] at done
    split at done
    · cases done
      exact ⟨rfl, .missed⟩
    · rename_i found
      obtain ⟨_, moved, rfl⟩ := map_eq_ok done
      exact ⟨rfl, .hit found moved⟩
  | fill =>
    obtain ⟨_, found, continued⟩ := bind_eq_ok taken
    obtain ⟨_, done, returned⟩ := bind_eq_ok continued
    obtain ⟨same, moved⟩ := insertBlock_cases done
    cases returned
    exact ⟨same, .filled found moved⟩
  | invalidate =>
    obtain ⟨_, done, returned⟩ := bind_eq_ok taken
    cases returned
    exact ⟨rfl, .invalidated done⟩

/-- The set is dedicated to the plain policy, or it follows and the selector is not over. -/
def Plain (dip : Dip) (set : Nat) : Prop :=
  isDedicatedLRU dip.numSetsInConstituency set = true ∨
    (isDedicatedBIP dip.numSetsInConstituency set = false ∧ dip.psel.isOver = false)

theorem Plain.insertBlock (plain : dip.Plain (dip.base.extractSet addr)) (blk : Nat) :
    Agree (fun one two => one.base = two) (dip.insertBlock addr blk)
      (Lru.insertBlock dip.base addr blk) := by
  have inserted : Agree (fun one two => one.base = two)
      (insertBlockLru { dip with base := dip.base.insertTag addr blk } addr blk)
      (Lru.insertBlock dip.base addr blk) := by
    rw [insertBlockLru, Lru.insertBlock]
    rw [insertTag_extractSet]
    cases (dip.base.insertTag addr blk).moveToHead (dip.base.extractSet addr) blk with
    | error => exact rfl
    | ok => exact rfl
  rw [Dip.insertBlock]
  rcases plain with dedicated | ⟨follows, under⟩
  · rw [if_pos dedicated]
    exact inserted
  · rw [if_neg (Bool.eq_false_iff.mp follows), if_neg (Bool.eq_false_iff.mp under), ite_self]
    exact inserted

theorem Plain.step (plain : dip.Plain (call.set dip.base)) :
    Agree (fun one two => one.1.base = two.1 ∧ one.2 = two.2) (dip.step call)
      (Lru.step dip.base call) := by
  cases call with
  | access addr isSecure =>
    have accessed : Agree (fun one two => one.base = two) (dip.accessBlock addr isSecure)
        (Lru.accessBlock dip.base addr isSecure) := by
      rw [accessBlock, Lru.accessBlock]
      cases dip.base.findBlock addr isSecure with
      | none => exact rfl
      | some blk =>
        dsimp only
        cases dip.base.moveToHead (dip.base.set blk) blk with
        | error => exact rfl
        | ok => exact rfl
    exact accessed.bind fun _ _ same => ⟨same, rfl⟩
  | fill addr isSecure =>
    rw [Dip.step, Lru.step]
    cases dip.base.findVictim addr with
    | error => exact rfl
    | ok blk =>
      exact (plain.insertBlock blk).bind fun _ _ same =>
        ⟨congrArg (markValid · blk isSecure) same, rfl⟩
  | invalidate blk =>
    rw [Dip.step, Lru.step]
    cases dip.base.invalidate blk with
    | error => exact rfl
    | ok => exact ⟨rfl, rfl⟩

end Dip

/-! ### The order of the blocks in one set -/

/-- A tag store with the victims of one set and the orders of its blocks after each call that went
to it. -/
structure Watched (Store : Type) where
  store : Store
  log : List (Option Nat × List Nat)

namespace Watched

def step {Store : Type} (stepOf : Store → TagCall → Except TagFault (Store × Option Nat))
    (tagsOf : Store → SetAssoc) (set : Nat) (watched : Watched Store) (call : TagCall) :
    Except TagFault (Watched Store) := do
  let (next, victim) ← stepOf watched.store call
  return {
    store := next
    log := if call.set (tagsOf watched.store) = set
      then watched.log ++ [(victim, (tagsOf next).sets set)] else watched.log }

/-- The plain store, watched at one set. -/
def stepLru (set : Nat) : Watched SetAssoc → TagCall → Except TagFault (Watched SetAssoc) :=
  step Lru.step id set

/-- The store with two policies, watched at one set. -/
def stepDip (set : Nat) : Watched Dip → TagCall → Except TagFault (Watched Dip) :=
  step Dip.step Dip.base set

def callsTo (tags : SetAssoc) (set : Nat) (calls : List TagCall) : List TagCall :=
  calls.filter fun call => call.set tags = set

theorem call_set_eq {first second : SetAssoc} {set : Nat} (same : SameSet set first second)
    (left : first.Permuted) (right : second.Permuted) (call : TagCall) :
    call.set first = call.set second := by
  cases call with
  | access addr isSecure | fill addr isSecure => exact same.extractSet addr
  | invalidate blk =>
    show first.set blk = second.set blk
    rw [left.set, right.set, same.assoc]

section Projection

variable {Store : Type} (stepOf : Store → TagCall → Except TagFault (Store × Option Nat))
  (tagsOf : Store → SetAssoc) (set : Nat) (plain : Store → Prop)

theorem project
    (changed : ∀ store call next victim, stepOf store call = .ok (next, victim) →
      (tagsOf store).Changed call (tagsOf next) victim)
    (agrees : ∀ store call, plain store → call.set (tagsOf store) = set →
      Agree (fun one two => tagsOf one.1 = two.1 ∧ one.2 = two.2) (stepOf store call)
        (Lru.step (tagsOf store) call))
    {calls : List TagCall} {watched final : Watched Store}
    (run : Run (step stepOf tagsOf set) (fun watched _ => plain watched.store) watched calls final)
    {lru : Watched SetAssoc} (same : SameSet set (tagsOf watched.store) lru.store)
    (left : (tagsOf watched.store).Permuted) (right : lru.store.Permuted)
    (logs : watched.log = lru.log) :
    ∃ last, Run (stepLru set) (fun _ _ => True) lru (callsTo lru.store set calls) last ∧
      SameSet set (tagsOf final.store) last.store ∧ final.log = last.log := by
  induction run generalizing lru with
  | nil => exact ⟨lru, .nil lru, same, logs⟩
  | @cons watched _ _ call rest meets taken _ hypothesis =>
    obtain ⟨⟨store, victim⟩, stepped, returned⟩ := bind_eq_ok taken
    have change := changed _ _ _ _ stepped
    have permuted := change.permuted left
    have equal := call_set_eq same left right call
    cases returned
    by_cases here : call.set (tagsOf watched.store) = set
    · obtain ⟨⟨middle, sameVictim⟩, plainly, ⟨rfl, rfl⟩⟩ :=
        (agrees _ call meets here).ok_left stepped
      obtain ⟨⟨after, _⟩, mirrored, equalSet, rfl⟩ :=
        (Lru.step_same same left right here).ok_left plainly
      have mirror := Lru.step_changed mirrored
      have there : call.set lru.store = set := equal.symm.trans here
      have geometry : SameSet (set + 1) lru.store after :=
        mirror.elsewhere right (by omega)
      have filtered : callsTo lru.store set (call :: rest) = call :: callsTo after set rest := by
        rw [callsTo, filter_cons_of_pos (by simpa using there), callsTo]
        simp only [call_set_eq geometry right (mirror.permuted right)]
      obtain ⟨last, ran, finished⟩ := @hypothesis
        ⟨after, lru.log ++ [(victim, after.sets set)]⟩ equalSet permuted (mirror.permuted right) (by
          show (if call.set (tagsOf watched.store) = set
            then watched.log ++ [(victim, (tagsOf store).sets set)] else _) = _
          rw [if_pos here, logs, equalSet.ways])
      refine ⟨last, ?_, finished⟩
      rw [filtered]
      refine .cons trivial ?_ ran
      rw [stepLru, step, mirrored, ok_bind]
      show Except.ok (Watched.mk after (if call.set lru.store = set then _ else _)) = _
      rw [if_pos there]
      rfl
    · have apart := change.elsewhere left here
      have filtered : callsTo lru.store set (call :: rest) = callsTo lru.store set rest := by
        rw [callsTo, filter_cons_of_neg (by simpa [← equal] using here)]
        rfl
      rw [filtered]
      refine hypothesis (apart.symm.trans same) permuted right ?_
      rw [if_neg here]
      exact logs

end Projection

theorem project_lru {set : Nat} {calls : List TagCall} {lru final : Watched SetAssoc}
    (run : Run (stepLru set) (fun _ _ => True) lru calls final) (permuted : lru.store.Permuted) :
    ∃ last, Run (stepLru set) (fun _ _ => True) lru (callsTo lru.store set calls) last ∧
      SameSet set final.store last.store ∧ final.log = last.log :=
  project Lru.step id set (fun _ => True) (fun _ _ _ _ => Lru.step_changed)
    (fun store call _ _ => by
      show Agree _ (Lru.step store call) (Lru.step store call)
      cases Lru.step store call with
      | error => exact rfl
      | ok => exact ⟨rfl, rfl⟩)
    run (.refl set lru.store) permuted permuted rfl

theorem create_permuted {params : Dip.Params} {dip : Dip} (created : Dip.create params = .ok dip) :
    dip.base.Permuted ∧
      SetAssoc.create params.size params.blkSize params.assoc = .ok dip.base := by
  obtain ⟨_, made, continued⟩ := bind_eq_ok created
  have permuted := (SetAssoc.create_permuted made).1
  split at continued
  · cases continued
  · cases continued
  · cases continued
    exact ⟨permuted, made⟩

/-- What holds of the store in every run. -/
def Kept (numSetsInConstituency : Nat) (watched : Watched Dip) : Prop :=
  watched.store.base.Permuted ∧ watched.store.numSetsInConstituency = numSetsInConstituency

theorem Kept.step {set numSetsInConstituency : Nat} {watched next : Watched Dip} {call : TagCall}
    (kept : watched.Kept numSetsInConstituency) (taken : stepDip set watched call = .ok next) :
    next.Kept numSetsInConstituency := by
  obtain ⟨_, stepped, returned⟩ := bind_eq_ok taken
  obtain ⟨same, changed⟩ := Dip.step_changed stepped
  cases returned
  exact ⟨changed.permuted kept.1, same.trans kept.2⟩

theorem plain_matches {set : Nat} {calls : List TagCall} {dip : Dip} {final : Watched Dip}
    {lru : SetAssoc}
    (run : Run (stepDip set) (fun watched _ => watched.store.Plain set) ⟨dip, []⟩ calls final)
    (same : SameSet set dip.base lru) (left : dip.base.Permuted) (right : lru.Permuted) :
    (∃ last, Run (stepLru set) (fun _ _ => True) ⟨lru, []⟩ (callsTo lru set calls) last) ∧
      ∀ lruCalls last, callsTo lru set lruCalls = callsTo lru set calls →
        Run (stepLru set) (fun _ _ => True) ⟨lru, []⟩ lruCalls last →
        final.log = last.log ∧ final.store.base.sets set = last.store.sets set := by
  obtain ⟨mirror, ran, equal, logged⟩ := @project _ Dip.step Dip.base set (fun dip => dip.Plain set)
    (fun _ _ _ _ taken => (Dip.step_changed taken).2) (fun _ _ plain here => by
      subst here
      exact plain.step) _ _ _ run ⟨lru, []⟩ same left right rfl
  refine ⟨⟨mirror, ran⟩, fun lruCalls last sameCalls lruRun => ?_⟩
  obtain ⟨_, otherRan, otherEqual, otherLogged⟩ := project_lru lruRun right
  rw [← sameCalls] at ran
  cases ran.unique otherRan
  exact ⟨logged.trans otherLogged.symm, equal.ways.trans otherEqual.ways.symm⟩

/-- In every run from the constructor a set dedicated to the plain policy has the victims and the
orders that it has in a plain store to which the same calls go; and so has, from any point of any
run on, a set that follows, as long as the selector is not over. The plain store can make all those
calls. -/
theorem plain_sets_match_lru {params : Dip.Params} {start : Dip} {lruStart : SetAssoc} {set : Nat}
    (created : Dip.create params = .ok start)
    (lruCreated : SetAssoc.create params.size params.blkSize params.assoc = .ok lruStart) :
    (Dip.isDedicatedLRU start.numSetsInConstituency set = true →
      ∀ calls final, Run (stepDip set) (fun _ _ => True) ⟨start, []⟩ calls final →
        (∃ last, Run (stepLru set) (fun _ _ => True) ⟨lruStart, []⟩
          (callsTo lruStart set calls) last) ∧
        ∀ lruCalls last, callsTo lruStart set lruCalls = callsTo lruStart set calls →
          Run (stepLru set) (fun _ _ => True) ⟨lruStart, []⟩ lruCalls last →
          final.log = last.log ∧ final.store.base.sets set = last.store.sets set) ∧
    (Dip.isDedicatedBIP start.numSetsInConstituency set = false →
      ∀ earlier middle, Run (stepDip set) (fun _ _ => True) ⟨start, []⟩ earlier middle →
        ∀ calls final,
          Run (stepDip set) (fun watched _ => watched.store.psel.isOver = false)
            ⟨middle.store, []⟩ calls final →
          ∀ lru : SetAssoc, lru.Permuted → SameSet set middle.store.base lru →
            (∃ last, Run (stepLru set) (fun _ _ => True) ⟨lru, []⟩ (callsTo lru set calls) last) ∧
            ∀ lruCalls last, callsTo lru set lruCalls = callsTo lru set calls →
              Run (stepLru set) (fun _ _ => True) ⟨lru, []⟩ lruCalls last →
              final.log = last.log ∧ final.store.base.sets set = last.store.sets set) := by
  obtain ⟨permuted, made⟩ := create_permuted created
  cases made.symm.trans lruCreated
  constructor
  · intro dedicated calls final run
    refine plain_matches ?_ (.refl set start.base) permuted permuted
    exact run.imp (Kept start.numSetsInConstituency) (fun _ _ _ kept taken => kept.step taken)
      (fun _ _ kept _ => .inl (kept.2 ▸ dedicated)) ⟨permuted, rfl⟩
  · intro follows earlier middle before calls final run lru right same
    have kept : middle.Kept start.numSetsInConstituency :=
      before.invariant _ (fun kept _ taken => kept.step taken) ⟨permuted, rfl⟩
    refine plain_matches ?_ same kept.1 right
    exact run.imp (Kept start.numSetsInConstituency) (fun _ _ _ kept taken => kept.step taken)
      (fun _ _ kept under => .inr ⟨kept.2 ▸ follows, under⟩) kept

/-- Four sets in two constituencies: the last set is dedicated to the plain policy, the second one
to the bimodal one, and the others follow. -/
def fourSets : Dip.Params where
  size := 512
  blkSize := 64
  assoc := 2
  epsilonNumerator := 1
  epsilonDenominator := 32
  ndsets := 1
  pselBits := 10

theorem plain_sets_match_lru_four_sets : ∃ start lruStart final last followed followedLast,
    Dip.create fourSets = .ok start ∧
      SetAssoc.create fourSets.size fourSets.blkSize fourSets.assoc = .ok lruStart ∧
      Run (stepDip 3) (fun _ _ => True) ⟨start, []⟩
        [.fill 192 false, .fill 64 false, .access 192 false, .fill 448 false] final ∧
      Run (stepLru 3) (fun _ _ => True) ⟨lruStart, []⟩
        [.fill 192 false, .access 192 false, .fill 448 false] last ∧
      final.log = last.log ∧
      Run (stepDip 0) (fun watched _ => watched.store.psel.isOver = false) ⟨start, []⟩
        [.fill 0 false, .access 64 false, .fill 256 false] followed ∧
      Run (stepLru 0) (fun _ _ => True) ⟨lruStart, []⟩ [.fill 0 false, .fill 256 false]
        followedLast ∧
      followed.log = followedLast.log := by
  obtain ⟨start, created, checked⟩ : ∃ start, Dip.create fourSets = .ok start ∧
      (Dip.isDedicatedLRU start.numSetsInConstituency 3 &&
        !Dip.isDedicatedBIP start.numSetsInConstituency 0 &&
        (guardedRun (stepDip 3) (fun _ _ => True) ⟨start, []⟩
          [.fill 192 false, .fill 64 false, .access 192 false, .fill 448 false]).isSome &&
        (guardedRun (stepDip 0) (fun watched _ => watched.store.psel.isOver = false) ⟨start, []⟩
          [.fill 0 false, .access 64 false, .fill 256 false]).isSome &&
        callsTo start.base 3 [.fill 192 false, .fill 64 false, .access 192 false, .fill 448 false]
          == [.fill 192 false, .access 192 false, .fill 448 false] &&
        callsTo start.base 0 [.fill 0 false, .access 64 false, .fill 256 false]
          == [.fill 0 false, .fill 256 false]) = true :=
    exists_of_check (by decide +kernel)
  simp only [Bool.and_eq_true, Bool.not_eq_true', beq_iff_eq] at checked
  obtain ⟨⟨⟨⟨⟨dedicated, follows⟩, computed⟩, computedFollowed⟩, toThird⟩, toFirst⟩ := checked
  obtain ⟨final, ends⟩ := Option.isSome_iff_exists.mp computed
  obtain ⟨followed, endsFollowed⟩ := Option.isSome_iff_exists.mp computedFollowed
  obtain ⟨permuted, made⟩ := create_permuted created
  have run := Run.of_guardedRun ends
  have runFollowed := Run.of_guardedRun endsFollowed
  obtain ⟨⟨last, mirrored⟩, equal⟩ := (plain_sets_match_lru created made).1 dedicated _ _ run
  obtain ⟨⟨followedLast, mirroredFollowed⟩, equalFollowed⟩ :=
    (plain_sets_match_lru created made).2 follows [] _ (.nil _) _ _ runFollowed start.base permuted
      (.refl 0 start.base)
  have logs := equal _ last (filter_eq_self.mpr fun _ => of_mem_filter) mirrored
  have logsFollowed := equalFollowed _ followedLast
    (filter_eq_self.mpr fun _ => of_mem_filter) mirroredFollowed
  rw [toThird] at mirrored
  rw [toFirst] at mirroredFollowed
  exact ⟨start, start.base, final, last, followed, followedLast, created, made, run, mirrored,
    logs.1, runFollowed, mirroredFollowed, logsFollowed.1⟩

end Watched

end Gem5.Mem
