/-
This file models Ruby's cache memory (`mem/ruby/structures/CacheMemory.cc`) with its two
replacement policies. The place of a tag is kept in an index that only `allocate` and
`deallocate` change, while a slot counts as free as soon as its entry has the permission
`NotPresent`. The two agree as long as an allocation overwrites an entry exactly if this
is an entry for the address that is allocated; then a lookup finds entries for its address
only, addresses are unique, and the victim of a full set can be deallocated.
-/

import Gem5.Library.Run
import Mathlib

namespace Gem5.Ruby.Structures

open Library List Function

inductive Fault where
  | assertion
  | panic
  | nullDereference
deriving DecidableEq, Repr

inductive AccessPermission where
  | readOnly
  | readWrite
  | maybeStale
  | backingStore
  | invalid
  | notPresent
  | busy
deriving DecidableEq, Repr

/-! ### Addresses -/

abbrev Address := BitVec 64

namespace Address

/-- The bits of an address between two positions, both inclusive. -/
def bitSelect (address : Address) (small big : Nat) : BitVec 64 :=
  if big ≥ 64 - 1 then address >>> small
  else (address &&& ~~~(BitVec.allOnes 64 <<< (big + 1))) >>> small

def maskLowOrderBits (address : Address) (number : Nat) : Address :=
  if number ≥ 64 - 1 then address else address &&& (BitVec.allOnes 64 <<< number)

end Address

/-! ### Entries and configurations -/

structure AbstractCacheEntry where
  address : Address
  permission : AccessPermission
  locked : Int
deriving DecidableEq, Repr

namespace AbstractCacheEntry

def changePermission (entry : AbstractCacheEntry) (permission : AccessPermission) :
    AbstractCacheEntry :=
  if permission = .invalid ∨ permission = .notPresent then
    { entry with permission, locked := -1 }
  else { entry with permission }

end AbstractCacheEntry

inductive Policy where
  | lru
  | pseudoLru
deriving DecidableEq, Repr

/-- The parameters of a cache, with the assertions of its initialisation. -/
structure Config where
  cacheSize : Nat
  assoc : Nat
  blockSizeBits : Nat
  startIndexBit : Nat
  policy : Policy
  severalSets : 1 < cacheSize / assoc / 2 ^ blockSizeBits
  treeFits : policy = .pseudoLru → 1 < assoc ∧ assoc ≤ 32

namespace Config

variable (config : Config)

def numSets : Nat := config.cacheSize / config.assoc / 2 ^ config.blockSizeBits

def numSetBits : Nat := Nat.log2 config.numSets

def lineAddress (address : Address) : Address := address.maskLowOrderBits config.blockSizeBits

def addressToCacheSet (address : Address) : Nat :=
  (address.bitSelect config.startIndexBit
    (config.startIndexBit + config.numSetBits - 1)).toNat

theorem assoc_pos : 0 < config.assoc := by
  refine Nat.pos_of_ne_zero fun none => ?_
  have severalSets := config.severalSets
  rw [none, Nat.div_zero, Nat.zero_div] at severalSets
  omega

end Config

/-! ### Replacement policies -/

/-- The state of a replacement policy: the times of the last references, and the trees of
the policy that has them. -/
structure ReplacementPolicy where
  lastRef : Nat → Nat → Nat
  trees : Nat → BitVec 64

namespace ReplacementPolicy

variable (config : Config)

def init : ReplacementPolicy := ⟨fun _ _ => 0, fun _ => 0⟩

/-- The doubling of the effective associativity up to the associativity; `fuel` bounds the
number of rounds. -/
def doubled (assoc : Nat) : Nat → Nat → Nat
  | 0, effective => effective
  | fuel + 1, effective =>
    if effective < assoc then doubled assoc fuel (effective <<< 1) else effective

/-- The number of times that an associativity can be halved. -/
def halvings : Nat → Nat → Nat
  | 0, _ => 0
  | fuel + 1, assoc => if assoc / 2 = 0 then 0 else halvings fuel (assoc / 2) + 1

def effectiveAssoc : Nat := doubled config.assoc config.assoc 1

def numLevels : Nat := halvings (effectiveAssoc config) (effectiveAssoc config)

/-- The walk of `PseudoLRUPolicy::touch`, from a level of the tree down to the leaf. -/
def markTree (way : Nat) : Nat → Nat → BitVec 64 → BitVec 64
  | 0, _, tree => tree
  | level + 1, treeIndex, tree =>
    if (way >>> level) % 2 = 1 then
      markTree way level (treeIndex * 2 + 2) (tree ||| (1#64 <<< treeIndex))
    else markTree way level (treeIndex * 2 + 1) (tree &&& ~~~(1#64 <<< treeIndex))

/-- The walk of `PseudoLRUPolicy::getVictim`, with the number of levels that are left. -/
def victimInTree (effective : Nat) (tree : BitVec 64) : Nat → Nat → Nat → Nat → Nat
  | 0, _, _, index => index
  | remaining + 1, level, treeIndex, index =>
    if tree.getLsbD treeIndex then
      victimInTree effective tree remaining (level + 1) (treeIndex * 2 + 1) index
    else
      victimInTree effective tree remaining (level + 1) (treeIndex * 2 + 2)
        (index + effective >>> (level + 1))

variable (policy : ReplacementPolicy)

def touch (cacheSet way time : Nat) : Except Fault ReplacementPolicy :=
  if way < config.assoc ∧ cacheSet < config.numSets then
    let lastRef := update policy.lastRef cacheSet
      (update (policy.lastRef cacheSet) way time)
    match config.policy with
    | .lru => .ok { policy with lastRef }
    | .pseudoLru =>
      let tree := markTree way (numLevels config) 0 (policy.trees cacheSet)
      .ok { lastRef, trees := update policy.trees cacheSet tree }
  else .error .assertion

/-- The loop of `LRUPolicy::getVictim`, which keeps the first way with the smallest time. -/
def leastRecent (times : Nat → Nat) (smallest : Nat) : List Nat → Nat
  | [] => smallest
  | way :: rest =>
    if times way < times smallest then leastRecent times way rest
    else leastRecent times smallest rest

def getVictim (cacheSet : Nat) : Except Fault Nat :=
  match config.policy with
  | .lru => .ok (leastRecent (policy.lastRef cacheSet) 0 (range config.assoc))
  | .pseudoLru =>
    let index := victimInTree (effectiveAssoc config) (policy.trees cacheSet)
      (numLevels config) 0 0 0
    if index < effectiveAssoc config then
      .ok (if index > config.assoc - 1 then config.assoc - 1 else index)
    else .error .assertion

theorem leastRecent_lt {times : Nat → Nat} {bound smallest : Nat} {ways : List Nat}
    (initially : smallest < bound) (within : ∀ way ∈ ways, way < bound) :
    leastRecent times smallest ways < bound := by
  induction ways generalizing smallest with
  | nil => exact initially
  | cons way rest hypothesis =>
    have later : ∀ other ∈ rest, other < bound := fun other member =>
      within other (mem_cons_of_mem way member)
    rw [leastRecent]
    split
    · exact hypothesis (within way mem_cons_self) later
    · exact hypothesis initially later

theorem one_le_doubled (assoc fuel : Nat) {effective : Nat} (initially : 1 ≤ effective) :
    1 ≤ doubled assoc fuel effective := by
  induction fuel generalizing effective with
  | zero => exact initially
  | succ _ hypothesis =>
    rw [doubled]
    split
    · refine hypothesis ?_
      omega
    · exact initially

theorem victimInTree_le (effective : Nat) (tree : BitVec 64)
    (remaining level treeIndex index : Nat) :
    victimInTree effective tree remaining level treeIndex index ≤
      index + (effective >>> level - 1) := by
  induction remaining generalizing level treeIndex index with
  | zero => exact Nat.le_add_right _ _
  | succ _ hypothesis =>
    have half : effective >>> (level + 1) = effective >>> level / 2 := Nat.shiftRight_succ _ _
    rw [victimInTree]
    split
    · refine Nat.le_trans (hypothesis _ _ _) ?_
      omega
    · refine Nat.le_trans (hypothesis _ _ _) ?_
      omega

theorem getVictim_lt (cacheSet : Nat) :
    ∃ way, policy.getVictim config cacheSet = .ok way ∧ way < config.assoc := by
  have positive := config.assoc_pos
  rw [getVictim]
  cases config.policy with
  | lru =>
    exact ⟨_, rfl, leastRecent_lt positive fun way member => mem_range.mp member⟩
  | pseudoLru =>
    have some : 1 ≤ effectiveAssoc config := one_le_doubled _ _ (Nat.le_refl 1)
    have bound := victimInTree_le (effectiveAssoc config) (policy.trees cacheSet)
      (numLevels config) 0 0 0
    rw [Nat.shiftRight_zero] at bound
    rw [if_pos (by omega)]
    refine ⟨_, rfl, ?_⟩
    split <;> omega

end ReplacementPolicy

/-! ### The cache -/

structure CacheMemory where
  /-- The entries by set and way; there is none where the pointer is null. -/
  cache : Nat → Nat → Option AbstractCacheEntry
  tagIndex : Address → Option Nat
  replacementPolicy : ReplacementPolicy

namespace CacheMemory

def init : CacheMemory := ⟨fun _ _ => none, fun _ => none, ReplacementPolicy.init⟩

variable (config : Config) (memory : CacheMemory)

def requireLine (address : Address) : Except Fault Unit :=
  if address = config.lineAddress address then .ok () else .error .assertion

/-- A cache with another entry, or none, in a slot. -/
def setSlot (cacheSet way : Nat) (entry : Option AbstractCacheEntry) : CacheMemory :=
  { memory with
    cache := update memory.cache cacheSet
      (update (memory.cache cacheSet) way entry) }

/-- The way of a tag, if the entry there is present. -/
def findTagInSet (cacheSet : Nat) (tag : Address) : Except Fault (Option Nat) := do
  requireLine config tag
  match memory.tagIndex tag with
  | none => .ok none
  | some way =>
    match memory.cache cacheSet way with
    | none => .error .nullDereference
    | some entry => .ok (if entry.permission ≠ .notPresent then some way else none)

def isTagPresent (address : Address) : Except Fault Bool := do
  let way ← memory.findTagInSet config (config.addressToCacheSet address) address
  .ok way.isSome

/-- An entry that is for the address or that is not present, or no entry at all. -/
def usable (address : Address) : Option AbstractCacheEntry → Bool
  | none => true
  | some entry => entry.address = address ∨ entry.permission = .notPresent

def cacheAvail (address : Address) : Except Fault Bool := do
  requireLine config address
  .ok ((range config.assoc).any fun way =>
    usable address (memory.cache (config.addressToCacheSet address) way))

/-- A slot that `allocate` takes. -/
def isOpen : Option AbstractCacheEntry → Bool
  | none => true
  | some entry => entry.permission = .notPresent

/-- The first open slot of a set. -/
def openWay (cacheSet : Nat) : Option Nat :=
  (range config.assoc).find? fun way => isOpen (memory.cache cacheSet way)

def allocate (address : Address) (now : Nat) : Except Fault CacheMemory := do
  let present ← memory.isTagPresent config address
  let avail ← memory.cacheAvail config address
  if present = false ∧ avail = true then
    match memory.openWay config (config.addressToCacheSet address) with
    | none => .error .panic
    | some way =>
      let replacementPolicy ← memory.replacementPolicy.touch config
        (config.addressToCacheSet address) way now
      .ok { memory.setSlot (config.addressToCacheSet address) way
              (some ⟨address, .invalid, -1⟩) with
            tagIndex := update memory.tagIndex address (some way)
            replacementPolicy }
  else .error .assertion

def deallocate (address : Address) : Except Fault CacheMemory := do
  let found ← memory.findTagInSet config (config.addressToCacheSet address) address
  match found with
  | none => .error .assertion
  | some way =>
    .ok { memory.setSlot (config.addressToCacheSet address) way none with
          tagIndex := update memory.tagIndex address none }

/-- The address of the block to evict for an address. -/
def cacheProbe (address : Address) : Except Fault Address := do
  let avail ← memory.cacheAvail config address
  if avail = false then
    let way ← memory.replacementPolicy.getVictim config (config.addressToCacheSet address)
    match memory.cache (config.addressToCacheSet address) way with
    | none => .error .nullDereference
    | some entry => .ok entry.address
  else .error .assertion

def lookup (address : Address) : Except Fault (Option AbstractCacheEntry) := do
  let found ← memory.findTagInSet config (config.addressToCacheSet address) address
  match found with
  | none => .ok none
  | some way => .ok (memory.cache (config.addressToCacheSet address) way)

def setMRU (address : Address) (now : Nat) : Except Fault CacheMemory := do
  let found ← memory.findTagInSet config (config.addressToCacheSet address) address
  match found with
  | none => .ok memory
  | some way =>
    let replacementPolicy ← memory.replacementPolicy.touch config
      (config.addressToCacheSet address) way now
    .ok { memory with replacementPolicy }

/-- A controller changes the permission of an entry that is in the cache. -/
def changePermission (cacheSet way : Nat) (permission : AccessPermission) :
    Except Fault CacheMemory :=
  match memory.cache cacheSet way with
  | none => .error .nullDereference
  | some entry => .ok (memory.setSlot cacheSet way (some (entry.changePermission permission)))

inductive Call where
  | allocate (address : Address) (now : Nat)
  | deallocate (address : Address)
  | changePermission (cacheSet way : Nat) (permission : AccessPermission)
  | setMRU (address : Address) (now : Nat)
deriving DecidableEq, Repr

def step : Call → Except Fault CacheMemory
  | .allocate address now => memory.allocate config address now
  | .deallocate address => memory.deallocate config address
  | .changePermission cacheSet way permission => memory.changePermission cacheSet way permission
  | .setMRU address now => memory.setMRU config address now

/-! ### The index and the slots -/

variable {config memory}

theorem setSlot_self (cacheSet way : Nat) (entry : Option AbstractCacheEntry) :
    (memory.setSlot cacheSet way entry).cache cacheSet way = entry := by
  dsimp only [setSlot]
  rw [update_self, update_self]

variable {cacheSet way now : Nat} {address : Address} {next : CacheMemory}

theorem setSlot_other {otherSet otherWay : Nat} (entry : Option AbstractCacheEntry)
    (other : ¬ (otherSet = cacheSet ∧ otherWay = way)) :
    (memory.setSlot cacheSet way entry).cache otherSet otherWay =
      memory.cache otherSet otherWay := by
  dsimp only [setSlot]
  by_cases sameSet : otherSet = cacheSet
  · subst sameSet
    rw [update_self, update_of_ne fun sameWay => other ⟨rfl, sameWay⟩]
  · rw [update_of_ne sameSet]

/-- Every entry is in the set of its address at the way that the index names, and the index
names entries only. -/
structure Indexed (config : Config) (memory : CacheMemory) : Prop where
  placed : ∀ cacheSet way entry, memory.cache cacheSet way = some entry →
    way < config.assoc ∧ cacheSet = config.addressToCacheSet entry.address ∧
      entry.address = config.lineAddress entry.address ∧
      memory.tagIndex entry.address = some way
  indexed : ∀ address way, memory.tagIndex address = some way →
    ∃ entry, memory.cache (config.addressToCacheSet address) way = some entry ∧
      entry.address = address

theorem Indexed.init (config : Config) : Indexed config CacheMemory.init :=
  ⟨fun _ _ _ occupied => (nomatch occupied), fun _ _ found => (nomatch found)⟩

theorem Indexed.findTagInSet (indexed : Indexed config memory)
    (aligned : address = config.lineAddress address) :
    (memory.findTagInSet config (config.addressToCacheSet address) address = .ok none) ∨
      ∃ way entry, memory.tagIndex address = some way ∧
        memory.findTagInSet config (config.addressToCacheSet address) address = .ok (some way) ∧
        memory.cache (config.addressToCacheSet address) way = some entry ∧
        entry.address = address ∧ entry.permission ≠ .notPresent := by
  rw [CacheMemory.findTagInSet, requireLine, if_pos aligned, ok_bind]
  cases found : memory.tagIndex address with
  | none => exact .inl rfl
  | some way =>
    obtain ⟨entry, occupied, same⟩ := indexed.indexed address way found
    dsimp only
    rw [occupied]
    dsimp only
    by_cases gone : entry.permission ≠ .notPresent
    · rw [if_pos gone]
      exact .inr ⟨way, entry, rfl, rfl, occupied, same, gone⟩
    · rw [if_neg gone]
      exact .inl rfl

theorem aligned_of_requireLine {value : Unit} (required : requireLine config address = .ok value) :
    address = config.lineAddress address := by
  rw [requireLine] at required
  obtain ⟨aligned, required⟩ := then_eq_ok required
  exact aligned

theorem allocate_eq (taken : memory.allocate config address now = .ok next) :
    address = config.lineAddress address ∧
      ∃ way, memory.openWay config (config.addressToCacheSet address) = some way ∧
        way < config.assoc ∧
        next.cache = (memory.setSlot (config.addressToCacheSet address) way
          (some ⟨address, .invalid, -1⟩)).cache ∧
        next.tagIndex = update memory.tagIndex address (some way) := by
  rw [allocate] at taken
  obtain ⟨_, _, taken⟩ := bind_eq_ok taken
  obtain ⟨_, asked, taken⟩ := bind_eq_ok taken
  rw [cacheAvail] at asked
  obtain ⟨_, aligned, _⟩ := bind_eq_ok asked
  refine ⟨aligned_of_requireLine aligned, ?_⟩
  obtain ⟨-, taken⟩ := then_eq_ok taken
  split at taken
  · cases taken
  · rename_i way isOpen
    obtain ⟨_, touched, rfl⟩ := map_eq_ok taken
    rw [ReplacementPolicy.touch] at touched
    obtain ⟨inside, _⟩ := then_eq_ok touched
    exact ⟨way, isOpen, inside.1, rfl, rfl⟩

theorem deallocate_eq (taken : memory.deallocate config address = .ok next) :
    ∃ way, memory.tagIndex address = some way ∧
      next = { memory.setSlot (config.addressToCacheSet address) way none with
        tagIndex := update memory.tagIndex address none } := by
  rw [deallocate] at taken
  obtain ⟨found, found_eq, taken⟩ := bind_eq_ok taken
  cases found with
  | none => cases taken
  | some way =>
    cases taken
    refine ⟨way, ?_, rfl⟩
    rw [findTagInSet] at found_eq
    obtain ⟨_, _, found_eq⟩ := bind_eq_ok found_eq
    split at found_eq
    · cases found_eq
    · rename_i indexed
      split at found_eq
      · cases found_eq
      · split at found_eq
        · cases found_eq
          exact indexed
        · cases found_eq

/-! ### Steps -/

/-- An allocation overwrites an entry exactly if it is one for the same address. -/
def Overwrites (config : Config) (memory : CacheMemory) (address : Address) : Prop :=
  ∀ way < config.assoc, ∀ entry ∈ memory.cache (config.addressToCacheSet address) way,
    (memory.openWay config (config.addressToCacheSet address) = some way ↔
      entry.address = address)

def Careful (config : Config) (memory : CacheMemory) : Call → Prop
  | .allocate address _ => Overwrites config memory address
  | .deallocate _ => True
  | .changePermission _ _ _ => True
  | .setMRU _ _ => True

instance (config : Config) (memory : CacheMemory) (address : Address) :
    Decidable (Overwrites config memory address) :=
  inferInstanceAs (Decidable (∀ way < config.assoc, ∀ entry ∈ _, _))

instance (config : Config) (memory : CacheMemory) :
    (call : Call) → Decidable (Careful config memory call)
  | .allocate .. => inferInstanceAs (Decidable (Overwrites ..))
  | .deallocate _ | .changePermission .. | .setMRU .. => .isTrue trivial

section

variable (indexed : Indexed config memory)
include indexed

/-- A slot of the set of an address is written and the address is indexed accordingly. Before,
the slot was the one with an entry for the address, if there was one. -/
theorem Indexed.put {slot : Option AbstractCacheEntry}
    (slots : next.cache = (memory.setSlot (config.addressToCacheSet address) way slot).cache)
    (index : next.tagIndex = update memory.tagIndex address (slot.map fun _ => way))
    (fits : ∀ entry ∈ slot, way < config.assoc ∧ address = config.lineAddress address ∧
      entry.address = address)
    (alone : ∀ place entry, memory.cache (config.addressToCacheSet address) place = some entry →
      (place = way ↔ entry.address = address)) : Indexed config next := by
  constructor
  · intro cacheSet place entry occupied
    rw [slots] at occupied
    rw [index]
    by_cases here : cacheSet = config.addressToCacheSet address ∧ place = way
    · obtain ⟨rfl, rfl⟩ := here
      rw [setSlot_self] at occupied
      subst occupied
      obtain ⟨inside, aligned, rfl⟩ := fits entry rfl
      exact ⟨inside, rfl, aligned, update_self _ _ _⟩
    · rw [setSlot_other _ here] at occupied
      obtain ⟨within, ownSet, line, named⟩ := indexed.placed cacheSet place entry occupied
      have different : entry.address ≠ address := by
        rintro rfl
        subst ownSet
        exact here ⟨rfl, (alone place entry occupied).mpr rfl⟩
      exact ⟨within, ownSet, line, by rw [update_of_ne different, named]⟩
  · intro other place found
    rw [index] at found
    rw [slots]
    by_cases same : other = address
    · subst same
      rw [update_self] at found
      obtain ⟨entry, rfl, rfl⟩ := Option.map_eq_some_iff.mp found
      exact ⟨entry, setSlot_self _ _ _, (fits entry rfl).2.2⟩
    · rw [update_of_ne same] at found
      obtain ⟨entry, occupied, own⟩ := indexed.indexed other place found
      refine ⟨entry, ?_, own⟩
      rw [setSlot_other, occupied]
      rintro ⟨sameSet, rfl⟩
      rw [sameSet] at occupied
      exact same (own.symm.trans ((alone place entry occupied).mp rfl))

theorem Indexed.alone (named : memory.tagIndex address = some way) (place : Nat)
    (entry : AbstractCacheEntry)
    (occupied : memory.cache (config.addressToCacheSet address) place = some entry) :
    place = way ↔ entry.address = address := by
  constructor
  · rintro rfl
    obtain ⟨_, there, own⟩ := indexed.indexed address place named
    cases occupied.symm.trans there
    exact own
  · rintro rfl
    obtain ⟨_, _, _, own⟩ := indexed.placed _ _ _ occupied
    exact Option.some.inj (own.symm.trans named)

theorem Indexed.allocate (overwrites : Overwrites config memory address)
    (taken : memory.allocate config address now = .ok next) : Indexed config next := by
  obtain ⟨aligned, way, isOpen, inside, slots, index⟩ := allocate_eq taken
  refine indexed.put slots index ?_ fun place entry occupied => ?_
  · rintro _ ⟨⟩
    exact ⟨inside, aligned, rfl⟩
  · rw [← overwrites place (indexed.placed _ _ _ occupied).1 entry occupied, isOpen,
      Option.some_inj, eq_comm]

theorem Indexed.deallocate (taken : memory.deallocate config address = .ok next) :
    Indexed config next := by
  obtain ⟨way, named, rfl⟩ := deallocate_eq taken
  exact indexed.put rfl rfl nofun (indexed.alone named)

theorem Indexed.changePermission {permission : AccessPermission}
    (taken : memory.changePermission cacheSet way permission = .ok next) : Indexed config next := by
  rw [CacheMemory.changePermission] at taken
  split at taken
  · cases taken
  · rename_i entry occupied
    cases taken
    have address : (entry.changePermission permission).address = entry.address := by
      rw [AbstractCacheEntry.changePermission]
      split <;> rfl
    obtain ⟨inside, rfl, line, named⟩ := indexed.placed _ _ _ occupied
    refine indexed.put rfl ?_ ?_ (indexed.alone named)
    · rw [Option.map_some, ← named, update_eq_self]
      rfl
    · rintro _ ⟨⟩
      exact ⟨inside, line, address⟩

theorem Indexed.setMRU (taken : memory.setMRU config address now = .ok next) :
    Indexed config next := by
  rw [CacheMemory.setMRU] at taken
  obtain ⟨found, _, taken⟩ := bind_eq_ok taken
  cases found with
  | none =>
    cases taken
    exact indexed
  | some =>
    obtain ⟨_, _, rfl⟩ := map_eq_ok taken
    exact ⟨indexed.placed, indexed.indexed⟩

theorem Indexed.step {call : Call} (careful : Careful config memory call)
    (taken : memory.step config call = .ok next) : Indexed config next := by
  cases call with
  | allocate => exact indexed.allocate careful taken
  | deallocate => exact indexed.deallocate taken
  | changePermission => exact indexed.changePermission taken
  | setMRU => exact indexed.setMRU taken

end

/-! ### What the cache is for -/

/-- A cache that answers as it should: lookups return entries for their addresses, present
entries have addresses of their own, and the block that is named for a full set is present
in this set and makes room when it is deallocated. -/
structure Exact (config : Config) (memory : CacheMemory) : Prop where
  lookup : ∀ address, address = config.lineAddress address →
    ∃ found, memory.lookup config address = .ok found ∧
      ∀ entry ∈ found, entry.address = address
  unique : ∀ cacheSet way otherSet otherWay entry other,
    memory.cache cacheSet way = some entry → memory.cache otherSet otherWay = some other →
    entry.permission ≠ .notPresent → other.permission ≠ .notPresent →
    entry.address = other.address → cacheSet = otherSet ∧ way = otherWay
  probe : ∀ address, memory.cacheAvail config address = .ok false →
    ∃ victim, memory.cacheProbe config address = .ok victim ∧
      config.addressToCacheSet victim = config.addressToCacheSet address ∧
      (∃ way entry, memory.cache (config.addressToCacheSet address) way = some entry ∧
        entry.address = victim ∧ entry.permission ≠ .notPresent) ∧
      ∃ next, memory.deallocate config victim = .ok next ∧
        next.cacheAvail config address = .ok true

theorem full_of_cacheAvail (full : memory.cacheAvail config address = .ok false) :
    address = config.lineAddress address ∧ ∀ way < config.assoc,
      ∃ entry, memory.cache (config.addressToCacheSet address) way = some entry ∧
        entry.permission ≠ .notPresent := by
  rw [cacheAvail] at full
  obtain ⟨_, aligned, full⟩ := bind_eq_ok full
  refine ⟨aligned_of_requireLine aligned, fun way inside => ?_⟩
  have unusable := any_eq_false.mp (Except.ok.inj full) way (mem_range.mpr inside)
  cases occupied : memory.cache (config.addressToCacheSet address) way with
  | none => exact absurd (by rw [occupied]; rfl) unusable
  | some entry =>
    refine ⟨entry, rfl, fun gone => unusable ?_⟩
    rw [occupied]
    exact decide_eq_true (.inr gone)

theorem Indexed.exact (indexed : Indexed config memory) : Exact config memory where
  lookup _ aligned := by
    rw [CacheMemory.lookup]
    obtain absent | ⟨_, _, _, found, occupied, own, _⟩ := indexed.findTagInSet aligned
    · rw [absent]
      exact ⟨none, rfl, fun _ member => nomatch member⟩
    · rw [found]
      refine ⟨_, rfl, fun other member => ?_⟩
      cases occupied.symm.trans member
      exact own
  unique _ _ _ _ _ _ occupied occupiedOther _ _ same := by
    obtain ⟨_, ownSet, _, named⟩ := indexed.placed _ _ _ occupied
    obtain ⟨_, otherOwnSet, _, otherNamed⟩ := indexed.placed _ _ _ occupiedOther
    rw [same] at ownSet named
    exact ⟨ownSet.trans otherOwnSet.symm, Option.some.inj (named.symm.trans otherNamed)⟩
  probe address full := by
    obtain ⟨aligned, occupied⟩ := full_of_cacheAvail full
    obtain ⟨way, chosen, inside⟩ := memory.replacementPolicy.getVictim_lt config
      (config.addressToCacheSet address)
    obtain ⟨entry, there, present⟩ := occupied way inside
    obtain ⟨_, ownSet, line, named⟩ := indexed.placed _ _ _ there
    have probed : memory.cacheProbe config address = .ok entry.address := by
      rw [cacheProbe, full, ok_bind, if_pos rfl, chosen, ok_bind, there]
    have located : memory.findTagInSet config (config.addressToCacheSet entry.address)
        entry.address = .ok (some way) := by
      rw [CacheMemory.findTagInSet, requireLine, if_pos line, ok_bind, named]
      dsimp only
      rw [← ownSet, there]
      exact congrArg Except.ok (if_pos present)
    refine ⟨entry.address, probed, ownSet.symm, ⟨way, entry, there, rfl, present⟩,
      { memory.setSlot (config.addressToCacheSet entry.address) way none with
        tagIndex := update memory.tagIndex entry.address none }, ?_, ?_⟩
    · rw [CacheMemory.deallocate, located, ok_bind]
    · rw [cacheAvail, requireLine, if_pos aligned, ok_bind]
      refine congrArg Except.ok (any_eq_true.mpr ⟨way, mem_range.mpr inside, ?_⟩)
      rw [ownSet]
      exact congrArg (usable address) (setSlot_self _ _ _)

/-- A cache whose allocations overwrite only entries for their own addresses answers as it
should, with any changes of permissions in between and under both policies. -/
theorem answers_exactly {calls : List Call}
    (run : Run (step config) (Careful config) CacheMemory.init calls memory) :
    Exact config memory :=
  (run.invariant (Indexed config) (fun indexed => indexed.step) (Indexed.init config)).exact

/-- Two sets of two ways, with blocks of one byte. -/
def twoWays (policy : Policy) : Config where
  cacheSize := 4
  assoc := 2
  blockSizeBits := 0
  startIndexBit := 0
  policy := policy
  severalSets := by decide
  treeFits := fun _ => by decide

/-- The set is emptied by a permission, refilled, and its victim evicted. -/
theorem answers_exactly_refilled :
    ∃ memory, Run (step (twoWays .pseudoLru)) (Careful (twoWays .pseudoLru)) CacheMemory.init
        [.allocate 0 0, .allocate 2 1, .changePermission 0 1 .notPresent, .allocate 2 2,
          .changePermission 0 0 .readWrite, .setMRU 0 3, .deallocate 2, .allocate 4 5]
        memory ∧
      Exact (twoWays .pseudoLru) memory := by
  exact Run.exists_checked (fun _ => True)
    (by decide +kernel) fun _ run _ => answers_exactly run

/-- The slot of an entry that is not present is given to another address, and the index
still names it: the lookup for the first address returns the entry of the second. An entry
that is left behind not present and set to another permission is a second one for its
address. -/
theorem lookup_finds_other_address :
    (∃ memory, Run (step (twoWays .lru)) (fun _ _ => True) CacheMemory.init
        [.allocate 0 0, .changePermission 0 0 .notPresent, .allocate 2 1] memory ∧
      ∃ entry, memory.lookup (twoWays .lru) 0 = .ok (some entry) ∧ entry.address = 2) ∧
    ∃ memory, Run (step (twoWays .lru)) (fun _ _ => True) CacheMemory.init
        [.allocate 0 0, .allocate 2 1, .changePermission 0 0 .notPresent,
          .changePermission 0 1 .notPresent, .allocate 2 2, .changePermission 0 1 .readWrite]
        memory ∧
      memory.cache 0 0 = some ⟨2, .invalid, -1⟩ ∧ memory.cache 0 1 = some ⟨2, .readWrite, -1⟩ := by
  constructor
  · refine Run.exists_checked (fun memory => (memory.lookup (twoWays .lru) 0).toOption.any
        (· = some ⟨2, .invalid, -1⟩) = true)
      (by decide +kernel) fun _ _ checked => ?_
    obtain ⟨_, value, same⟩ := exists_of_check checked
    rw [of_decide_eq_true same] at value
    exact ⟨_, value, rfl⟩
  · exact Run.exists_check (by decide +kernel)

end CacheMemory

end Gem5.Ruby.Structures
