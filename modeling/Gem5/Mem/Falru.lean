/-
This file models the fully associative tag store (`mem/cache/tags/fa_lru.cc`):
the blocks in a doubly linked list in the order of their last use, the blocks at
which the caches of smaller sizes end, the mask of those caches on every block,
and the table from addresses to blocks. It proves that moving a block to the head
keeps the list, the boundaries and the masks in step.
-/

import Mathlib.Order.Monotone.Basic
import Gem5.Base.AddrRange
import Gem5.Base.IntMath
import Gem5.Library.Run
import Gem5.Library.Segment

namespace Gem5.Mem

open Base Library List Function

/-! ### The tag store -/

/-- The fatal errors and assertions of the tag store, and the use of a null pointer. -/
inductive FalruFault where
  | blockSizeNotPower
  | sizeNotPower
  | boundariesNotSet
  | inSmallerCache
  | tailHasNext
  | wrongTag
  | overwritesValid
  | nullPointer
  | endless
deriving DecidableEq, Repr

/-- The tag store. A block is known by its index; the fields of the blocks are kept apart. -/
structure Falru where
  blkSize : Nat
  numBlocks : Nat
  numCaches : Nat
  cacheMask : BitVec 32
  prev : Nat → Option Nat
  next : Nat → Option Nat
  inCache : Nat → BitVec 32
  tag : Nat → Addr
  isValid : Nat → Bool
  head : Nat
  tail : Nat
  cacheBoundaries : Nat → Option Nat
  tagHash : Addr → Option Nat
  hits : Nat → Nat
  misses : Nat → Nat

namespace Falru

/-- The state of the loop that links the blocks. -/
structure Linking where
  falru : Falru
  index : Nat
  j : Nat
  flags : BitVec 32

/-- A block between the first and the last one is linked. -/
def Linking.link (linking : Linking) (i : Nat) : Linking :=
  let falru := { linking.falru with
    inCache := update linking.falru.inCache i linking.flags
    prev := update linking.falru.prev i (some (i - 1))
    next := update linking.falru.next i (some (i + 1)) }
  if i + 1 = linking.index then
    { falru := { falru with
        cacheBoundaries := update falru.cacheBoundaries linking.j (some i) }
      index := linking.index * 2
      j := linking.j + 1
      flags := linking.flags &&& ~~~(1#32 <<< linking.j) }
  else { linking with falru := falru }

/-- The first and the last block are set up. -/
def ends (blkSize numBlocks numCaches : Nat) (cacheMask : BitVec 32) : Falru where
  blkSize := blkSize
  numBlocks := numBlocks
  numCaches := numCaches
  cacheMask := cacheMask
  prev := update (fun _ => none) (numBlocks - 1) (some (numBlocks - 2))
  next := update (fun _ => none) 0 (some 1)
  inCache := update (fun _ => 0) 0 cacheMask
  tag := fun _ => 0
  isValid := fun _ => false
  head := 0
  tail := numBlocks - 1
  cacheBoundaries := fun _ => none
  tagHash := fun _ => none
  hits := fun _ => 0
  misses := fun _ => 0

/-- The loop over the blocks between the first and the last one. -/
def linkBlocks (blkSize numBlocks numCaches : Nat) (cacheMask : BitVec 32) : Linking :=
  (range' 1 (numBlocks - 2)).foldl Linking.link
    ⟨ends blkSize numBlocks numCaches cacheMask, 2 ^ 17 / blkSize, 0, cacheMask⟩

def initialMask (numCaches : Nat) : BitVec 32 :=
  if 0 < numCaches then (1#32 <<< numCaches) - 1 else 0

/-- The constructor. With fewer than 128K bytes the number of tracked sizes wraps around and the
assertion about it fails. -/
def create (size blkSize : BitVec 32) : Except FalruFault Falru :=
  if isPowerOf2 blkSize then
    if isPowerOf2 size then
      if floorLog2 size < 17 then .error .boundariesNotSet
      else
        let numCaches := floorLog2 size - 17
        let numBlocks := size.toNat / blkSize.toNat
        let linked := linkBlocks blkSize.toNat numBlocks numCaches (initialMask numCaches)
        if linked.j = numCaches ∧ linked.index = numBlocks then .ok linked.falru
        else .error .boundariesNotSet
    else .error .sizeNotPower
  else .error .blockSizeNotPower

def blkAlign (falru : Falru) (addr : Addr) : Addr :=
  addr &&& ~~~(BitVec.ofNat 64 falru.blkSize - 1)

def hashLookup (falru : Falru) (addr : Addr) : Option Nat := falru.tagHash addr

/-- The boundary of one of the smaller caches is moved for a block that goes to the head. -/
def shiftBoundary (blk : Nat) (updateMask : BitVec 32) (falru : Falru) (i : Nat) :
    Except FalruFault Falru :=
  if updateMask.getLsbD i then
    match falru.cacheBoundaries i with
    | none => .error .nullPointer
    | some boundary =>
      .ok { falru with
        inCache := update falru.inCache boundary
          (falru.inCache boundary &&& ~~~(1#32 <<< i))
        cacheBoundaries := update falru.cacheBoundaries i (falru.prev boundary) }
  else if falru.cacheBoundaries i = some blk then
    .ok { falru with
      cacheBoundaries := update falru.cacheBoundaries i (falru.prev blk) }
  else .ok falru

/-- The block is taken out of its place in the list. -/
def unlink (falru : Falru) (blk : Nat) : Except FalruFault Falru :=
  if blk = falru.tail then
    match falru.next blk with
    | some _ => .error .tailHasNext
    | none =>
      match falru.prev blk with
      | none => .error .nullPointer
      | some before => .ok { falru with
          tail := before, next := update falru.next before none }
  else
    match falru.prev blk, falru.next blk with
    | some before, some after => .ok { falru with
        next := update falru.next before (some after)
        prev := update falru.prev after (some before) }
    | _, _ => .error .nullPointer

/-- The block becomes the first of the list. -/
def linkHead (falru : Falru) (blk : Nat) : Falru :=
  { falru with
    next := update falru.next blk (some falru.head)
    prev := update (update falru.prev blk none) falru.head (some blk)
    head := blk }

def moveToHead (falru : Falru) (blk : Nat) : Except FalruFault Falru := do
  let updateMask := falru.inCache blk ^^^ falru.cacheMask
  let shifted ← (range falru.numCaches).foldlM (shiftBoundary blk updateMask) falru
  let marked := { shifted with inCache := update shifted.inCache blk falru.cacheMask }
  if blk = falru.head then return marked
  else
    let unlinked ← marked.unlink blk
    return unlinked.linkHead blk

/-- A hit is counted for every size that holds the block. -/
def recordHit (falru : Falru) (blk : Nat) : Falru :=
  { falru with
    hits := fun i => falru.hits i +
      if i = falru.numCaches ∨ i < falru.numCaches ∧ (falru.inCache blk).getLsbD i then 1 else 0
    misses := fun i => falru.misses i +
      if i < falru.numCaches ∧ (falru.inCache blk).getLsbD i = false then 1 else 0 }

/-- A miss is counted for every size. -/
def recordMiss (falru : Falru) : Falru :=
  { falru with misses := fun i => falru.misses i + if i ≤ falru.numCaches then 1 else 0 }

/-- The hit of an access. -/
def hit (falru : Falru) (blk : Nat) : Except FalruFault Falru :=
  let counted := falru.recordHit blk
  if blk = counted.head then .ok counted else counted.moveToHead blk

def accessBlock (falru : Falru) (addr : Addr) : Except FalruFault (Falru × Option Nat) :=
  match falru.hashLookup (falru.blkAlign addr) with
  | none => .ok (falru.recordMiss, none)
  | some blk =>
    if falru.isValid blk then
      if falru.tag blk = falru.blkAlign addr then do
        let moved ← falru.hit blk
        return (moved, some blk)
      else .error .wrongTag
    else .ok (falru.recordMiss, none)

def findBlock (falru : Falru) (addr : Addr) : Except FalruFault (Option Nat) :=
  match falru.hashLookup (falru.blkAlign addr) with
  | none => .ok none
  | some blk =>
    if falru.isValid blk then
      if falru.tag blk = falru.blkAlign addr then .ok (some blk) else .error .wrongTag
    else .ok none

def findVictim (falru : Falru) (addr : Addr) : Except FalruFault (Falru × Nat) :=
  if falru.inCache falru.tail = 0 then do
    let blk := falru.tail
    let moved ← falru.moveToHead blk
    let erased := update moved.tagHash (moved.tag blk) none
    return ({ moved with
      tagHash := update erased (falru.blkAlign addr) (some blk) }, blk)
  else .error .inSmallerCache

/-- The tag store has nothing to do when a block is filled. -/
def insertBlock (falru : Falru) (_blk : Nat) : Falru := falru

/-- The walk of `check` over the list. -/
def checkFrom (falru : Falru) : Nat → Option Nat → Nat → Nat → Nat → BitVec 32 →
    Except FalruFault Bool
  | _, none, _, _, _, _ => .ok true
  | 0, some _, _, _, _, _ => .error .endless
  | fuel + 1, some blk, totSize, boundary, j, flags =>
    if falru.inCache blk ≠ flags then .ok false
    else if totSize + falru.blkSize = boundary ∧ blk ≠ falru.tail then
      if falru.cacheBoundaries j ≠ some blk then .ok false
      else checkFrom falru fuel (falru.next blk) (totSize + falru.blkSize) (boundary * 2) (j + 1)
        (flags &&& ~~~(1#32 <<< j))
    else checkFrom falru fuel (falru.next blk) (totSize + falru.blkSize) boundary j flags

def check (falru : Falru) : Except FalruFault Bool :=
  checkFrom falru falru.numBlocks (some falru.head) 0 (2 ^ 17) 0 falru.cacheMask

/-! ### The list, the boundaries and the masks -/

/-- The number of blocks of one of the smaller caches: they have 128K bytes and the powers of two
above. -/
def capacity (falru : Falru) (i : Nat) : Nat := 2 ^ 17 * 2 ^ i / falru.blkSize

/-- The sizes the constructor accepts, with at least two blocks. -/
structure Sized (falru : Falru) : Prop where
  exponent : ∃ e, 1 ≤ e ∧ falru.blkSize * 2 ^ e = 2 ^ 17 ∧
    falru.numBlocks = 2 ^ (e + falru.numCaches)
  fits : falru.numCaches < 32
  mask : ∀ i, falru.cacheMask.getLsbD i = decide (i < falru.numCaches)

/-- The blocks are linked in this order. -/
structure Linked (falru : Falru) (order : List Nat) : Prop where
  next : Segment falru.next (some falru.head) order none
  prev : Segment falru.prev (some falru.tail) order.reverse none

/-- Every boundary is the last block of its cache, and the mask of a block tells the caches it is
in. -/
structure Ordered (falru : Falru) (order : List Nat) : Prop extends Linked falru order where
  perm : order.Perm (range falru.numBlocks)
  boundaries : ∀ i < falru.numCaches,
    falru.cacheBoundaries i = (order.take (falru.capacity i)).getLast?
  resident : ∀ blk ∈ order, ∀ i, (falru.inCache blk).getLsbD i =
    decide (i < falru.numCaches ∧ blk ∈ order.take (falru.capacity i))

variable {falru next : Falru} {order before after : List Nat} {blk : Nat}

section

variable (sized : falru.Sized)
include sized

theorem Sized.blkSize_pos : 0 < falru.blkSize := by
  obtain ⟨_, _, size, _⟩ := sized.exponent
  refine Nat.pos_of_ne_zero fun zero => ?_
  rw [zero, zero_mul] at size
  exact absurd size.symm (Nat.two_pow_pos 17).ne'

theorem Sized.capacity_eq :
    ∃ e, 1 ≤ e ∧ falru.numBlocks = 2 ^ (e + falru.numCaches) ∧
      ∀ i, falru.capacity i = 2 ^ (e + i) := by
  obtain ⟨e, positive, size, blocks⟩ := sized.exponent
  refine ⟨e, positive, blocks, fun i => ?_⟩
  rw [capacity, ← size, mul_assoc, Nat.mul_div_cancel_left _ sized.blkSize_pos, ← Nat.pow_add]

theorem Sized.capacity_mul (i : Nat) : falru.capacity i * falru.blkSize = 2 ^ 17 * 2 ^ i := by
  obtain ⟨e, _, size, _⟩ := sized.exponent
  refine Nat.div_mul_cancel ?_
  exact Dvd.dvd.mul_right ⟨2 ^ e, size.symm⟩ (2 ^ i)

theorem Sized.two_le_capacity (i : Nat) : 2 ≤ falru.capacity i := by
  obtain ⟨e, _, _, capacity⟩ := sized.capacity_eq
  rw [capacity]
  have grows : 2 ^ 1 ≤ 2 ^ (e + i) := Nat.pow_le_pow_right (by decide) (by omega)
  exact grows

theorem Sized.capacity_strictMono : StrictMono falru.capacity := by
  obtain ⟨_, _, _, capacity⟩ := sized.capacity_eq
  intro first second less
  rw [capacity, capacity]
  exact Nat.pow_lt_pow_right (by decide) (by omega)

theorem Sized.capacity_succ (i : Nat) : falru.capacity (i + 1) = falru.capacity i * 2 := by
  obtain ⟨_, _, _, capacity⟩ := sized.capacity_eq
  rw [capacity, capacity, ← pow_succ]
  rfl

theorem Sized.capacity_numCaches :
    falru.capacity falru.numCaches = falru.numBlocks := by
  obtain ⟨_, _, blocks, capacity⟩ := sized.capacity_eq
  rw [capacity, blocks]

theorem Sized.two_le_numBlocks : 2 ≤ falru.numBlocks := by
  rw [← sized.capacity_numCaches]
  exact sized.two_le_capacity falru.numCaches

theorem Sized.capacity_lt {i : Nat} (tracked : i < falru.numCaches) :
    falru.capacity i < falru.numBlocks := by
  rw [← sized.capacity_numCaches]
  exact sized.capacity_strictMono tracked

end

theorem Ordered.nodup (ordered : falru.Ordered order) : order.Nodup :=
  ordered.perm.nodup_iff.mpr nodup_range

theorem Ordered.length_eq (ordered : falru.Ordered order) : order.length = falru.numBlocks := by
  rw [ordered.perm.length_eq, length_range]

theorem Ordered.nothing_before_head (ordered : falru.Ordered (before ++ blk :: after))
    (first : blk = falru.head) : before = [] := by
  cases before with
  | nil => rfl
  | cons item =>
    have same : falru.head = item := Option.some.inj ordered.next.1
    have distinct := ordered.nodup
    rw [first, same] at distinct
    simp at distinct

theorem Linked.prev_eq (linked : falru.Linked order) {first second : Nat}
    (split : order = before ++ first :: second :: after) : falru.prev second = some first := by
  have backward := linked.prev
  rw [split, reverse_append, reverse_cons, reverse_cons, append_assoc, append_assoc] at backward
  exact backward.link_eq

theorem Linked.eq_tail_iff (linked : falru.Linked (before ++ blk :: after))
    (distinct : (before ++ blk :: after).Nodup) : blk = falru.tail ↔ after = [] := by
  have backward := linked.prev
  rw [reverse_append, reverse_cons, append_assoc] at backward
  constructor
  · intro same
    obtain ⟨_, later, _⟩ := segment_append.mp backward
    by_contra present
    have member := later.start_mem (fun nothing => present (reverse_eq_nil_iff.mp nothing))
    grind
  · rintro rfl
    exact (Option.some.inj backward.1).symm

/-! ### A boundary is moved -/

/-- What moving a block to the head does to the first blocks of the list, as many as a cache
holds. -/
inductive Shift (before after : List Nat) (blk capacity : Nat) : Prop where
  | outside {front rest : List Nat} {last boundary : Nat}
      (split : before = front ++ last :: boundary :: rest)
      (old : (before ++ blk :: after).take capacity = front ++ [last, boundary])
      (new : (blk :: (before ++ after)).take capacity = blk :: (front ++ [last]))
  | boundary {front : List Nat} {last : Nat} (split : before = front ++ [last])
      (old : (before ++ blk :: after).take capacity = front ++ [last, blk])
      (new : (blk :: (before ++ after)).take capacity = blk :: (front ++ [last]))
  | inside {front rest : List Nat} {last : Nat} (split : after = front ++ last :: rest)
      (old : (before ++ blk :: after).take capacity = before ++ blk :: (front ++ [last]))
      (new : (blk :: (before ++ after)).take capacity = blk :: (before ++ (front ++ [last])))

variable {items : List Nat} {count : Nat}

theorem exists_split (room : count < items.length) :
    ∃ front item rest, items = front ++ item :: rest ∧ front.length = count := by
  refine ⟨items.take count, items[count], items.drop (count + 1), ?_, ?_⟩
  · rw [← drop_eq_getElem_cons room, take_append_drop]
  · rw [length_take, min_eq_left room.le]

theorem take_of_append {front : List Nat} (rest : List Nat)
    (split : items = front ++ rest) (length : front.length = count) : items.take count = front := by
  rw [split]
  exact take_left' length

theorem shift {capacity : Nat} (many : 2 ≤ capacity)
    (room : capacity < (before ++ blk :: after).length) : Shift before after blk capacity := by
  rw [length_append, length_cons] at room
  by_cases inside : before.length + 1 < capacity
  · obtain ⟨front, last, rest, rfl, _⟩ : ∃ front last rest, after = front ++ last :: rest ∧
        front.length = capacity - before.length - 2 := exists_split (by omega)
    refine .inside rfl ?_ ?_
    · exact take_of_append rest (by simp) (by simp; omega)
    · exact take_of_append rest (by simp) (by simp; omega)
  · obtain ⟨front, last, rest, rfl, _⟩ : ∃ front last rest, before = front ++ last :: rest ∧
        front.length = capacity - 2 := exists_split (by omega)
    cases rest with
    | nil =>
      refine .boundary rfl ?_ ?_
      · exact take_of_append after (by simp) (by simp; omega)
      · exact take_of_append after (by simp) (by simp; omega)
    | cons boundary rest =>
      refine .outside rfl ?_ ?_
      · exact take_of_append (rest ++ blk :: after) (by simp) (by simp; omega)
      · exact take_of_append (boundary :: rest ++ after) (by simp) (by simp; omega)

/-- The boundaries of the first `count` caches are moved for a block that goes to the head. -/
structure Shifting (falru : Falru) (before after : List Nat) (blk count : Nat) (next : Falru) :
    Prop where
  frame : next = { falru with
    inCache := next.inCache, cacheBoundaries := next.cacheBoundaries }
  moved : ∀ i < count, next.cacheBoundaries i =
    ((blk :: (before ++ after)).take (falru.capacity i)).getLast?
  kept : ∀ i, count ≤ i → next.cacheBoundaries i = falru.cacheBoundaries i
  resident : ∀ other ∈ before ++ after, ∀ i, (next.inCache other).getLsbD i =
    if i < count then decide (other ∈ (blk :: (before ++ after)).take (falru.capacity i))
    else (falru.inCache other).getLsbD i

theorem getLsbD_clear (flags : BitVec 32) {i j : Nat} (small : i < 32) :
    (flags &&& ~~~(1#32 <<< i)).getLsbD j = (flags.getLsbD j && decide (j ≠ i)) := by
  simp only [BitVec.getLsbD_and, BitVec.getLsbD_not, BitVec.getLsbD_shiftLeft, BitVec.getLsbD_one]
  by_cases bound : j < 32
  · rcases Nat.lt_trichotomy j i with less | rfl | more
    · simp [bound, less, less.ne]
    · simp [bound]
    · have positive : j - i ≠ 0 := by omega
      simp [bound, positive, more.ne']
  · rw [BitVec.getLsbD_of_ge flags j (by omega)]
    rfl

theorem getLast?_cons_concat (first last : Nat) (items : List Nat) :
    (first :: (items ++ [last])).getLast? = some last := by
  rw [← cons_append, getLast?_concat]

section

variable (shifting : Shifting falru before after blk count next)
include shifting

/-- One more boundary is moved. -/
theorem Shifting.advance {later : Falru}
    (frame : later = { next with
      inCache := later.inCache, cacheBoundaries := later.cacheBoundaries })
    (boundary : later.cacheBoundaries count =
      ((blk :: (before ++ after)).take (falru.capacity count)).getLast?)
    (others : ∀ i ≠ count, later.cacheBoundaries i = next.cacheBoundaries i)
    (here : ∀ other ∈ before ++ after, (later.inCache other).getLsbD count =
      decide (other ∈ (blk :: (before ++ after)).take (falru.capacity count)))
    (elsewhere : ∀ other, ∀ i ≠ count,
      (later.inCache other).getLsbD i = (next.inCache other).getLsbD i) :
    Shifting falru before after blk (count + 1) later where
  frame := by
    rw [frame, shifting.frame]
  moved i less := by
    by_cases same : i = count
    · rw [same, boundary]
    · rw [others i same]
      exact shifting.moved i (by omega)
  kept i more := by
    rw [others i (by omega)]
    exact shifting.kept i (by omega)
  resident other member i := by
    by_cases same : i = count
    · rw [same, if_pos (Nat.lt_succ_self count)]
      exact here other member
    · rw [elsewhere other i same, shifting.resident other member i]
      exact if_congr (by omega) rfl rfl

variable (ordered : falru.Ordered (before ++ blk :: after)) (tracked : count < falru.numCaches)
include ordered tracked

/-- The mask of a block before the boundary is moved. -/
theorem Shifting.resident_eq (other : Nat) (member : other ∈ before ++ after) :
    (next.inCache other).getLsbD count =
      decide (other ∈ (before ++ blk :: after).take (falru.capacity count)) := by
  have listed : other ∈ before ++ blk :: after := by
    rw [mem_append, mem_cons]
    exact (mem_append.mp member).imp_right .inr
  rw [shifting.resident other member count, if_neg (lt_irrefl count),
    ordered.resident other listed count]
  simp only [tracked, true_and]

theorem Shifting.step (sized : falru.Sized) :
    ∃ later, shiftBoundary blk (falru.inCache blk ^^^ falru.cacheMask) next count = .ok later ∧
      Shifting falru before after blk (count + 1) later := by
  have listed : blk ∈ before ++ blk :: after := mem_append_right before mem_cons_self
  obtain ⟨apart, _⟩ :=
    nodup_cons.mp (perm_middle.nodup_iff.mp ordered.nodup)
  have update : (falru.inCache blk ^^^ falru.cacheMask).getLsbD count =
      !decide (blk ∈ (before ++ blk :: after).take (falru.capacity count)) := by
    rw [BitVec.getLsbD_xor, ordered.resident blk listed count, sized.mask]
    simp only [tracked, true_and, decide_true, Bool.xor_true]
  have old : next.cacheBoundaries count =
      ((before ++ blk :: after).take (falru.capacity count)).getLast? := by
    rw [shifting.kept count le_rfl, ordered.boundaries count tracked]
  have links : next.prev = falru.prev := by rw [shifting.frame]
  have bits := shifting.resident_eq ordered tracked
  have room : falru.capacity count < (before ++ blk :: after).length := by
    rw [ordered.length_eq]
    exact sized.capacity_lt tracked
  rw [shiftBoundary, update, old]
  cases shift (sized.two_le_capacity count) room with
  | @outside front _ last boundary split first second =>
    subst split
    rw [first] at bits ⊢
    have missing : blk ∉ front ++ [last, boundary] := fun member => apart (by
      simp only [mem_append, mem_cons] at member ⊢
      tauto)
    have back : next.prev boundary = some last := by
      rw [links]
      exact ordered.prev_eq (append_assoc ..)
    have ends : (front ++ [last, boundary]).getLast? = some boundary := by simp
    rw [if_pos (by rw [decide_eq_false missing]; rfl), ends]
    refine ⟨_, rfl, shifting.advance rfl ?_ ?_ ?_ ?_⟩
    · show Function.update next.cacheBoundaries count (next.prev boundary) count = _
      rw [update_self, back, second, getLast?_cons_concat]
    · intro i other
      exact update_of_ne other _ _
    · intro other member
      show (Function.update next.inCache boundary _ other).getLsbD count = _
      have different : other ≠ blk := ne_of_mem_of_not_mem member apart
      rw [second]
      by_cases same : other = boundary
      · have gone : boundary ∉ front ++ [last] := by
          grind
        rw [same, update_self, getLsbD_clear _ (tracked.trans sized.fits),
          decide_eq_false (not_mem_cons_of_ne_of_not_mem (same ▸ different) gone)]
        simp
      · rw [update_of_ne same, bits other member]
        simp [same, different]
    · intro other i different
      show (Function.update next.inCache boundary _ other).getLsbD i = _
      by_cases same : other = boundary
      · rw [same, update_self, getLsbD_clear _ (tracked.trans sized.fits)]
        simp [different]
      · rw [update_of_ne same]
  | @boundary front last split first second =>
    subst split
    rw [first] at bits ⊢
    have member : blk ∈ front ++ [last, blk] := by simp
    have back : next.prev blk = some last := by
      rw [links]
      exact ordered.prev_eq (append_assoc ..)
    have ends : (front ++ [last, blk]).getLast? = some blk := by simp
    rw [if_neg (by rw [decide_eq_true member]; decide), if_pos ends]
    refine ⟨_, rfl, shifting.advance rfl ?_ ?_ ?_ (fun _ _ _ => rfl)⟩
    · show Function.update next.cacheBoundaries count (next.prev blk) count = _
      rw [update_self, back, second, getLast?_cons_concat]
    · intro i other
      exact update_of_ne other _ _
    · intro other member
      rw [second, bits other member]
      simp [ne_of_mem_of_not_mem member apart]
  | @inside front _ last split first second =>
    subst split
    rw [first] at bits old ⊢
    have member : blk ∈ before ++ blk :: (front ++ [last]) := by simp
    have ends : (before ++ blk :: (front ++ [last])).getLast? = some last := by
      rw [← cons_append, ← append_assoc, getLast?_concat]
    rw [if_neg (by rw [decide_eq_true member]; decide), if_neg (by
      rw [ends]
      rintro ⟨⟩
      simp at apart)]
    refine ⟨_, rfl, shifting.advance rfl ?_ (fun _ _ => rfl) ?_ (fun _ _ _ => rfl)⟩
    · rw [old, ends, second, ← append_assoc, getLast?_cons_concat]
    · intro other member
      rw [second, bits other member]
      simp [ne_of_mem_of_not_mem member apart]

end

theorem shiftBoundaries (sized : falru.Sized) (ordered : falru.Ordered (before ++ blk :: after)) :
    ∀ count ≤ falru.numCaches, ∃ shifted, (range count).foldlM
        (shiftBoundary blk (falru.inCache blk ^^^ falru.cacheMask)) falru = .ok shifted ∧
      Shifting falru before after blk count shifted := by
  intro count tracked
  induction count with
  | zero => exact ⟨falru, rfl, rfl, fun _ less => absurd less (Nat.not_lt_zero _), fun _ _ => rfl,
      fun _ _ _ => rfl⟩
  | succ _ hypothesis =>
    obtain ⟨shifted, computed, shifting⟩ := hypothesis (by omega)
    obtain ⟨later, stepped, shifted⟩ := shifting.step ordered (by omega) sized
    refine ⟨later, ?_, shifted⟩
    rw [range_succ, foldlM_append, computed, ok_bind, foldlM_cons, stepped]
    rfl

/-! ### A block goes to the head -/

/-- A block is taken out of the list. -/
theorem Linked.unlink (linked : falru.Linked (before ++ blk :: after))
    (distinct : (before ++ blk :: after).Nodup) (inner : blk ≠ falru.head) :
    ∃ unlinked, falru.unlink blk = .ok unlinked ∧
      unlinked = { falru with
        next := unlinked.next, prev := unlinked.prev, tail := unlinked.tail } ∧
      unlinked.Linked (before ++ after) := by
  obtain ⟨forward, backward⟩ := id linked
  have present : before ≠ [] := by
    rintro rfl
    exact inner (Option.some.inj forward.1).symm
  obtain ⟨front, last, rfl⟩ := (eq_nil_or_concat' before).resolve_left present
  have back : falru.prev blk = some last := linked.prev_eq (append_assoc ..)
  have first : last ∉ front := by grind
  have second : last ∉ after := by grind
  have forwards := forward.unlink first second
  rw [Falru.unlink, back]
  cases after with
  | nil =>
    have tail : blk = falru.tail := (linked.eq_tail_iff distinct).mpr rfl
    rw [reverse_append] at backward
    have stops : falru.next blk = none := forward.link_last
    rw [if_pos tail, stops]
    rw [stops] at forwards
    refine ⟨_, rfl, rfl, forwards, ?_⟩
    rw [append_nil, ← back]
    exact backward.2
  | cons following rest =>
    have different : blk ≠ falru.tail := fun same =>
      cons_ne_nil following rest ((linked.eq_tail_iff distinct).mp same)
    rw [reverse_append, reverse_cons, append_assoc] at backward
    have link : falru.next blk = some following := forward.link_eq
    rw [if_neg different, link]
    rw [link] at forwards
    refine ⟨_, rfl, rfl, forwards, ?_⟩
    have regrouped : (following :: rest).reverse ++ ([blk] ++ (front ++ [last]).reverse) =
        rest.reverse ++ [following] ++ blk :: (front ++ [last]).reverse := by
      rw [reverse_cons]
      rfl
    have earlier : following ∉ front ++ [last] := by grind
    have inner : following ∉ rest := by grind
    rw [regrouped] at backward
    have backwards := backward.unlink (fun member => inner (mem_reverse.mp member))
      (fun member => earlier (mem_reverse.mp member))
    rw [back] at backwards
    rw [reverse_append, reverse_cons]
    exact backwards

/-- A block is put in front of the list. -/
theorem Linked.linkHead (linked : falru.Linked items) (distinct : (blk :: items).Nodup)
    (present : items ≠ []) : (falru.linkHead blk).Linked (blk :: items) := by
  obtain ⟨forward, backward⟩ := linked
  obtain ⟨apart, distinct⟩ := nodup_cons.mp distinct
  cases items with
  | nil => exact absurd rfl present
  | cons first rest =>
    obtain rfl : falru.head = first := Option.some.inj forward.1
    obtain ⟨inner, _⟩ := nodup_cons.mp distinct
    have different : blk ≠ falru.head := fun same => apart (same ▸ mem_cons_self)
    refine ⟨⟨rfl, ?_⟩, ?_⟩
    · show Segment (update falru.next blk (some falru.head))
        (update falru.next blk (some falru.head) blk) _ none
      rw [update_self]
      exact forward.update apart _
    · rw [reverse_cons]
      rw [reverse_cons] at backward
      have outside : blk ∉ rest.reverse ++ [falru.head] := by
        rw [← reverse_cons, mem_reverse]
        exact apart
      have moved := (backward.update outside none).redirect
        (fun member => inner (mem_reverse.mp member)) (some blk)
      refine segment_append.mpr ⟨some blk, ?_, rfl, ?_⟩
      · rw [reverse_cons]
        exact moved
      · show update (update falru.prev blk none) falru.head (some blk) blk = none
        rw [update_of_ne different, update_self]

/-- What a move leaves as it was. -/
def Moved (falru next : Falru) : Prop :=
  next = { falru with
    prev := next.prev, next := next.next, inCache := next.inCache
    head := next.head, tail := next.tail, cacheBoundaries := next.cacheBoundaries }

theorem Moved.sized (moved : falru.Moved next) (sized : falru.Sized) : next.Sized := by
  rw [moved]
  exact { sized with }

theorem Moved.trans {later : Falru} (first : falru.Moved next) (second : next.Moved later) :
    falru.Moved later := by
  rw [Moved, second, first]

theorem shiftBoundary_moved {updateMask : BitVec 32} {i : Nat}
    (shifted : shiftBoundary blk updateMask falru i = .ok next) : falru.Moved next := by
  rw [shiftBoundary] at shifted
  split at shifted
  · split at shifted
    · cases shifted
    · cases shifted
      rfl
  · split at shifted
    · cases shifted
      rfl
    · cases shifted
      rfl

theorem foldlM_moved {updateMask : BitVec 32} {caches : List Nat}
    (shifted : caches.foldlM (shiftBoundary blk updateMask) falru = .ok next) :
    falru.Moved next := by
  exact foldlM_invariant falru.Moved
    (fun _ _ _ _ moved taken => moved.trans (shiftBoundary_moved taken))
    (show falru.Moved falru from rfl) shifted

theorem unlink_moved (unlinked : falru.unlink blk = .ok next) : falru.Moved next := by
  rw [unlink] at unlinked
  split at unlinked
  · split at unlinked
    · cases unlinked
    · split at unlinked
      · cases unlinked
      · cases unlinked
        rfl
  · split at unlinked
    · cases unlinked
      rfl
    · cases unlinked

/-- A move that succeeds changes nothing but the list, the boundaries and the masks. -/
theorem moveToHead_moved (moved : falru.moveToHead blk = .ok next) : falru.Moved next := by
  obtain ⟨shifted, computed, continued⟩ := bind_eq_ok moved
  have first := foldlM_moved computed
  split at continued
  · cases continued
    exact first.trans rfl
  · obtain ⟨_, done, rfl⟩ := map_eq_ok continued
    have marked : shifted.Moved
        { shifted with inCache := update shifted.inCache blk falru.cacheMask } := rfl
    exact first.trans (marked.trans ((unlink_moved done).trans rfl))

theorem Shifting.ordered (sized : falru.Sized) (ordered : falru.Ordered (before ++ blk :: after))
    {shifted : Falru} (shifting : Shifting falru before after blk falru.numCaches shifted)
    (frame : next = { shifted with
      inCache := update shifted.inCache blk falru.cacheMask
      prev := next.prev, next := next.next, head := next.head, tail := next.tail })
    (linked : next.Linked (blk :: (before ++ after))) :
    falru.Moved next ∧ next.Ordered (blk :: (before ++ after)) := by
  have moved : falru.Moved next := by
    rw [Moved, frame, shifting.frame]
  have blocks : next.numBlocks = falru.numBlocks := by rw [moved]
  have caches : next.numCaches = falru.numCaches := by rw [moved]
  have sizes : next.capacity = falru.capacity := by rw [moved]; rfl
  refine ⟨moved, linked, ?_, ?_, ?_⟩
  · rw [blocks]
    exact perm_middle.symm.trans ordered.perm
  · intro i tracked
    rw [caches] at tracked
    rw [sizes, ← shifting.moved i tracked, frame]
  · intro other member i
    rw [caches, sizes, frame]
    dsimp only
    -- The moved block is marked as being in all caches.
    by_cases same : other = blk
    · have first : blk ∈ (blk :: (before ++ after)).take (falru.capacity i) := by
        obtain ⟨c, size⟩ : ∃ c, falru.capacity i = c + 1 :=
          ⟨falru.capacity i - 1, by have := sized.two_le_capacity i; omega⟩
        rw [size, take_succ_cons]
        exact mem_cons_self
      rw [same, update_self, sized.mask]
      simp only [first, and_true]
    · have inner : other ∈ before ++ after := (mem_cons.mp member).resolve_left same
      rw [update_of_ne same, shifting.resident other inner i]
      by_cases tracked : i < falru.numCaches
      · simp only [tracked, if_true, true_and]
      · have listed : other ∈ before ++ blk :: after := perm_middle.mem_iff.mpr member
        rw [if_neg tracked, ordered.resident other listed i]
        simp only [tracked, false_and]

theorem moveToHead_ok (sized : falru.Sized) (ordered : falru.Ordered (before ++ blk :: after)) :
    ∃ next, falru.moveToHead blk = .ok next ∧ falru.Moved next ∧
      next.Ordered (blk :: (before ++ after)) := by
  obtain ⟨shifted, computed, shifting⟩ := shiftBoundaries sized ordered falru.numCaches le_rfl
  have head : shifted.head = falru.head := by rw [shifting.frame]
  have linked : shifted.Linked (before ++ blk :: after) := by
    rw [shifting.frame]
    exact { ordered.toLinked with }
  rw [moveToHead, computed, ok_bind]
  by_cases first : blk = falru.head
  · have nothing : before = [] := ordered.nothing_before_head first
    subst nothing
    rw [if_pos first]
    exact ⟨_, rfl, shifting.ordered sized ordered rfl { linked with }⟩
  · rw [if_neg first]
    have marked : Linked { shifted with inCache := update shifted.inCache blk falru.cacheMask }
        (before ++ blk :: after) := { linked with }
    obtain ⟨unlinked, done, frame, rest⟩ := marked.unlink ordered.nodup
      (by rw [← head] at first; exact first)
    have present : before ++ after ≠ [] := by
      intro nothing
      rw [nothing] at rest
      cases rest.next
    rw [done, ok_bind]
    refine ⟨_, rfl, shifting.ordered sized ordered ?_
      (rest.linkHead (perm_middle.nodup_iff.mp ordered.nodup) present)⟩
    rw [frame]
    rfl

end Falru

end Gem5.Mem
