/-
This file models Ruby's set of node numbers (`mem/ruby/common/Set.hh` and `Set.cc`) on a
machine with words of 64 bits. The constants of the class disagree: the number of bits of
a word is taken to be one more than it is, so that the number of words is computed for 65
elements a word, while the shift and the mask place 32 elements in a word. The file proves
that the class implements the finite subsets of a range of numbers exactly up to a size of
31. Beyond it, 32 elements are cleared by `broadcast` and larger sizes have elements in
words that are not there.
-/

import Gem5.Library.Run
import Mathlib

namespace Gem5.Ruby.Common

open Library List Function

inductive Fault where
  | assertion
  | panic
  | outOfBounds
deriving DecidableEq, Repr

/-! ### The class -/

abbrev Word := BitVec 64

/-- `std::numeric_limits<unsigned long>::digits + 1`, where `digits` is 64. -/
def longBits : Nat := 64 + 1

def indexShift : Nat := if longBits = 64 then 6 else 5

def indexMask : Nat := (1 <<< indexShift) - 1

structure Set where
  size : Nat
  array : List Word
deriving DecidableEq, Repr

namespace Set

def arrayLen (size : Nat) : Nat := (size + longBits - 1) / longBits

/-- A set of a size, all words of which are cleared. -/
def ofSize (size : Nat) : Set := ⟨size, replicate (arrayLen size) 0⟩

variable (set other : Set)

def bitOf (index : Nat) : Word := 1#64 <<< (index &&& indexMask)

def modifyWord (index : Nat) (change : Word → Word) : Except Fault Set :=
  if index >>> indexShift < set.array.length then
    .ok { set with array := set.array.modify (index >>> indexShift) change }
  else .error .outOfBounds

def add (index : Nat) : Except Fault Set := set.modifyWord index (· ||| bitOf index)

def remove (index : Nat) : Except Fault Set := set.modifyWord index (· &&& ~~~bitOf index)

def isElement (element : Nat) : Except Fault Bool :=
  match set.array[element >>> indexShift]? with
  | some word => .ok (word &&& bitOf element != 0)
  | none => .error .outOfBounds

/-- The words of two sets of the same size together. -/
def combine (change : Word → Word → Word) : Except Fault Set :=
  if set.size = other.size then
    .ok { set with array := zipWith change set.array other.array }
  else .error .assertion

def addSet : Except Fault Set := set.combine other (· ||| ·)

def removeSet : Except Fault Set := set.combine other (· &&& ~~~·)

def OR : Except Fault Set := set.combine other (· ||| ·)

def AND : Except Fault Set := set.combine other (· &&& ·)

def clear : Set := { set with array := set.array.map fun _ => 0 }

/-- The loop of `clearExcess`, which masks the last word and shifts the mask. -/
def masked : Nat → Word → Word → Word
  | 0, _, word => word
  | rounds + 1, mask, word => masked rounds (mask >>> 1) (word &&& mask)

def clearExcess : Set :=
  if set.size % longBits ≠ 0 then
    let change := masked (64 - (set.size &&& indexMask)) 0x7FFFFFFFFFFFFFFF
    { set with array := set.array.modify (set.array.length - 1) change }
  else set

def broadcast : Set := clearExcess { set with array := set.array.map fun _ => -1 }

def countBits : Nat → Word → Word → Nat
  | 0, _, _ => 0
  | rounds + 1, mask, word =>
    (if word &&& mask ≠ 0 then 1 else 0) + countBits rounds (mask <<< 1) word

def count : Nat := (set.array.map (countBits longBits 1#64)).sum

def isEqual : Except Fault Bool :=
  if set.size = other.size then
    .ok ((set.array.zip other.array).all fun words => words.1 == words.2)
  else .error .assertion

def intersectionIsEmpty : Bool :=
  (set.array.zip other.array).all fun words => words.1 &&& words.2 == 0

def isSuperset : Except Fault Bool :=
  if set.size = other.size then
    .ok ((set.array.zip other.array).all fun words =>
      (words.2 &&& words.1) ||| ~~~words.2 == -1)
  else .error .assertion

def isSubset : Except Fault Bool := other.isSuperset set

/-- The loop of `isBroadcast` through the last word. -/
def lowBitsSet : Nat → Word → Word → Bool
  | 0, _, _ => true
  | rounds + 1, mask, word =>
    if mask &&& word = 0 then false else lowBitsSet rounds (mask <<< 1) word

def isBroadcast : Except Fault Bool :=
  let full := if set.size % longBits = 0 then set.array.length else set.array.length - 1
  if (set.array.take full).all (· == -1) then
    if set.size % longBits = 0 then .ok true
    else
      match set.array[set.array.length - 1]? with
      | some word => .ok (lowBitsSet (set.size % longBits) 1#64 word)
      | none => .error .outOfBounds
  else .ok false

def isEmpty : Bool := set.array.all (· == 0)

/-- The position of the lowest bit, counted from a number on. -/
def lowestBit : Nat → Nat → Word → Option Nat
  | 0, _, _ => none
  | rounds + 1, position, word =>
    if word &&& 1 ≠ 0 then some position else lowestBit rounds (position + 1) (word >>> 1)

/-- The loop of `smallestElement` through the words. -/
def smallestFrom : Nat → List Word → Except Fault Nat
  | _, [] => .error .panic
  | place, word :: rest =>
    if word ≠ 0 then
      match lowestBit longBits 0 word with
      | some position => .ok (longBits * place + position)
      | none => .error .panic
    else smallestFrom (place + 1) rest

def smallestElement : Except Fault Nat :=
  if set.count > 0 then smallestFrom 0 set.array else .error .assertion

/-! ### Operations on variables -/

end Set

/-- The operations on sets of one size that are held in numbered variables. -/
inductive Operation (size : Nat) where
  | add (target : Nat) (index : Fin size)
  | remove (target : Nat) (index : Fin size)
  | addSet (target source : Nat)
  | removeSet (target source : Nat)
  | clear (target : Nat)
  | broadcast (target : Nat)
  | assign (target source : Nat)
  | or (target first second : Nat)
  | and (target first second : Nat)
deriving DecidableEq, Repr

namespace Operation

variable {size : Nat}

def target : Operation size → Nat
  | .add target _ | .remove target _ | .addSet target _ | .removeSet target _ | .clear target
  | .broadcast target | .assign target _ | .or target _ _ | .and target _ _ => target

def result (sets : Nat → Set) : Operation size → Except Fault Set
  | .add target index => (sets target).add index
  | .remove target index => (sets target).remove index
  | .addSet target source => (sets target).addSet (sets source)
  | .removeSet target source => (sets target).removeSet (sets source)
  | .clear target => .ok (sets target).clear
  | .broadcast target => .ok (sets target).broadcast
  | .assign _ source => .ok (sets source)
  | .or _ first second => (sets first).OR (sets second)
  | .and _ first second => (sets first).AND (sets second)

def step (sets : Nat → Set) (operation : Operation size) : Except Fault (Nat → Set) := do
  let set ← operation.result sets
  .ok (update sets operation.target set)

def subset (subsets : Nat → Finset (Fin size)) : Operation size → Finset (Fin size)
  | .add target index => insert index (subsets target)
  | .remove target index => (subsets target).erase index
  | .addSet target source => subsets target ∪ subsets source
  | .removeSet target source => subsets target \ subsets source
  | .clear _ => ∅
  | .broadcast _ => Finset.univ
  | .assign _ source => subsets source
  | .or _ first second => subsets first ∪ subsets second
  | .and _ first second => subsets first ∩ subsets second

def specify (subsets : Nat → Finset (Fin size)) (operation : Operation size) :
    Nat → Finset (Fin size) :=
  update subsets operation.target (operation.subset subsets)

end Operation

structure Answers (size : Nat) (subsets : Nat → Finset (Fin size)) (sets : Nat → Set) :
    Prop where
  isElement : ∀ place (element : Fin size),
    (sets place).isElement element = .ok (decide (element ∈ subsets place))
  count : ∀ place, (sets place).count = (subsets place).card
  isEqual : ∀ first second,
    (sets first).isEqual (sets second) = .ok (decide (subsets first = subsets second))
  isSuperset : ∀ first second,
    (sets first).isSuperset (sets second) = .ok (decide (subsets second ⊆ subsets first))
  isSubset : ∀ first second,
    (sets first).isSubset (sets second) = .ok (decide (subsets first ⊆ subsets second))
  intersectionIsEmpty : ∀ first second,
    (sets first).intersectionIsEmpty (sets second) =
      decide (subsets first ∩ subsets second = ∅)
  isBroadcast : ∀ place,
    (sets place).isBroadcast = .ok (decide (subsets place = Finset.univ))
  isEmpty : ∀ place, (sets place).isEmpty = decide (subsets place = ∅)
  smallestElement : ∀ place (some : (subsets place).Nonempty),
    (sets place).smallestElement = .ok ((subsets place).min' some).val

/-! ### Words -/

theorem and_shiftLeft_ne_zero (word : Word) (index : Nat) :
    (word &&& 1#64 <<< index != 0) = word.getLsbD index := by
  have single : word &&& 1#64 <<< index = if word.getLsbD index then BitVec.twoPow 64 index
      else 0#64 := BitVec.and_twoPow word index
  rw [single]
  cases bit : word.getLsbD index with
  | false => rfl
  | true =>
    have inside : index < 64 := BitVec.lt_of_getLsbD bit
    have nonzero : BitVec.twoPow 64 index ≠ 0 := by
      intro zero
      have low := congrArg (·.getLsbD index) zero
      simp [inside] at low
    simpa using nonzero

namespace Set

theorem getLsbD_masked (rounds : Nat) (mask word : Word) (index : Nat) :
    (masked rounds mask word).getLsbD index =
      (word.getLsbD index && decide (∀ later < rounds, mask.getLsbD (index + later) = true)) := by
  induction rounds generalizing mask word with
  | zero => simp [masked]
  | succ _ hypothesis =>
    rw [masked, hypothesis, BitVec.getLsbD_and, Bool.and_assoc]
    refine congrArg (word.getLsbD index && ·) (Bool.eq_iff_iff.mpr ?_)
    rw [Bool.and_eq_true, decide_eq_true_iff, decide_eq_true_iff]
    constructor
    · rintro ⟨first, others⟩ later below
      cases later with
      | zero => exact first
      | succ later =>
        have shifted := others later (by omega)
        rw [BitVec.getLsbD_ushiftRight] at shifted
        rwa [show index + (later + 1) = 1 + (index + later) by omega]
    · intro all
      refine ⟨all 0 (by omega), fun later below => ?_⟩
      have shifted := all (later + 1) (by omega)
      rw [BitVec.getLsbD_ushiftRight]
      rwa [show 1 + (index + later) = index + (later + 1) by omega]

theorem countBits_eq (rounds start : Nat) (word : Word) :
    countBits rounds (1#64 <<< start) word =
      ((range' start rounds).filter word.getLsbD).length := by
  induction rounds generalizing start with
  | zero => rfl
  | succ _ hypothesis =>
    have bit := and_shiftLeft_ne_zero word start
    rw [countBits, ← BitVec.shiftLeft_add, hypothesis, range'_succ, filter_cons]
    by_cases present : word &&& 1#64 <<< start = 0
    · rw [present] at bit
      rw [if_neg (not_not.mpr present), if_neg (by rw [← bit]; decide), zero_add]
    · rw [bne_iff_ne.mpr present] at bit
      rw [if_pos present, if_pos bit.symm, length_cons, add_comm]

theorem lowBitsSet_iff (rounds start : Nat) (word : Word) :
    lowBitsSet rounds (1#64 <<< start) word = true ↔
      ∀ index < rounds, word.getLsbD (start + index) = true := by
  induction rounds generalizing start with
  | zero => exact ⟨fun _ _ below => absurd below (Nat.not_lt_zero _), fun _ => rfl⟩
  | succ _ hypothesis =>
    have bit := and_shiftLeft_ne_zero word start
    rw [lowBitsSet, ← BitVec.shiftLeft_add, BitVec.and_comm]
    by_cases present : word &&& 1#64 <<< start = 0
    · rw [if_pos present]
      rw [present] at bit
      refine ⟨fun impossible => (nomatch impossible), fun all => ?_⟩
      exact absurd (all 0 (by omega)) (by rw [add_zero, ← bit]; decide)
    · rw [if_neg present, hypothesis]
      rw [bne_iff_ne.mpr present] at bit
      constructor
      · intro all index below
        cases index with
        | zero => exact bit.symm
        | succ index =>
          rw [show start + (index + 1) = start + 1 + index by omega]
          exact all index (by omega)
      · intro all index below
        rw [show start + 1 + index = start + (index + 1) by omega]
        exact all (index + 1) (by omega)

theorem lowestBit_eq (rounds start : Nat) (word : Word) :
    lowestBit rounds start (word >>> start) = (range' start rounds).find? word.getLsbD := by
  induction rounds generalizing start with
  | zero => rfl
  | succ _ hypothesis =>
    have bit := and_shiftLeft_ne_zero (word >>> start) 0
    rw [BitVec.getLsbD_ushiftRight, add_zero] at bit
    rw [lowestBit, ← BitVec.shiftRight_add, hypothesis, range'_succ, find?_cons]
    by_cases present : word >>> start &&& 1 = 0
    · have absent : word.getLsbD start = false := by
        rw [← bit]
        exact bne_eq_false_iff_eq.mpr present
      rw [if_neg (not_not.mpr present), absent]
    · have found : word.getLsbD start = true := by
        rw [← bit]
        exact bne_iff_ne.mpr present
      rw [if_pos present, found]

/-! ### Words that stand for subsets -/

def Encodes {size : Nat} (subset : Finset (Fin size)) (word : Word) : Prop :=
  ∀ index, word.getLsbD index = true ↔ ∃ inside : index < size, ⟨index, inside⟩ ∈ subset

theorem and_indexMask {index : Nat} (small : index < 32) : index &&& indexMask = index :=
  Nat.and_two_pow_sub_one_of_lt_two_pow (n := 5) small

namespace Encodes

variable {size : Nat} {subset other : Finset (Fin size)} {word otherWord : Word}

theorem zero (size : Nat) : Encodes (∅ : Finset (Fin size)) 0 :=
  fun _ => by simp

theorem inside (encodes : Encodes subset word) (element : Fin size) :
    word.getLsbD element = decide (element ∈ subset) := by
  rw [Bool.eq_iff_iff, encodes, decide_eq_true_iff]
  exact ⟨fun ⟨_, member⟩ => member, fun member => ⟨element.isLt, member⟩⟩

theorem or (first : Encodes subset word) (second : Encodes other otherWord) :
    Encodes (subset ∪ other) (word ||| otherWord) := by
  intro index
  rw [BitVec.getLsbD_or, Bool.or_eq_true, first, second, ← exists_or]
  simp only [Finset.mem_union]

theorem and (first : Encodes subset word) (second : Encodes other otherWord) :
    Encodes (subset ∩ other) (word &&& otherWord) := by
  intro index
  rw [BitVec.getLsbD_and, Bool.and_eq_true, first, second]
  grind

/-- All bits up to the size are left when the excess is cleared. -/
theorem full (small : size ≤ 31) :
    Encodes (Finset.univ : Finset (Fin size))
      (masked (64 - (size &&& indexMask)) 0x7FFFFFFFFFFFFFFF (-1)) := by
  have mask : ∀ index, (0x7FFFFFFFFFFFFFFF : Word).getLsbD index = decide (index < 63) := by
    intro index
    have ones : (0x7FFFFFFFFFFFFFFF : Word) = BitVec.allOnes 64 >>> 1 := by decide
    rw [ones, BitVec.getLsbD_ushiftRight, BitVec.getLsbD_allOnes]
    exact decide_eq_decide.mpr (by omega)
  have ones : ∀ index, (-1 : Word).getLsbD index = decide (index < 64) := by
    intro index
    have ones : (-1 : Word) = BitVec.allOnes 64 := by decide
    rw [ones, BitVec.getLsbD_allOnes]
  intro index
  simp only [getLsbD_masked, and_indexMask (show size < 32 by omega), ones, mask,
    ← Bool.decide_and, decide_eq_true_iff]
  constructor
  · rintro ⟨_, all⟩
    have last := all (63 - size) (by omega)
    exact ⟨by omega, Finset.mem_univ _⟩
  · rintro ⟨_, _⟩
    exact ⟨by omega, fun _ _ => by omega⟩

section

variable (small : size ≤ 32)
include small

theorem and_not (first : Encodes subset word) (second : Encodes other otherWord) : Encodes
    (subset \ other) (word &&& ~~~otherWord) := by
  intro index
  rw [BitVec.getLsbD_and, BitVec.getLsbD_not, Bool.and_eq_true, Bool.and_eq_true,
    decide_eq_true_iff, Bool.not_eq_true', ← Bool.not_eq_true, first, second]
  grind

theorem bitOf (element : Fin size) : Encodes {element} (bitOf element) := by
  intro index
  have bounded : element.val < 64 := by omega
  rw [Set.bitOf, and_indexMask (lt_of_lt_of_le element.isLt small), ← BitVec.twoPow_eq,
    BitVec.getLsbD_twoPow, decide_eq_true bounded, Bool.true_and, decide_eq_true_iff]
  simp only [Finset.mem_singleton, Fin.ext_iff]
  exact ⟨fun same => ⟨same ▸ element.isLt, same.symm⟩, fun ⟨_, same⟩ => same.symm⟩

theorem countBits (encodes : Encodes subset word) : countBits longBits 1#64 word = subset.card := by
  have count := countBits_eq longBits 0 word
  rw [BitVec.shiftLeft_zero] at count
  have distinct : ((range' 0 longBits).filter word.getLsbD).Nodup :=
    List.Nodup.filter _ nodup_range'
  have same : ((range' 0 longBits).filter word.getLsbD).toFinset =
      subset.map Fin.valEmbedding := by
    refine Finset.ext fun index => ?_
    rw [mem_toFinset, mem_filter, encodes, Finset.mem_map]
    constructor
    · rintro ⟨_, inside, member⟩
      exact ⟨⟨index, inside⟩, member, rfl⟩
    · rintro ⟨element, member, rfl⟩
      refine ⟨mem_range'_1.mpr ⟨Nat.zero_le _, ?_⟩, element.isLt, member⟩
      exact lt_of_lt_of_le element.isLt (le_trans small (by decide))
  rw [count, ← toFinset_card_of_nodup distinct, same, Finset.card_map]

theorem lowestBit (encodes : Encodes subset word) (some : subset.Nonempty) :
    lowestBit longBits 0 word = Option.some (subset.min' some).val := by
  have found := lowestBit_eq longBits 0 word
  rw [BitVec.ushiftRight_zero] at found
  rw [found, find?_range'_eq_some]
  have member := subset.min'_mem some
  refine ⟨(encodes.inside _).trans (decide_eq_true member), ?_, fun index _ below => ?_⟩
  · refine mem_range'_1.mpr ⟨Nat.zero_le _, ?_⟩
    exact lt_of_lt_of_le (subset.min' some).isLt (le_trans small (by decide))
  · rw [Bool.not_eq_true', ← Bool.not_eq_true, encodes]
    rintro ⟨_, earlier⟩
    exact absurd (subset.min'_le _ earlier) (not_le.mpr below)

end

theorem eq_iff (first : Encodes subset word) (second : Encodes other otherWord) :
    word = otherWord ↔ subset = other := by
  constructor
  · rintro rfl
    refine Finset.ext fun element => ?_
    exact decide_eq_decide.mp ((first.inside element).symm.trans (second.inside element))
  · rintro rfl
    refine BitVec.eq_of_getLsbD_eq fun index _ => Bool.eq_iff_iff.mpr ?_
    rw [first, second]

end Encodes

/-! ### Sets that stand for subsets -/

/-- A set of a size, all words of which encode the same subset. There is one word if there
are elements, for the sizes that the class is right for. -/
structure Represents {size : Nat} (subset : Finset (Fin size)) (set : Set) : Prop where
  sizes : set.size = size
  length : set.array.length = arrayLen size
  encodes : ∀ word ∈ set.array, Encodes subset word

theorem arrayLen_small {size : Nat} (some : 0 < size) (small : size ≤ 32) : arrayLen size = 1 := by
  rw [arrayLen, longBits]
  omega

theorem element_shiftRight {size : Nat} (small : size ≤ 32) (element : Fin size) :
    element.val >>> indexShift = 0 := by
  rw [Nat.shiftRight_eq_div_pow]
  exact Nat.div_eq_of_lt (lt_of_lt_of_le element.isLt (le_trans small (by decide)))

namespace Represents

variable {size : Nat} {subset other : Finset (Fin size)} {set otherSet : Set}

theorem nil (subset : Finset (Fin 0)) : Represents subset ⟨0, []⟩ :=
  ⟨rfl, rfl, fun _ member => nomatch member⟩

theorem single (some : 0 < size) (small : size ≤ 32) {word : Word} (encodes : Encodes subset word) :
    Represents subset ⟨size, [word]⟩ :=
  ⟨rfl, (arrayLen_small some small).symm, fun _ member => mem_singleton.mp member ▸ encodes⟩

theorem ofSize (size : Nat) : Represents (∅ : Finset (Fin size)) (ofSize size) :=
  ⟨rfl, length_replicate, fun _ member =>
    eq_of_mem_replicate member ▸ Encodes.zero size⟩

/-! ### Changes and answers -/

section

variable (represents : Represents subset set) (small : size ≤ 32)
include represents small

theorem cases :
    (size = 0 ∧ set = ⟨0, []⟩) ∨
      0 < size ∧ ∃ word, set = ⟨size, [word]⟩ ∧ Encodes subset word := by
  obtain ⟨sizes, length, encodes⟩ := represents
  obtain ⟨setSize, _⟩ := set
  dsimp only at sizes length encodes
  subst sizes
  obtain rfl | some := Nat.eq_zero_or_pos setSize
  · rw [eq_nil_of_length_eq_zero length]
    exact .inl ⟨rfl, rfl⟩
  · rw [arrayLen_small some small] at length
    obtain ⟨word, rfl⟩ := length_eq_one_iff.mp length
    exact .inr ⟨some, word, rfl, encodes word mem_cons_self⟩

theorem modifyWord (element : Fin size) {change : Word → Word} {changed : Finset (Fin size)}
    (changes : ∀ word, Encodes subset word → Encodes changed (change word)) :
    ∃ next, set.modifyWord element change = .ok next ∧ Represents changed next := by
  obtain ⟨rfl, _⟩ | ⟨some, word, rfl, encodes⟩ := represents.cases small
  · exact element.elim0
  · have first := element_shiftRight small element
    refine ⟨⟨size, [change word]⟩, ?_, single some small (changes word encodes)⟩
    rw [Set.modifyWord, first, if_pos (by exact Nat.one_pos)]
    rfl

theorem clear :
    Represents (∅ : Finset (Fin size)) set.clear := by
  obtain ⟨rfl, rfl⟩ | ⟨some, _, rfl, _⟩ := represents.cases small
  · exact nil _
  · exact single some small (Encodes.zero size)

theorem broadcast (fewer : size ≤ 31) :
    Represents (Finset.univ : Finset (Fin size)) set.broadcast := by
  obtain ⟨rfl, rfl⟩ | ⟨some, _, rfl, _⟩ := represents.cases small
  · exact nil _
  · have excess : size % longBits ≠ 0 := by
      rw [longBits]
      omega
    rw [Set.broadcast, clearExcess, if_pos excess]
    exact single some small (Encodes.full fewer)

theorem isElement (element : Fin size) :
    set.isElement element = .ok (decide (element ∈ subset)) := by
  obtain ⟨rfl, _⟩ | ⟨_, _, rfl, encodes⟩ := represents.cases small
  · exact element.elim0
  · rw [Set.isElement, element_shiftRight small element]
    dsimp only [getElem?_cons_zero]
    rw [Set.bitOf, and_indexMask (lt_of_lt_of_le element.isLt small), and_shiftLeft_ne_zero,
      encodes.inside]

theorem count :
    set.count = subset.card := by
  obtain ⟨rfl, rfl⟩ | ⟨_, _, rfl, encodes⟩ := represents.cases small
  · rw [Finset.eq_empty_of_isEmpty subset]
    rfl
  · rw [Set.count, map_singleton, sum_singleton]
    exact encodes.countBits small

theorem isBroadcast :
    set.isBroadcast = .ok (decide (subset = Finset.univ)) := by
  obtain ⟨rfl, rfl⟩ | ⟨_, word, rfl, encodes⟩ := represents.cases small
  · rw [Finset.eq_empty_of_isEmpty subset]
    rfl
  · have partly : size % longBits = size := by
      rw [longBits]
      omega
    have nonzero : size % longBits ≠ 0 := by omega
    have low := lowBitsSet_iff size 0 word
    rw [BitVec.shiftLeft_zero] at low
    rw [Set.isBroadcast]
    rw [if_neg nonzero, if_pos (by rfl), if_neg nonzero, partly]
    refine congrArg Except.ok (Bool.eq_iff_iff.mpr ?_)
    rw [low, decide_eq_true_iff, Finset.eq_univ_iff_forall]
    constructor
    · intro all element
      have bit := all element.val element.isLt
      rw [zero_add, encodes.inside] at bit
      exact of_decide_eq_true bit
    · intro all index below
      rw [zero_add]
      exact (encodes index).mpr ⟨below, all _⟩

theorem isEmpty :
    set.isEmpty = decide (subset = ∅) := by
  obtain ⟨rfl, rfl⟩ | ⟨_, _, rfl, encodes⟩ := represents.cases small
  · rw [Finset.eq_empty_of_isEmpty subset]
    rfl
  · dsimp only [Set.isEmpty, all_cons, all_nil]
    rw [Bool.and_true]
    exact Bool.eq_iff_iff.mpr (by
      rw [beq_iff_eq, decide_eq_true_iff]
      exact encodes.eq_iff (.zero size))

theorem smallestElement (some : subset.Nonempty) : set.smallestElement = .ok
    (subset.min' some).val := by
  have count := represents.count small
  obtain ⟨rfl, _⟩ | ⟨_, word, rfl, encodes⟩ := represents.cases small
  · exact (subset.min' some).elim0
  · have nonzero : word ≠ 0 := by
      intro zero
      exact some.ne_empty ((encodes.eq_iff (.zero size)).mp zero)
    rw [Set.smallestElement, count, if_pos (Finset.card_pos.mpr some), smallestFrom,
      if_pos nonzero, encodes.lowestBit small some]
    dsimp only
    rw [Nat.mul_zero, zero_add]

end

section

variable (first : Represents subset set) (second : Represents other otherSet)
include first second

theorem sizes_eq : set.size = otherSet.size :=
  first.sizes.trans second.sizes.symm

variable (small : size ≤ 32)
include small

theorem combine {change : Word → Word → Word} {changed : Finset (Fin size)}
    (changes : ∀ word otherWord, Encodes subset word → Encodes other otherWord →
      Encodes changed (change word otherWord)) :
    ∃ next, set.combine otherSet change = .ok next ∧ Represents changed next := by
  obtain ⟨rfl, rfl⟩ | ⟨some, word, rfl, encodes⟩ := first.cases small
  · obtain ⟨_, rfl⟩ | ⟨some, _⟩ := second.cases small
    · exact ⟨⟨0, []⟩, rfl, nil _⟩
    · exact absurd some (lt_irrefl 0)
  · obtain ⟨rfl, _⟩ | ⟨_, otherWord, rfl, otherEncodes⟩ := second.cases small
    · exact absurd some (lt_irrefl 0)
    · refine ⟨⟨size, [change word otherWord]⟩, ?_,
        single some small (changes word otherWord encodes otherEncodes)⟩
      rw [Set.combine, if_pos rfl]
      rfl

theorem all_zip {ask : Word × Word → Bool} {question : Prop}
    [Decidable question]
    (always : size = 0 → question)
    (answers : ∀ word otherWord, Encodes subset word → Encodes other otherWord →
      (ask (word, otherWord) = true ↔ question)) :
    (set.array.zip otherSet.array).all ask = decide question := by
  obtain ⟨rfl, rfl⟩ | ⟨some, word, rfl, encodes⟩ := first.cases small
  · exact (decide_eq_true (always rfl)).symm
  · obtain ⟨rfl, _⟩ | ⟨_, otherWord, rfl, otherEncodes⟩ := second.cases small
    · exact absurd some (lt_irrefl 0)
    · have answer := answers word otherWord encodes otherEncodes
      dsimp only [zip_cons_cons, zip_nil_left, all_cons, all_nil]
      rw [Bool.and_true]
      exact Bool.eq_iff_iff.mpr (answer.trans (decide_eq_true_iff).symm)

theorem isEqual : set.isEqual otherSet = .ok (decide (subset = other)) := by
  rw [Set.isEqual, if_pos (first.sizes_eq second)]
  refine congrArg Except.ok (first.all_zip second small ?_ ?_)
  · rintro rfl
    rw [Finset.eq_empty_of_isEmpty subset, Finset.eq_empty_of_isEmpty other]
  · intro word otherWord encodes otherEncodes
    rw [beq_iff_eq]
    exact encodes.eq_iff otherEncodes

theorem isSuperset :
    set.isSuperset otherSet = .ok (decide (other ⊆ subset)) := by
  rw [Set.isSuperset, if_pos (first.sizes_eq second)]
  refine congrArg Except.ok (first.all_zip second small ?_ ?_)
  · rintro rfl
    rw [Finset.eq_empty_of_isEmpty other]
    exact Finset.empty_subset subset
  · intro word otherWord encodes otherEncodes
    have ones : (-1 : Word) = BitVec.allOnes 64 := by decide
    rw [beq_iff_eq, ones]
    constructor
    · intro all element member
      have bounded : element.val < 64 := by omega
      have bit := congrArg (·.getLsbD element.val) all
      rw [BitVec.getLsbD_or, BitVec.getLsbD_and, BitVec.getLsbD_not, BitVec.getLsbD_allOnes,
        otherEncodes.inside, encodes.inside, decide_eq_true member, decide_eq_true bounded,
        Bool.true_and, Bool.not_true, Bool.and_false, Bool.or_false] at bit
      exact of_decide_eq_true bit
    · intro within
      refine BitVec.eq_of_getLsbD_eq fun index bounded => ?_
      rw [BitVec.getLsbD_or, BitVec.getLsbD_and, BitVec.getLsbD_not, BitVec.getLsbD_allOnes,
        decide_eq_true bounded, Bool.true_and]
      cases bit : otherWord.getLsbD index with
      | false => rfl
      | true =>
        obtain ⟨inside, member⟩ := (otherEncodes index).mp bit
        rw [(encodes index).mpr ⟨inside, within member⟩]
        rfl

theorem intersectionIsEmpty :
    set.intersectionIsEmpty otherSet = decide (subset ∩ other = ∅) := by
  refine first.all_zip second small ?_ ?_
  · rintro rfl
    exact Finset.eq_empty_of_isEmpty _
  · intro word otherWord encodes otherEncodes
    rw [beq_iff_eq]
    exact (encodes.and otherEncodes).eq_iff (.zero size)

end

end Represents

end Set

theorem Operation.result_represents {size : Nat} (fewer : size ≤ 31)
    {subsets : Nat → Finset (Fin size)} {sets : Nat → Set}
    (represents : ∀ place, (sets place).Represents (subsets place)) (operation : Operation size) :
    ∃ set, operation.result sets = .ok set ∧ Set.Represents (operation.subset subsets) set := by
  have small : size ≤ 32 := fewer.trans (by decide)
  cases operation with
  | add target index =>
    refine (represents target).modifyWord small index fun word encodes => ?_
    rw [Operation.subset, Finset.insert_eq, Finset.union_comm]
    exact encodes.or (.bitOf small index)
  | remove target index =>
    refine (represents target).modifyWord small index fun word encodes => ?_
    rw [Operation.subset, Finset.erase_eq]
    exact encodes.and_not small (.bitOf small index)
  | addSet target source =>
    exact (represents target).combine (represents source) small fun _ _ first second =>
      first.or second
  | removeSet target source =>
    exact (represents target).combine (represents source) small fun _ _ first second =>
      first.and_not small second
  | clear target => exact ⟨_, rfl, (represents target).clear small⟩
  | broadcast target => exact ⟨_, rfl, (represents target).broadcast small fewer⟩
  | assign _ source => exact ⟨_, rfl, represents source⟩
  | or _ first second =>
    exact (represents first).combine (represents second) small fun _ _ first second =>
      first.or second
  | and _ first second =>
    exact (represents first).combine (represents second) small fun _ _ first second =>
      first.and second

theorem Operation.run_represents {size : Nat} (small : size ≤ 31)
    (operations : List (Operation size)) {subsets : Nat → Finset (Fin size)} {sets : Nat → Set}
    (represents : ∀ place, (sets place).Represents (subsets place)) :
    ∃ final, operations.foldlM Operation.step sets = .ok final ∧
      ∀ place, (final place).Represents (operations.foldl Operation.specify subsets place) := by
  induction operations generalizing subsets sets with
  | nil => exact ⟨sets, rfl, represents⟩
  | cons operation _ hypothesis =>
    obtain ⟨set, result, represented⟩ := operation.result_represents small represents
    have updated : ∀ place, (update sets operation.target set place).Represents
        (operation.specify subsets place) := by
      intro place
      rw [Operation.specify]
      rw [update_apply, update_apply]
      split
      · exact represented
      · exact represents place
    obtain ⟨final, continued, matching⟩ := hypothesis updated
    refine ⟨final, ?_, matching⟩
    rw [foldlM_cons, Operation.step, result, ok_bind]
    exact continued

/-! ### The sizes that the class is right for -/

/-- A size for which every sequence of operations on sets can be carried out and leaves sets
that answer as the subsets do. -/
def ImplementsSubsets (size : Nat) : Prop :=
  ∀ operations : List (Operation size),
    ∃ sets, operations.foldlM Operation.step (fun _ => Set.ofSize size) = .ok sets ∧
      Answers size (operations.foldl Operation.specify fun _ => ∅) sets

theorem add_outOfBounds {size : Nat} (large : 33 ≤ size) :
    (Set.ofSize size).add (size - 1) = .error .outOfBounds := by
  have beyond : ¬ (size - 1) >>> indexShift < (Set.ofSize size).array.length := by
    rw [Set.ofSize, length_replicate, Set.arrayLen, longBits,
      show indexShift = 5 from rfl, Nat.shiftRight_eq_div_pow]
    omega
  rw [Set.add, Set.modifyWord, if_neg beyond]

/-- The class implements the subsets of a range of numbers exactly up to a size of 31. -/
theorem implementsSubsets_iff (size : Nat) : ImplementsSubsets size ↔ size ≤ 31 := by
  constructor
  · intro implements
    by_contra large
    by_cases many : 33 ≤ size
    · obtain ⟨_, taken, _⟩ := implements [.add 0 ⟨size - 1, by omega⟩]
      rw [foldlM_cons, Operation.step, Operation.result, add_outOfBounds many] at taken
      cases taken
    · obtain rfl : size = 32 := by omega
      obtain ⟨_, taken, answers⟩ := implements [.broadcast 0]
      cases taken
      have first := answers.isElement 0 0
      have member : (0 : Fin 32) ∈ Finset.univ := Finset.mem_univ 0
      exact of_decide_eq_false (Except.ok.inj first).symm member
  · intro fewer operations
    obtain ⟨sets, taken, represents⟩ := Operation.run_represents fewer operations
      fun _ => Set.Represents.ofSize size
    have small : size ≤ 32 := fewer.trans (by decide)
    exact ⟨sets, taken, {
      isElement := fun place element => (represents place).isElement small element
      count := fun place => (represents place).count small
      isEqual := fun first second => (represents first).isEqual (represents second) small
      isSuperset := fun first second => (represents first).isSuperset (represents second) small
      isSubset := fun first second => (represents second).isSuperset (represents first) small
      intersectionIsEmpty := fun first second =>
        (represents first).intersectionIsEmpty (represents second) small
      isBroadcast := fun place => (represents place).isBroadcast small
      isEmpty := fun place => (represents place).isEmpty small
      smallestElement := fun place some => (represents place).smallestElement small some }⟩

/-- A set of 64 elements has one word, and its last element is in a second one; a set of 32
elements is not full after a broadcast. -/
theorem constants_disagree :
    (Set.ofSize 64).array.length = 1 ∧ 63 >>> indexShift = 1 ∧
      (Set.ofSize 64).add 63 = .error .outOfBounds ∧
      (Set.ofSize 32).broadcast.isBroadcast = .ok false ∧
      (Set.ofSize 32).broadcast.count = 0 := by
  exact ⟨rfl, rfl, rfl, rfl, by decide +kernel⟩

end Gem5.Ruby.Common
