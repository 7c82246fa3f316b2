/-
This file is the library of lanes. A lane receives numbered items in the order
of their numbers, holds them back, takes those held back into a list sorted by
a key, an item before the items of an equal key, and delivers the items from the
front of the list. If no lane takes in an item whose key is not above those
already delivered, every lane delivers by one and the same order, whenever it
takes its items in.
-/

import Mathlib.Data.List.Pairwise
import Mathlib.Data.List.Sort

namespace Gem5.Library

open List

variable {Key : Type} [LinearOrder Key]

/-- The numbers of the items delivered, of those in the list and of those held back. -/
structure Lane where
  delivered : List Nat
  list : List Nat
  waiting : List Nat

/-- The order of delivery: by key, and among equal keys the later item first. -/
def Precedes (key : Nat → Key) (first second : Nat) : Prop :=
  key first < key second ∨ (key first = key second ∧ second < first)

theorem Precedes.asymm {key : Nat → Key} {first second : Nat}
    (precedes : Precedes key first second) : ¬ Precedes key second first := by
  rintro (smaller | ⟨equal, earlier⟩)
  · rcases precedes with above | ⟨same, _⟩
    · exact lt_asymm above smaller
    · exact ne_of_lt smaller same.symm
  · rcases precedes with above | ⟨_, later⟩
    · exact ne_of_lt above equal.symm
    · exact lt_asymm earlier later

theorem Precedes.key_le {key : Nat → Key} {first second : Nat}
    (precedes : Precedes key first second) : key first ≤ key second := by
  rcases precedes with above | ⟨same, _⟩
  · exact le_of_lt above
  · exact le_of_eq same

/-- The items are delivered and listed in order, those held back are later than they are and
wait in the order of their numbers, and all numbers are below the bound. -/
structure Lane.Ordered (key : Nat → Key) (bound : Nat) (lane : Lane) : Prop where
  inOrder : (lane.delivered ++ lane.list).Pairwise (Precedes key)
  waits : lane.waiting.Pairwise (· < ·)
  later : ∀ first ∈ lane.delivered ++ lane.list, ∀ second ∈ lane.waiting, first < second
  bounded : ∀ item ∈ lane.delivered ++ lane.list ++ lane.waiting, item < bound

namespace Lane.Ordered

variable {key : Nat → Key} {bound : Nat} {delivered list waiting : List Nat}

theorem congr {other : Nat → Key} {larger : Nat} {lane : Lane} (ordered : Ordered key bound lane)
    (same : ∀ item, item < bound → other item = key item) (grows : bound ≤ larger) :
    Ordered other larger lane := by
  obtain ⟨inOrder, waits, later, bounded⟩ := ordered
  refine ⟨inOrder.imp_of_mem fun firstMember secondMember precedes => ?_, waits, later,
    fun item member => lt_of_lt_of_le (bounded item member) grows⟩
  rwa [Precedes, same _ (bounded _ (mem_append_left _ firstMember)),
    same _ (bounded _ (mem_append_left _ secondMember))]

theorem deliver {item : Nat}
    (ordered : Ordered key bound { delivered, list := item :: list, waiting }) :
    Ordered key bound { delivered := delivered ++ [item], list, waiting } := by
  obtain ⟨inOrder, waits, later, bounded⟩ := ordered
  have same : delivered ++ [item] ++ list = delivered ++ item :: list := by
    rw [append_assoc, singleton_append]
  simp only [← same] at inOrder later bounded
  exact ⟨inOrder, waits, later, bounded⟩

theorem pairwise_orderedInsert {item : Nat} (inOrder : list.Pairwise (Precedes key))
    (newest : ∀ other ∈ list, other < item) :
    (list.orderedInsert (fun left right => key left ≤ key right) item).Pairwise
      (Precedes key) := by
  induction list with
  | nil => exact pairwise_singleton _ _
  | cons first _ hypothesis =>
    obtain ⟨firstPrecedes, restInOrder⟩ := pairwise_cons.mp inOrder
    by_cases stops : key item ≤ key first
    · rw [orderedInsert_cons, if_pos stops]
      refine pairwise_cons.mpr ⟨fun other member => ?_, inOrder⟩
      have above : key item ≤ key other := by
        rcases mem_cons.mp member with rfl | inRest
        · exact stops
        · exact stops.trans (firstPrecedes other inRest).key_le
      rcases lt_or_eq_of_le above with smaller | same
      · exact .inl smaller
      · exact .inr ⟨same, newest other member⟩
    · rw [orderedInsert_cons, if_neg stops]
      refine pairwise_cons.mpr ⟨fun other member => ?_,
        hypothesis restInOrder fun other inRest =>
          newest other (mem_cons_of_mem _ inRest)⟩
      rcases (mem_orderedInsert _).mp member with rfl | inRest
      · exact .inl (not_le.mp stops)
      · exact firstPrecedes other inRest

theorem take {item : Nat}
    (ordered : Ordered key bound { delivered, list, waiting := item :: waiting })
    (above : ∀ other ∈ delivered, key other < key item) :
    Ordered key bound
      { delivered
        list := list.orderedInsert (fun left right => key left ≤ key right) item
        waiting } := by
  obtain ⟨inOrder, waits, later, bounded⟩ := ordered
  obtain ⟨deliveredInOrder, listInOrder, across⟩ := pairwise_append.mp inOrder
  obtain ⟨first, restWaits⟩ := pairwise_cons.mp waits
  have members (other : Nat) (member : other ∈ delivered ++
      list.orderedInsert (fun left right => key left ≤ key right) item) :
      other = item ∨ other ∈ delivered ++ list := by
    rcases mem_append.mp member with old | inserted
    · exact .inr (mem_append_left _ old)
    · exact ((mem_orderedInsert _).mp inserted).imp_right (mem_append_right _)
  refine ⟨pairwise_append.mpr ⟨deliveredInOrder, ?_, ?_⟩, restWaits, ?_, ?_⟩
  · exact pairwise_orderedInsert listInOrder fun other member =>
      later other (mem_append_right _ member) item mem_cons_self
  · intro old oldMember other member
    rcases (mem_orderedInsert _).mp member with rfl | inList
    · exact .inl (above old oldMember)
    · exact across old oldMember other inList
  · intro other member held heldMember
    rcases members other member with rfl | old
    · exact first held heldMember
    · exact later other old held (mem_cons_of_mem _ heldMember)
  · intro other member
    rcases mem_append.mp member with inside | held
    · rcases members other inside with rfl | old
      · exact bounded other (mem_append_right _ mem_cons_self)
      · exact bounded other (mem_append_left _ old)
    · exact bounded other (mem_append_right _ (mem_cons_of_mem _ held))

section

variable (ordered : Ordered key bound { delivered, list, waiting })
include ordered

theorem arrive :
    Ordered key (bound + 1) { delivered, list, waiting := waiting ++ [bound] } := by
  obtain ⟨inOrder, waits, later, bounded⟩ := ordered
  refine ⟨inOrder, ?_, fun first firstMember second secondMember => ?_, fun item member => ?_⟩
  · rw [pairwise_append]
    refine ⟨waits, pairwise_singleton _ _, fun first member second last => ?_⟩
    rw [mem_singleton.mp last]
    exact bounded first (mem_append_right _ member)
  · rcases mem_append.mp secondMember with waits | last
    · exact later first firstMember second waits
    · rw [mem_singleton.mp last]
      exact bounded first (mem_append_left _ firstMember)
  · rw [← append_assoc] at member
    rcases mem_append.mp member with old | last
    · exact Nat.lt_succ_of_lt (bounded item old)
    · rw [mem_singleton.mp last]
      exact Nat.lt_succ_self bound

theorem sublist {rest : List Nat} (part : rest.Sublist list) : Ordered key bound
    { delivered, list := rest, waiting } := by
  obtain ⟨inOrder, waits, later, bounded⟩ := ordered
  have whole : (delivered ++ rest).Sublist (delivered ++ list) := part.append_left delivered
  refine ⟨inOrder.sublist whole, waits, fun first member => later first (whole.subset member),
    fun item member => bounded item ?_⟩
  rcases mem_append.mp member with inside | held
  · exact mem_append_left _ (whole.subset inside)
  · exact mem_append_right _ held

/-- All items held back are taken into the list. -/
theorem drain (above : ∀ first ∈ delivered, ∀ second ∈ waiting, key first < key second) :
    Ordered key bound
      { delivered
        list := waiting.foldl
          (fun list item => list.orderedInsert (fun left right => key left ≤ key right) item) list
        waiting := [] } := by
  induction waiting generalizing list with
  | nil => exact ordered
  | cons item _ hypothesis =>
    rw [foldl_cons]
    exact hypothesis
      (ordered.take fun other member => above other member item mem_cons_self)
      fun first firstMember second secondMember =>
        above first firstMember second (mem_cons_of_mem _ secondMember)

end

theorem nodup {lane : Lane} (ordered : Ordered key bound lane) : lane.delivered.Nodup := by
  refine (ordered.inOrder.sublist (sublist_append_left _ _)).imp fun precedes => ?_
  rintro rfl
  exact precedes.asymm precedes

theorem agree {lane other : Lane} {otherBound : Nat} (ordered : Ordered key bound lane)
    (otherOrdered : Ordered key otherBound other) {first second : Nat}
    (inOrder : [first, second].Sublist lane.delivered) (firstDelivered : first ∈ other.delivered)
    (secondDelivered : second ∈ other.delivered) : [first, second].Sublist other.delivered := by
  have precedes : Precedes key first second := by
    have part := (ordered.inOrder.sublist (sublist_append_left _ _)).sublist inOrder
    exact rel_of_pairwise_cons part (mem_singleton_self _)
  have otherInOrder := otherOrdered.inOrder.sublist (sublist_append_left _ _)
  obtain ⟨_, _, split⟩ := append_of_mem firstDelivered
  rw [split] at otherInOrder secondDelivered ⊢
  rcases mem_append.mp secondDelivered with early | late
  · have reversed := (pairwise_append.mp otherInOrder).2.2 second early first
      mem_cons_self
    exact absurd reversed precedes.asymm
  · rcases mem_cons.mp late with rfl | late
    · exact absurd precedes precedes.asymm
    · exact ((singleton_sublist.mpr late).cons_cons first).trans
        (sublist_append_right _ _)

end Lane.Ordered

/-! ### Lists with other items between the numbered ones -/

section Numbered

variable {Item : Type} {relation : Item → Item → Prop} [DecidableRel relation]
  {number : Item → Option Nat} {item : Item} {list : List Item} {key : Nat → Key}

theorem filterMap_orderedInsert_none (unnumbered : number item = none) :
    (list.orderedInsert relation item).filterMap number = list.filterMap number := by
  induction list with
  | nil => rw [orderedInsert_nil, filterMap_cons_none unnumbered]
  | cons _ _ hypothesis =>
    rw [orderedInsert_cons]
    split
    · rw [filterMap_cons_none unnumbered]
    · rw [filterMap_cons, hypothesis, filterMap_cons]

theorem filterMap_orderedInsert_some [IsTrans Item relation] {index : Nat}
    (numbered : number item = some index) (sorted : list.Pairwise relation)
    (keys : ∀ other ∈ list, ∀ otherIndex, number other = some otherIndex →
      (relation item other ↔ key index ≤ key otherIndex)) :
    (list.orderedInsert relation item).filterMap number =
      (list.filterMap number).orderedInsert (fun left right => key left ≤ key right) index := by
  induction list with
  | nil => rw [orderedInsert_nil, filterMap_cons_some numbered, filterMap_nil, orderedInsert_nil]
  | cons first rest hypothesis =>
    obtain ⟨firstRelated, restSorted⟩ := pairwise_cons.mp sorted
    by_cases stops : relation item first
    · rw [orderedInsert_cons, if_pos stops, filterMap_cons_some numbered]
      cases found : (first :: rest).filterMap number with
      | nil => rw [orderedInsert_nil]
      | cons otherIndex =>
        have member : otherIndex ∈ (first :: rest).filterMap number := by
          rw [found]
          exact mem_cons_self
        obtain ⟨other, inside, same⟩ := mem_filterMap.mp member
        have reaches : relation item other := by
          rcases mem_cons.mp inside with rfl | later
          · exact stops
          · exact Trans.trans stops (firstRelated other later)
        rw [orderedInsert_cons, if_pos ((keys other inside otherIndex same).mp reaches)]
    · rw [orderedInsert_cons, if_neg stops]
      have continued := hypothesis restSorted fun other inside =>
        keys other (mem_cons_of_mem _ inside)
      cases firstNumber : number first with
      | none => rw [filterMap_cons_none firstNumber, filterMap_cons_none firstNumber, continued]
      | some firstIndex =>
        have passes := (keys first mem_cons_self firstIndex firstNumber).not.mp stops
        rw [filterMap_cons_some firstNumber, filterMap_cons_some firstNumber,
          continued, orderedInsert_cons, if_neg passes]

theorem filterMap_foldl_orderedInsert [IsTrans Item relation] [Std.Total relation]
    {added : List Item} (sorted : list.Pairwise relation)
    (keys : ∀ first ∈ added, ∀ second ∈ added ++ list, ∀ firstIndex secondIndex,
      number first = some firstIndex → number second = some secondIndex →
        (relation first second ↔ key firstIndex ≤ key secondIndex)) :
    (added.foldl (fun list item => list.orderedInsert relation item) list).filterMap number =
      (added.filterMap number).foldl (fun list item =>
        list.orderedInsert (fun left right => key left ≤ key right) item)
        (list.filterMap number) := by
  induction added generalizing list with
  | nil => rfl
  | cons first _ hypothesis =>
    rw [foldl_cons]
    have continued := hypothesis (sorted.orderedInsert first list) fun one inRest two
        inside => by
      refine keys one (mem_cons_of_mem _ inRest) two ?_
      rcases mem_append.mp inside with later | inserted
      · exact mem_append_left _ (mem_cons_of_mem _ later)
      · rcases (mem_orderedInsert _).mp inserted with rfl | old
        · exact mem_append_left _ mem_cons_self
        · exact mem_append_right _ old
    rw [continued]
    cases firstNumber : number first with
    | none =>
      rw [filterMap_orderedInsert_none firstNumber, filterMap_cons_none firstNumber]
    | some index =>
      have inserted := filterMap_orderedInsert_some firstNumber sorted
        fun other inside otherIndex otherNumber =>
          keys first mem_cons_self other (mem_append_right _ inside) index otherIndex
            firstNumber otherNumber
      rw [filterMap_cons_some firstNumber, foldl_cons, inserted]

end Numbered

end Gem5.Library
