/-
This file is the library of linked lists with iterators. A node keeps the
iterator it was given when it was inserted, whatever is inserted or erased around
it; an iterator is never given out twice. A user who stores for every value the
iterator of its node finds the node again as long as the value is listed.
-/

import Mathlib.Data.List.Perm.Basic

namespace Gem5.Library

open List

structure NodeList (Value : Type) where
  nodes : List (Nat × Value)
  fresh : Nat
  distinct : (nodes.map Prod.fst).Nodup
  below : ∀ node ∈ nodes, node.1 < fresh

namespace NodeList

variable {Value : Type}

def empty : NodeList Value := ⟨[], 0, .nil, by simp⟩

def values (list : NodeList Value) : List Value := list.nodes.map Prod.snd

def get? (list : NodeList Value) (iterator : Nat) : Option Value :=
  (list.nodes.find? fun node => node.1 == iterator).map Prod.snd

/-- A new node is inserted before the node at the position, or at the end. Its iterator is the
fresh one. -/
def insert (list : NodeList Value) (position : Nat) (value : Value) : NodeList Value where
  nodes := list.nodes.take position ++ (list.fresh, value) :: list.nodes.drop position
  fresh := list.fresh + 1
  distinct := by
    have perm : ((list.nodes.take position ++ (list.fresh, value) :: list.nodes.drop position).map
        Prod.fst).Perm (list.fresh :: list.nodes.map Prod.fst) := by
      refine (perm_middle.map Prod.fst).trans ?_
      rw [take_append_drop, map_cons]
    refine perm.nodup_iff.mpr (nodup_cons.mpr ⟨fun member => ?_, list.distinct⟩)
    obtain ⟨node, inside, same⟩ := mem_map.mp member
    exact absurd same (Nat.ne_of_lt (list.below node inside))
  below := by
    intro node member
    rcases mem_append.mp member with early | member
    · exact Nat.lt_succ_of_lt (list.below node (mem_of_mem_take early))
    · rcases mem_cons.mp member with rfl | late
      · exact Nat.lt_succ_self _
      · exact Nat.lt_succ_of_lt (list.below node (mem_of_mem_drop late))

def erase (list : NodeList Value) (iterator : Nat) : Option (NodeList Value) :=
  if list.nodes.any fun node => node.1 == iterator then
    some
      { nodes := list.nodes.filter fun node => node.1 != iterator
        fresh := list.fresh
        distinct := list.distinct.sublist (filter_sublist.map Prod.fst)
        below := fun node member => list.below node (mem_filter.mp member).1 }
  else none

variable {list : NodeList Value} {iterator other : Value → Nat} {value : Value}

structure Tracks (list : NodeList Value) (iterator : Value → Nat) : Prop where
  nodup : list.values.Nodup
  stored : ∀ value ∈ list.values, (iterator value, value) ∈ list.nodes

theorem tracks_empty : (empty : NodeList Value).Tracks iterator :=
  ⟨.nil, fun value member => by cases member⟩

theorem insert_perm (list : NodeList Value) (position : Nat) (value : Value) :
    (list.insert position value).values.Perm (value :: list.values) := by
  refine (perm_middle.map Prod.snd).trans ?_
  rw [take_append_drop]
  exact List.Perm.refl _

section

variable (tracks : list.Tracks iterator)
include tracks

theorem Tracks.congr (same : ∀ value ∈ list.values, other value = iterator value) :
    list.Tracks other :=
  ⟨tracks.nodup, fun value member => same value member ▸ tracks.stored value member⟩

theorem Tracks.insert (position : Nat) (absent : value ∉ list.values)
    (stores : other value = list.fresh) (same : ∀ old ∈ list.values, other old = iterator old) :
    (list.insert position value).Tracks other := by
  have perm := list.insert_perm position value
  refine ⟨perm.nodup_iff.mpr (nodup_cons.mpr ⟨absent, tracks.nodup⟩), fun old member => ?_⟩
  rcases mem_cons.mp (perm.mem_iff.mp member) with rfl | listed
  · rw [stores]
    exact mem_append_right _ mem_cons_self
  · rw [same old listed]
    have stored := tracks.stored old listed
    rw [← take_append_drop position list.nodes] at stored
    rcases mem_append.mp stored with early | late
    · exact mem_append_left _ early
    · exact mem_append_right _ (mem_cons_of_mem _ late)

theorem Tracks.get?_eq (listed : value ∈ list.values) :
    list.get? (iterator value) = some value := by
  obtain ⟨before, _, split⟩ := append_of_mem (tracks.stored value listed)
  have distinct := list.distinct
  rw [split, map_append, map_cons, nodup_append] at distinct
  have skipped : before.find? (fun node => node.1 == iterator value) = none := by
    refine find?_eq_none.mpr fun node member same => ?_
    exact distinct.2.2 node.1 (mem_map_of_mem member) _ mem_cons_self
      (beq_iff_eq.mp same)
  rw [get?, split, find?_append, skipped]
  simp

theorem Tracks.erase (listed : value ∈ list.values) :
    ∃ next, list.erase (iterator value) = some next ∧ list.values.Perm (value :: next.values) ∧
      next.Tracks iterator := by
  have stored := tracks.stored value listed
  have present : (list.nodes.any fun node => node.1 == iterator value) = true :=
    any_eq_true.mpr ⟨_, stored, beq_self_eq_true _⟩
  have perm : list.nodes.Perm
      ((iterator value, value) :: list.nodes.filter fun node => node.1 != iterator value) := by
    obtain ⟨before, after, split⟩ := append_of_mem stored
    have distinct := list.distinct
    rw [split, map_append, map_cons, nodup_append, nodup_cons] at distinct
    have early : before.filter (fun node => node.1 != iterator value) = before := by
      refine filter_eq_self.mpr fun node member => bne_iff_ne.mpr ?_
      exact distinct.2.2 node.1 (mem_map_of_mem member) _ mem_cons_self
    have late : after.filter (fun node => node.1 != iterator value) = after := by
      refine filter_eq_self.mpr fun node member => bne_iff_ne.mpr fun same => ?_
      exact distinct.2.1.1 (mem_map.mpr ⟨node, member, same⟩)
    rw [split, filter_append, filter_cons_of_neg (by simp), early, late]
    exact perm_middle
  have valuesPerm := perm.map Prod.snd
  refine ⟨_, if_pos present, valuesPerm, ?_, fun old member => ?_⟩
  · exact (nodup_cons.mp (valuesPerm.nodup_iff.mp tracks.nodup)).2
  · have unlike : old ≠ value := by
      rintro rfl
      exact (nodup_cons.mp (valuesPerm.nodup_iff.mp tracks.nodup)).1 member
    have kept := perm.mem_iff.mp
      (tracks.stored old (valuesPerm.mem_iff.mpr (mem_cons_of_mem _ member)))
    rcases mem_cons.mp kept with same | kept
    · exact absurd (Prod.ext_iff.mp same).2 unlike
    · exact kept

end

end NodeList

end Gem5.Library
