/-
This file is the library of ordered maps with iterators. A map is the list of
its entries, sorted by a strict order on the keys that need not tell all keys
apart; an iterator is a position in the list, and the position after the last
entry is past the end. The file gives the search for the first greater key,
the insertion that keeps an equivalent entry, and the removals.
-/

import Mathlib.Data.List.Basic

namespace Gem5.Library

open List

structure OrderedMap (Key Value : Type) (less : Key → Key → Prop) where
  entries : List (Key × Value)
  sorted : entries.Pairwise fun first second => less first.1 second.1

namespace OrderedMap

variable {Key Value : Type} {less : Key → Key → Prop}

def empty : OrderedMap Key Value less := ⟨[], .nil⟩

/-- The number of entries, which is also the position past the end. -/
def size (map : OrderedMap Key Value less) : Nat := map.entries.length

def keys (map : OrderedMap Key Value less) : List Key := map.entries.map Prod.fst

/-- The key the iterator points at. -/
def key? (map : OrderedMap Key Value less) (position : Nat) : Option Key := map.keys[position]?

/-- The entry is removed. -/
def erase (map : OrderedMap Key Value less) (position : Nat) : OrderedMap Key Value less :=
  ⟨map.entries.eraseIdx position, map.sorted.sublist (eraseIdx_sublist ..)⟩

theorem sublist_eraseRange {first last : Nat} (ordered : first ≤ last) (list : List (Key × Value)) :
    (list.take first ++ list.drop last).Sublist list := by
  have rest : (list.drop last).Sublist (list.drop first) := drop_sublist_drop_left list ordered
  have whole := rest.append_left (list.take first)
  rwa [take_append_drop] at whole

/-- The entries from one position up to another are removed. -/
def eraseRange (map : OrderedMap Key Value less) (first last : Nat) (ordered : first ≤ last) :
    OrderedMap Key Value less :=
  ⟨map.entries.take first ++ map.entries.drop last,
    map.sorted.sublist (sublist_eraseRange ordered _)⟩

def lookup [DecidableEq Key] (map : OrderedMap Key Value less) (key : Key) : Option Value :=
  (map.entries.find? fun entry => entry.1 == key).map Prod.snd

def remove [DecidableEq Key] (map : OrderedMap Key Value less) (key : Key) :
    OrderedMap Key Value less :=
  ⟨map.entries.filter fun entry => entry.1 != key, map.sorted.sublist filter_sublist⟩

variable {map : OrderedMap Key Value less}

theorem mem_of_lookup [DecidableEq Key] {key : Key}
    {value : Value} (found : map.lookup key = some value) : (key, value) ∈ map.entries := by
  obtain ⟨_, here, rfl⟩ := Option.map_eq_some_iff.mp found
  have same := find?_some here
  rw [beq_iff_eq] at same
  rw [← same]
  exact mem_of_find?_eq_some here

theorem mem_keys_iff {key : Key} :
    key ∈ map.keys ↔ ∃ position, map.key? position = some key := mem_iff_getElem?

theorem key?_lt_size {position : Nat} {key : Key} (found : map.key? position = some key) :
    position < map.size := by
  have inside := (List.getElem?_eq_some_iff.mp found).1
  rwa [keys, length_map] at inside

theorem exists_key? {position : Nat} (inside : position < map.size) :
    ∃ key, map.key? position = some key := by
  refine ⟨_, getElem?_eq_getElem ?_⟩
  rwa [keys, length_map]

theorem related_of_lt (relation : Key → Key → Prop) (related : map.keys.Pairwise relation)
    {left right : Nat} {first second : Key} (lower : left < right)
    (leftKey : map.key? left = some first) (rightKey : map.key? right = some second) :
    relation first second := by
  obtain ⟨leftInside, rfl⟩ := List.getElem?_eq_some_iff.mp leftKey
  obtain ⟨rightInside, rfl⟩ := List.getElem?_eq_some_iff.mp rightKey
  exact pairwise_iff_getElem.mp related left right leftInside rightInside lower

theorem less_of_lt {left right : Nat} {first second : Key} (lower : left < right)
    (leftKey : map.key? left = some first) (rightKey : map.key? right = some second) :
    less first second :=
  related_of_lt less (pairwise_map.mpr map.sorted) lower leftKey rightKey

section Search

variable [DecidableRel less]

/-- The position of the first entry with a greater key. -/
def upperBound (map : OrderedMap Key Value less) (key : Key) : Nat :=
  map.keys.findIdx fun other => less key other

theorem upperBound_le_size (map : OrderedMap Key Value less) (key : Key) :
    map.upperBound key ≤ map.size :=
  Nat.le_trans findIdx_le_length (Nat.le_of_eq (length_map ..))

theorem not_less_of_lt_upperBound {map : OrderedMap Key Value less} {key other : Key}
    {position : Nat} (below : position < map.upperBound key)
    (here : map.key? position = some other) : ¬ less key other := by
  obtain ⟨_, rfl⟩ := List.getElem?_eq_some_iff.mp here
  simpa using not_of_lt_findIdx below

theorem less_of_upperBound_le [IsTrans Key less] {map : OrderedMap Key Value less}
    {key other : Key} {position : Nat} (above : map.upperBound key ≤ position)
    (here : map.key? position = some other) : less key other := by
  obtain ⟨inside, _⟩ := List.getElem?_eq_some_iff.mp here
  have reached : map.upperBound key < map.keys.length := Nat.lt_of_le_of_lt above inside
  have stops : less key map.keys[map.upperBound key] :=
    of_decide_eq_true (findIdx_getElem (w := reached))
  have bound : map.key? (map.upperBound key) = some map.keys[map.upperBound key] :=
    getElem?_eq_getElem reached
  rcases Nat.eq_or_lt_of_le above with same | later
  · rw [← same, bound] at here
    cases here
    exact stops
  · exact Trans.trans stops (less_of_lt later bound here)

variable (less) in
/-- The entries with the new one, and its position. An equivalent entry is kept instead. -/
def insertEntry (key : Key) (value : Value) : List (Key × Value) → List (Key × Value) × Nat
  | [] => ([(key, value)], 0)
  | entry :: rest =>
    if less entry.1 key then
      let (inserted, position) := insertEntry key value rest
      (entry :: inserted, position + 1)
    else if less key entry.1 then ((key, value) :: entry :: rest, 0)
    else (entry :: rest, 0)

section Insertion

variable {key : Key} {value : Value} {list : List (Key × Value)}

theorem mem_insertEntry {entry : Key × Value}
    (inside : entry ∈ (insertEntry less key value list).1) :
    entry = (key, value) ∨ entry ∈ list := by
  induction list with
  | nil => exact mem_cons.mp inside
  | cons _ _ hypothesis =>
    unfold insertEntry at inside
    split at inside
    · rcases mem_cons.mp inside with same | later
      · exact .inr (mem_cons.mpr (.inl same))
      · exact (hypothesis later).imp_right (mem_cons_of_mem _)
    · split at inside
      · exact mem_cons.mp inside
      · exact .inr inside

theorem insertEntry_sorted [IsTrans Key less]
    (sorted : list.Pairwise fun first second => less first.1 second.1) :
    (insertEntry less key value list).1.Pairwise fun first second => less first.1 second.1 := by
  induction list with
  | nil => exact pairwise_singleton _ _
  | cons _ _ hypothesis =>
    obtain ⟨before, restSorted⟩ := pairwise_cons.mp sorted
    unfold insertEntry
    split
    · rename_i passes
      refine pairwise_cons.mpr ⟨fun entry inside => ?_, hypothesis restSorted⟩
      rcases mem_insertEntry inside with rfl | old
      · exact passes
      · exact before entry old
    · split
      · rename_i stops
        refine pairwise_cons.mpr ⟨fun entry inside => ?_, sorted⟩
        rcases mem_cons.mp inside with rfl | later
        · exact stops
        · exact Trans.trans stops (before entry later)
      · exact sorted

theorem insertEntry_perm (apart : ∀ entry ∈ list, less entry.1 key ∨ less key entry.1) :
    (insertEntry less key value list).1.Perm ((key, value) :: list) := by
  induction list with
  | nil => exact .refl _
  | cons first _ hypothesis =>
    have continued := hypothesis fun entry inside =>
      apart entry (mem_cons_of_mem _ inside)
    unfold insertEntry
    split
    · exact (continued.cons first).trans (.swap ..)
    · rename_i stays
      rw [if_pos ((apart first mem_cons_self).resolve_left stays)]

/-- A key that is greater than all others is added at the end. -/
theorem insertEntry_greatest (greatest : ∀ entry ∈ list, less entry.1 key) :
    (insertEntry less key value list).1 = list ++ [(key, value)] := by
  induction list with
  | nil => rfl
  | cons first _ hypothesis =>
    have continued := hypothesis fun entry inside =>
      greatest entry (mem_cons_of_mem _ inside)
    rw [insertEntry, if_pos (greatest first mem_cons_self)]
    exact congrArg (cons first) continued

theorem insertEntry_lt_length :
    (insertEntry less key value list).2 < (insertEntry less key value list).1.length := by
  induction list with
  | nil => exact Nat.zero_lt_one
  | cons _ _ hypothesis =>
    unfold insertEntry
    split
    · exact Nat.succ_lt_succ hypothesis
    · split
      · exact Nat.succ_pos _
      · exact Nat.succ_pos _

end Insertion

/-- The map with the new entry, and its position. An equivalent entry is kept instead. -/
def insert [IsTrans Key less] (map : OrderedMap Key Value less) (key : Key) (value : Value) :
    OrderedMap Key Value less × Nat :=
  (⟨(insertEntry less key value map.entries).1, insertEntry_sorted map.sorted⟩,
    (insertEntry less key value map.entries).2)

end Search

end OrderedMap

end Gem5.Library
