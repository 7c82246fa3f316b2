/-
This file models the map from address ranges to values (`base/addr_range_map.hh`)
over an ordered map, with iterators as positions. It shows which ranges and
which addresses `find` gets right. `find` looks at the entry before the first
greater one, and back from there through an interleaved group, but never at the
first greater one itself unless the search stopped at the beginning.
-/

import Gem5.Base.AddrRange
import Gem5.Library.OrderedMap
import Gem5.Library.Run

namespace Gem5.Base

open Library OrderedMap AddrRange List

/-- The ranges in the order of the tree, with their values. -/
abbrev AddrRangeMap (Value : Type) := OrderedMap AddrRange Value AddrRange.less

namespace AddrRangeMap

variable {Value : Type}

/-- `i->first`. -/
def first (tree : AddrRangeMap Value) (i : Nat) : Except RangeFault AddrRange :=
  match tree.key? i with
  | some range => .ok range
  | none => .error .badIterator

/-- How the loop of `find` ends: it returns from `find`, or it stops at a position. -/
inductive Walk where
  | returns (i : Nat)
  | stops (i : Nat)

/-- The loop of `find`, back through the ranges that merge with the original one. -/
def walk (tree : AddrRangeMap Value) (r origRange : AddrRange) : Nat → Except RangeFault Walk
  | 0 => .ok (.stops 0)
  | i + 1 => do
    if (← tree.first (i + 1)).mergesWith origRange then
      if ← (← tree.first i).intersects r then return .returns i
      else tree.walk r origRange i
    else return .stops (i + 1)

def find (tree : AddrRangeMap Value) (r : AddrRange) : Except RangeFault Nat := do
  if tree.size = 0 then return tree.size
  else if tree.upperBound r = 0 then
    if ← (← tree.first 0).intersects r then return 0 else return tree.size
  else
    let i := tree.upperBound r - 1
    let range ← tree.first i
    if ← range.intersects r then return i
    else if range.interleaved then
      match ← tree.walk r range i with
      | .returns i => return i
      | .stops i => if ← (← tree.first i).intersects r then return i else return tree.size
    else return tree.size

/-- `find` of an address. -/
def findAddr (tree : AddrRangeMap Value) (r : Addr) : Except RangeFault Nat :=
  tree.find (.rangeSize r 1)

def intersect (tree : AddrRangeMap Value) (r : AddrRange) : Except RangeFault Bool := do
  return (← tree.find r) != tree.size

def insert (tree : AddrRangeMap Value) (r : AddrRange) (d : Value) :
    Except RangeFault (AddrRangeMap Value × Nat) := do
  if ← tree.intersect r then return (tree, tree.size)
  else return OrderedMap.insert tree r d

/-- The changes of a map by its users. -/
inductive Action (Value : Type) where
  | insert (r : AddrRange) (d : Value)
  | erase (p : Nat)
  | eraseRange (p q : Nat)
  | clear

/-- The map after a change. An iterator that does not point at an entry is an error. -/
def step (tree : AddrRangeMap Value) : Action Value → Except RangeFault (AddrRangeMap Value)
  | .insert r d => do return (← tree.insert r d).1
  | .erase p => if p < tree.size then .ok (tree.erase p) else .error .badIterator
  | .eraseRange p q =>
    if ordered : p ≤ q ∧ q ≤ tree.size then .ok (tree.eraseRange p q ordered.1)
    else .error .badIterator
  | .clear => .ok (tree.eraseRange 0 tree.size (Nat.zero_le _))

/-! ### Ranges that are not interleaved -/

section Plain

variable {tree : AddrRangeMap Value} {r : AddrRange}

/-- All ranges of the map are valid and not interleaved. -/
def Plain (tree : AddrRangeMap Value) : Prop := ∀ range ∈ tree.keys, range.Plain

/-- No two entries have an address in common. -/
def Apart (tree : AddrRangeMap Value) : Prop :=
  tree.keys.Pairwise fun range r => ¬ range.Shares r

/-- The range starts in a gap above an entry and reaches the entry after the gap: entries do not
sort after it, they end before it starts, and an entry that sorts after it starts inside it. -/
def Overlooks (tree : AddrRangeMap Value) (r : AddrRange) : Prop :=
  (∃ range ∈ tree.keys, ¬ r.less range) ∧
    (∀ range ∈ tree.keys, ¬ r.less range → range._end < r._start) ∧
    ∃ range ∈ tree.keys, r.less range ∧ range._start ≤ r._end
deriving Decidable

variable {range looked : AddrRange}

theorem first_eq {i : Nat} (here : tree.key? i = some range) : tree.first i = .ok range := by
  rw [first, here]

section

variable (plainTree : tree.Plain)
include plainTree

theorem find_plain (plain : r.Plain) (nonempty : tree.size ≠ 0) :
    ∃ range, tree.key? (tree.upperBound r - 1) = some range ∧
      (range.Shares r ∧ tree.find r = .ok (tree.upperBound r - 1) ∨
        ¬ range.Shares r ∧ tree.find r = .ok tree.size) := by
  have inside : tree.upperBound r - 1 < tree.size := by
    have := tree.upperBound_le_size r
    omega
  obtain ⟨range, here⟩ := exists_key? inside
  have rangePlain := plainTree range (mem_keys_iff.mpr ⟨_, here⟩)
  obtain ⟨answer, tested, right⟩ := rangePlain.intersects plain
  refine ⟨range, here, ?_⟩
  rw [← right, find, if_neg nonempty]
  by_cases begins : tree.upperBound r = 0
  · rw [begins] at here ⊢
    rw [if_pos rfl, first_eq here, ok_bind, tested, ok_bind]
    cases answer with
    | true => exact .inl ⟨rfl, rfl⟩
    | false => exact .inr ⟨nofun, rfl⟩
  · simp only [if_neg begins, first_eq here, ok_bind, tested, rangePlain.plain]
    cases answer with
    | true => exact .inl ⟨rfl, rfl⟩
    | false => exact .inr ⟨nofun, rfl⟩

theorem ends_before (apart : tree.Apart) (plain : r.Plain)
    (here : tree.key? (tree.upperBound r - 1) = some looked) (misses : ¬ looked.Shares r)
    (stored : range ∈ tree.keys) (before : ¬ r.less range) : range._end < r._start := by
  obtain ⟨position, found⟩ := mem_keys_iff.mp stored
  have below : position < tree.upperBound r := by
    refine not_le.mp fun above => before ?_
    exact less_of_upperBound_le above found
  have lookedPlain := plainTree looked (mem_keys_iff.mpr ⟨_, here⟩)
  have lookedBefore : looked._start ≤ r._start :=
    le_of_not_less (not_less_of_lt_upperBound (by omega) here)
  have ordered : r._start ≤ r._end := of_decide_eq_true plain.valid
  have lookedOrdered : looked._start ≤ looked._end := of_decide_eq_true lookedPlain.valid
  rw [lookedPlain.shares_iff plain] at misses
  rcases (Nat.le_sub_one_of_lt below).eq_or_lt with same | lower
  · rw [same, here] at found
    cases found
    bv_omega
  · have first := le_of_less (less_of_lt lower found here)
    have unshared := related_of_lt (fun range r : AddrRange => ¬ range.Shares r)
      apart lower found here
    rw [(plainTree range stored).shares_iff lookedPlain] at unshared
    bv_omega

/-- If `find` looks at the first entry because all sort after the range, and it has no address
of the range, no entry has. -/
theorem starts_after (plain : r.Plain) (begins : tree.upperBound r = 0)
    (here : tree.key? 0 = some looked) (misses : ¬ looked.Shares r) (stored : range ∈ tree.keys) :
    r._end < range._start := by
  obtain ⟨position, found⟩ := mem_keys_iff.mp stored
  have lookedPlain := plainTree looked (mem_keys_iff.mpr ⟨_, here⟩)
  have after := le_of_less
    (less_of_upperBound_le (le_of_eq begins) here)
  have lookedOrdered : looked._start ≤ looked._end := of_decide_eq_true lookedPlain.valid
  rw [lookedPlain.shares_iff plain] at misses
  rcases Nat.eq_zero_or_pos position with rfl | later
  · rw [here] at found
    cases found
    bv_omega
  · have first := le_of_less (less_of_lt later here found)
    bv_omega

/-- If the entry `find` looks at has no address of the range, the entries that have one are
overlooked. -/
theorem overlooks_iff (apart : tree.Apart) (plain : r.Plain)
    (here : tree.key? (tree.upperBound r - 1) = some looked) (misses : ¬ looked.Shares r) :
    tree.Overlooks r ↔ ∃ range ∈ tree.keys, range.Shares r := by
  constructor
  · rintro ⟨_, _, range, stored, after, reaches⟩
    have rangePlain := plainTree range stored
    have ordered : range._start ≤ range._end := of_decide_eq_true rangePlain.valid
    have later := le_of_less after
    exact ⟨range, stored, (rangePlain.shares_iff plain).mpr ⟨reaches, by bv_omega⟩⟩
  · rintro ⟨range, stored, shares⟩
    rw [(plainTree range stored).shares_iff plain] at shares
    by_cases begins : tree.upperBound r = 0
    · rw [begins] at here
      have after := starts_after plainTree plain begins here misses stored
      bv_omega
    · have ends (other : AddrRange) (otherStored : other ∈ tree.keys) (before : ¬ r.less other) :=
        ends_before plainTree apart plain here misses otherStored before
      have unpassed : ¬ r.less looked := not_less_of_lt_upperBound (by omega) here
      refine ⟨⟨looked, mem_keys_iff.mpr ⟨_, here⟩, unpassed⟩, ends, range, stored, ?_,
        shares.1⟩
      by_contra before
      have ended := ends range stored before
      bv_omega

theorem not_overlooks (plain : r.Plain) (here : tree.key? (tree.upperBound r - 1) = some looked)
    (shares : looked.Shares r) : ¬ tree.Overlooks r := by
  rintro ⟨⟨_, stored, before⟩, ends, _⟩
  by_cases begins : tree.upperBound r = 0
  · obtain ⟨_, found⟩ := mem_keys_iff.mp stored
    exact before (less_of_upperBound_le (by omega) found)
  · have lookedStored := mem_keys_iff.mpr ⟨_, here⟩
    have ended := ends looked lookedStored (not_less_of_lt_upperBound (by omega) here)
    rw [(plainTree looked lookedStored).shares_iff plain] at shares
    bv_omega

theorem find_cases (apart : tree.Apart) (plain : r.Plain) :
    ∃ i, tree.find r = .ok i ∧
      (i < tree.size ∧ (∃ range ∈ tree.keys, range.Shares r) ∧ ¬ tree.Overlooks r ∨
        i = tree.size ∧ (tree.Overlooks r ↔ ∃ range ∈ tree.keys, range.Shares r)) := by
  by_cases nonempty : tree.size = 0
  · have none (range : AddrRange) : range ∉ tree.keys := fun stored => by
      obtain ⟨_, found⟩ := mem_keys_iff.mp stored
      exact absurd (key?_lt_size found) (by omega)
    refine ⟨tree.size, by rw [find, if_pos nonempty]; rfl, .inr ⟨rfl, ?_⟩⟩
    simp [none, Overlooks]
  · obtain ⟨looked, here, ⟨shares, found⟩ | ⟨misses, found⟩⟩ := find_plain plainTree plain nonempty
    · exact ⟨_, found, .inl ⟨key?_lt_size here,
        ⟨looked, mem_keys_iff.mpr ⟨_, here⟩, shares⟩,
        not_overlooks plainTree plain here shares⟩⟩
    · exact ⟨_, found, .inr ⟨rfl, overlooks_iff plainTree apart plain here misses⟩⟩

end

theorem insert_eq {i : Nat} (found : tree.find r = .ok i) (d : Value) :
    tree.insert r d =
      .ok (if i = tree.size then OrderedMap.insert tree r d else (tree, tree.size)) := by
  rw [insert, intersect, found]
  by_cases none : i = tree.size
  · rw [if_pos none, none]
    simp only [ok_bind, bne_self_eq_false]
    rfl
  · rw [if_neg none]
    simp only [ok_bind, bne_iff_ne.mpr none]
    rfl

theorem insert_perm (plainTree : tree.Plain)
    (ends : ∀ range ∈ tree.keys, ¬ r.less range → range._end < r._start) (d : Value) :
    (OrderedMap.insert tree r d).1.keys.Perm (r :: tree.keys) := by
  refine List.Perm.map Prod.fst (insertEntry_perm fun entry inside => ?_)
  by_cases after : r.less entry.1
  · exact .inr after
  · have stored : entry.1 ∈ tree.keys := mem_map_of_mem inside
    have ordered : entry.1._start ≤ entry.1._end := of_decide_eq_true (plainTree _ stored).valid
    have ended := ends _ stored after
    exact .inl (less_iff.mpr (.inl (by bv_omega)))

/-- An insertion refuses the ranges it should, and keeps the entries apart, unless it overlooks
an entry. -/
theorem insert_cases (plainTree : tree.Plain) (apart : tree.Apart) (plain : r.Plain) (d : Value) :
    ∃ next i, tree.insert r d = .ok (next, i) ∧ next.Plain ∧
      ((i = next.size ↔ ∃ range ∈ tree.keys, range.Shares r) ↔ ¬ tree.Overlooks r) ∧
      (next.Apart ↔ ¬ tree.Overlooks r) := by
  obtain ⟨_, found, ⟨below, shares, seen⟩ | ⟨rfl, overlooks⟩⟩ := find_cases plainTree apart plain
  · refine ⟨tree, tree.size, ?_, plainTree, ?_, ?_⟩
    · rw [insert_eq found, if_neg below.ne]
    · simp only [seen, shares, not_false_eq_true]
    · simp only [seen, apart, not_false_eq_true]
  · have ends (range : AddrRange) (stored : range ∈ tree.keys) (before : ¬ r.less range) :
        range._end < r._start := by
      by_cases overlooked : tree.Overlooks r
      · exact overlooked.2.1 range stored before
      · have unshared : ¬ range.Shares r := fun shares =>
          overlooked (overlooks.mpr ⟨range, stored, shares⟩)
        have ordered : r._start ≤ r._end := of_decide_eq_true plain.valid
        have first := le_of_not_less before
        rw [(plainTree range stored).shares_iff plain] at unshared
        bv_omega
    have perm := insert_perm plainTree ends d
    refine ⟨(OrderedMap.insert tree r d).1, (OrderedMap.insert tree r d).2, ?_, ?_, ?_, ?_⟩
    · rw [insert_eq found, if_pos rfl]
    · intro range stored
      rcases mem_cons.mp (perm.mem_iff.mp stored) with rfl | old
      · exact plain
      · exact plainTree range old
    · have placed : (OrderedMap.insert tree r d).2 ≠ (OrderedMap.insert tree r d).1.size :=
        insertEntry_lt_length.ne
      simp only [placed, false_iff, overlooks]
    · have symmetric {range other : AddrRange} (unshared : ¬ range.Shares other) :
          ¬ other.Shares range := fun shares => unshared shares.symm
      rw [Apart, perm.pairwise_iff symmetric, pairwise_cons, overlooks]
      constructor
      · rintro ⟨unshared, _⟩ ⟨range, stored, shares⟩
        exact unshared range stored shares.symm
      · intro none
        exact ⟨fun range stored shares => none ⟨range, stored, shares.symm⟩, apart⟩

/-- The inserted ranges are valid and not interleaved, and overlook no entry. -/
def Meets (tree : AddrRangeMap Value) : Action Value → Prop
  | .insert r _ => r.Plain ∧ ¬ tree.Overlooks r
  | _ => True

instance (tree : AddrRangeMap Value) (action : Action Value) : Decidable (tree.Meets action) :=
  match action with
  | .insert .. => inferInstanceAs (Decidable (_ ∧ _))
  | .erase _ | .eraseRange .. | .clear => .isTrue trivial

theorem Plain.step {next : AddrRangeMap Value} {action : Action Value}
    (holds : tree.Plain ∧ tree.Apart) (meets : tree.Meets action)
    (taken : tree.step action = .ok next) : next.Plain ∧ next.Apart := by
  obtain ⟨plainTree, apart⟩ := holds
  have shrink {rest : AddrRangeMap Value} (part : rest.entries.Sublist tree.entries) :
      rest.Plain ∧ rest.Apart :=
    ⟨fun range stored => plainTree range ((part.map Prod.fst).subset stored),
      apart.sublist (part.map Prod.fst)⟩
  cases action with
  | insert _ d =>
    obtain ⟨plain, seen⟩ := meets
    obtain ⟨_, _, inserted, afterPlain, _, afterApart⟩ := insert_cases plainTree apart plain d
    rw [AddrRangeMap.step, inserted] at taken
    cases taken
    exact ⟨afterPlain, afterApart.mpr seen⟩
  | erase =>
    rw [AddrRangeMap.step] at taken
    split at taken
    · cases taken
      exact shrink (eraseIdx_sublist ..)
    · cases taken
  | eraseRange =>
    rw [AddrRangeMap.step] at taken
    split at taken
    · rename_i ordered
      cases taken
      exact shrink (sublist_eraseRange ordered.1 _)
    · cases taken
  | clear =>
    cases taken
    exact shrink (sublist_eraseRange (Nat.zero_le _) _)

/-- After every sequence of insertions and removals in which the insertions overlook no entry,
the entries are apart, and the next `find` and the next insertion of a valid range that is not
interleaved do what they should, and leave the entries apart, exactly if they overlook none. -/
theorem insert_find_right_iff (actions : List (Action Value)) (tree : AddrRangeMap Value)
    (run : Run step Meets OrderedMap.empty actions tree) :
    tree.Apart ∧ ∀ r : AddrRange, r.Plain →
      (∃ i, tree.find r = .ok i ∧
        ((i = tree.size ↔ ∀ range ∈ tree.keys, ¬ range.Shares r) ↔ ¬ tree.Overlooks r)) ∧
      ∀ d, ∃ next i, tree.insert r d = .ok (next, i) ∧
        ((i = next.size ↔ ∃ range ∈ tree.keys, range.Shares r) ↔ ¬ tree.Overlooks r) ∧
        (next.Apart ↔ ¬ tree.Overlooks r) := by
  obtain ⟨plainTree, apart⟩ := run.invariant (fun tree => tree.Plain ∧ tree.Apart)
    Plain.step ⟨nofun, .nil⟩
  refine ⟨apart, fun r plain => ⟨?_, fun d => ?_⟩⟩
  · obtain ⟨i, found, ⟨below, shares, seen⟩ | ⟨rfl, overlooks⟩⟩ := find_cases plainTree apart plain
    · obtain ⟨range, stored, shared⟩ := shares
      refine ⟨i, found, ?_⟩
      simp only [below.ne, false_iff, seen, not_false_eq_true, iff_true]
      exact fun none => none range stored shared
    · refine ⟨_, found, ?_⟩
      simp [overlooks]
  · obtain ⟨next, i, inserted, _, refused, stays⟩ := insert_cases plainTree apart plain d
    exact ⟨next, i, inserted, refused, stays⟩

/-- Two entries with a gap between them, and a range inside the first. -/
theorem insert_find_right_iff_two : ∃ tree : AddrRangeMap Nat,
    Run step Meets OrderedMap.empty
      [.insert (.create 10 40) 5, .insert (.create 60 90) 3] tree ∧
    tree.Apart ∧ ∃ i, tree.find (.create 20 30) = .ok i ∧
      (i = tree.size ↔ ∀ range ∈ tree.keys, ¬ range.Shares (.create 20 30)) := by
  refine Run.exists_and rfl fun run => ?_
  obtain ⟨apart, right⟩ := insert_find_right_iff _ _ run
  obtain ⟨i, found, finds⟩ := (right (.create 20 30) (by decide)).1
  exact ⟨apart, i, found, finds.mpr (by decide)⟩

/-- A range that starts in the gap and reaches the second entry is not found, and it is
inserted. -/
theorem insert_overlooks_successor : ∃ tree next : AddrRangeMap Nat, ∃ i,
    [.insert (.create 10 40) 5, .insert (.create 60 90) 3].foldlM step OrderedMap.empty = .ok tree ∧
    (∃ range ∈ tree.keys, range.Shares (.create 45 65)) ∧
    tree.find (.create 45 65) = .ok tree.size ∧
    tree.insert (.create 45 65) 7 = .ok (next, i) ∧ i ≠ next.size ∧ ¬ next.Apart := by
  refine ⟨_, _, _, rfl, ⟨.create 60 90, by decide, 60, by decide, by decide⟩, by decide, rfl,
    by decide, fun apart => ?_⟩
  have shares : (AddrRange.create 45 65).Shares (.create 60 90) := ⟨60, by decide, by decide⟩
  exact related_of_lt (fun range r : AddrRange => ¬ range.Shares r) apart
    (Nat.lt_succ_self 1) rfl rfl shares

end Plain

end AddrRangeMap

end Gem5.Base
