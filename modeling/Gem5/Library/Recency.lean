/-
This file is the library of caches that evict what was used least recently. A
cache of any capacity holds the lines at the head of one list, the lines in the
order of their last use; so one list answers for the caches of all capacities.
-/

import Mathlib.Data.List.Dedup
import Mathlib.Data.List.Induction

namespace Gem5.Library

open List

variable {Line : Type} [DecidableEq Line]

/-- A fully associative cache: the lines it holds, the one used last in front, and how often it
hit and missed. -/
structure LruCache (Line : Type) where
  held : List Line
  hits : Nat
  misses : Nat

namespace LruCache

def empty : LruCache Line := ⟨[], 0, 0⟩

/-- A reference moves the line to the front or brings it in, and the line used least recently is
evicted if there is no room. -/
def access (capacity : Nat) (cache : LruCache Line) (line : Line) : LruCache Line :=
  if line ∈ cache.held then
    { cache with held := line :: cache.held.erase line, hits := cache.hits + 1 }
  else
    { cache with held := (line :: cache.held).take capacity, misses := cache.misses + 1 }

def run (capacity : Nat) (references : List Line) : LruCache Line :=
  references.foldl (access capacity) empty

end LruCache

/-- The line becomes the one used last. -/
def touch (recent : List Line) (line : Line) : List Line := line :: recent.erase line

/-- The lines in the order of their last use. -/
def recency (references : List Line) : List Line := references.foldl touch []

theorem recency_append (references : List Line) (line : Line) :
    recency (references ++ [line]) = touch (recency references) line := by
  rw [recency, foldl_append]
  rfl

theorem touch_nodup {recent : List Line} (distinct : recent.Nodup) (line : Line) :
    (touch recent line).Nodup :=
  nodup_cons.mpr ⟨distinct.not_mem_erase, distinct.erase line⟩

theorem recency_nodup (references : List Line) : (recency references).Nodup := by
  induction references using reverseRecOn with
  | nil => exact .nil
  | append_singleton _ line hypothesis =>
    rw [recency_append]
    exact touch_nodup hypothesis line

theorem take_touch (recent : List Line) (line : Line) (capacity : Nat) :
    (touch recent line).take (capacity + 1) =
      if line ∈ recent.take (capacity + 1) then line :: (recent.take (capacity + 1)).erase line
      else (line :: recent.take (capacity + 1)).take (capacity + 1) := by
  have split : recent.erase line =
      (recent.take (capacity + 1) ++ recent.drop (capacity + 1)).erase line := by
    rw [take_append_drop]
  rw [touch, take_succ_cons, split]
  by_cases inside : line ∈ recent.take (capacity + 1)
  · rw [if_pos inside, erase_append_left _ inside]
    have length := length_erase_of_mem inside
    rw [length_take] at length
    congr 1
    by_cases full : capacity + 1 ≤ recent.length
    · exact take_left' (by omega)
    · rw [drop_eq_nil_of_le (by omega), append_nil]
      exact take_of_length_le (by omega)
  · rw [if_neg inside, erase_append_right _ inside, take_succ_cons, take_take]
    congr 1
    by_cases full : capacity + 1 ≤ recent.length
    · rw [take_append_of_le_length (by rw [length_take]; omega), take_take]
    · rw [drop_eq_nil_of_le (by omega), erase_nil, append_nil, take_take]

theorem LruCache.run_held (references : List Line) (capacity : Nat) :
    (run (capacity + 1) references).held = (recency references).take (capacity + 1) := by
  induction references using reverseRecOn with
  | nil => rfl
  | append_singleton references line hypothesis =>
    rw [recency_append, take_touch, ← hypothesis, run, foldl_append]
    show (access (capacity + 1) (run (capacity + 1) references) line).held = _
    rw [access]
    split
    · rfl
    · rfl

theorem LruCache.run_append (references : List Line) (line : Line) (capacity : Nat) :
    (run (capacity + 1) (references ++ [line])).hits =
        (run (capacity + 1) references).hits +
          (if line ∈ (recency references).take (capacity + 1) then 1 else 0) ∧
      (run (capacity + 1) (references ++ [line])).misses =
        (run (capacity + 1) references).misses +
          (if line ∈ (recency references).take (capacity + 1) then 0 else 1) := by
  rw [← run_held, run, foldl_append]
  show (access (capacity + 1) (run (capacity + 1) references) line).hits = _ ∧
    (access (capacity + 1) (run (capacity + 1) references) line).misses = _
  rw [access]
  split
  · exact ⟨rfl, rfl⟩
  · exact ⟨rfl, rfl⟩

theorem mem_recency (references : List Line) (line : Line) :
    line ∈ recency references ↔ line ∈ references := by
  induction references using reverseRecOn with
  | nil => rfl
  | append_singleton _ _ hypothesis =>
    rw [recency_append, touch, mem_cons, (recency_nodup _).mem_erase_iff, hypothesis,
      mem_append, mem_singleton]
    tauto

theorem mem_takeWhile_touch {recent : List Line} (distinct : recent.Nodup) {line other : Line}
    (apart : other ≠ line) (third : Line) :
    third ∈ (touch recent other).takeWhile (· ≠ line) ↔
      third = other ∨ third ∈ recent.takeWhile (· ≠ line) := by
  rw [touch, takeWhile_cons_of_pos (by simpa using apart), mem_cons]
  induction recent with
  | nil => rfl
  | cons first _ hypothesis =>
    obtain ⟨_, distinct⟩ := nodup_cons.mp distinct
    by_cases same : first = other
    · subst same
      rw [erase_cons_head, takeWhile_cons_of_pos (by simpa using apart), mem_cons,
        ← or_assoc, or_self]
    · rw [erase_cons_tail (by simpa using same), takeWhile_cons, takeWhile_cons]
      split
      · rw [mem_cons, mem_cons, or_left_comm, hypothesis distinct, or_left_comm]
      · rfl

/-- The lines in front of a line are those used after it; the references are from the last to the
first. -/
theorem mem_takeWhile_recency (references : List Line) (line other : Line) :
    other ∈ (recency references.reverse).takeWhile (· ≠ line) ↔
      other ∈ references.takeWhile (· ≠ line) := by
  induction references with
  | nil => rfl
  | cons last _ hypothesis =>
    rw [reverse_cons, recency_append]
    by_cases same : last = line
    · rw [touch, takeWhile_cons_of_neg (by simp [same]),
        takeWhile_cons_of_neg (by simp [same])]
    · rw [mem_takeWhile_touch (recency_nodup _) same, hypothesis,
        takeWhile_cons_of_pos (by simpa using same), mem_cons]

/-- The place of a line is the number of lines that were used after it. -/
theorem idxOf_recency (references : List Line) (line : Line) :
    (recency references.reverse).idxOf line = (references.takeWhile (· ≠ line)).dedup.length := by
  have length (recent : List Line) : recent.idxOf line = (recent.takeWhile (· ≠ line)).length := by
    induction recent with
    | nil => rfl
    | cons first _ hypothesis =>
      by_cases same : first = line
      · simp [same]
      · simp [same, hypothesis]
  rw [length]
  refine Perm.length_eq ((perm_ext_iff_of_nodup ?_ (nodup_dedup _)).mpr ?_)
  · exact (recency_nodup _).sublist (takeWhile_sublist _)
  · intro other
    rw [mem_takeWhile_recency, mem_dedup]

end Gem5.Library
