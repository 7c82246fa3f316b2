/-
This file models the walk over a chain of descriptors of a virtual device queue. The guest
writes the descriptor table; a descriptor may name the next one of its chain. The walk updates
each descriptor from the table, follows it, and stops when it is back at the head of the chain.

The next descriptor is a function of the current one, so that a chain ends, comes back to its
head, or runs into a cycle that the head is not on. The file proves that the walk settles
exactly when the chain does not do the last: it then ends with every descriptor of the chain
updated, or it reports the loop.
-/

import Mathlib.Data.Fintype.Option
import Mathlib.Data.Fintype.Pigeonhole

namespace Gem5.Dev

open Function

/-- A descriptor of a table with a number of entries, as the guest writes it. -/
structure VringDesc (size : Nat) where
  addr : Nat
  len : Nat
  flags : Nat
  next : Fin size
deriving DecidableEq, Repr

def VringDesc.hasNext {size : Nat} (desc : VringDesc size) : Bool :=
  desc.flags &&& 1 ≠ 0

/-- A queue, with the descriptors as they were last read and the table of the guest. -/
structure VirtQueue (size : Nat) where
  address : Nat
  descriptors : Fin size → VringDesc size
  guest : Fin size → VringDesc size

section Chain

variable {size : Nat}

namespace VirtQueue

/-- A queue without an address has not been set up by the guest. -/
def update (index : Fin size) (queue : VirtQueue size) : VirtQueue size :=
  if queue.address = 0 then queue
  else { queue with descriptors := Function.update queue.descriptors index (queue.guest index) }

def next (index : Fin size) (queue : VirtQueue size) : Option (Fin size) :=
  if (queue.descriptors index).hasNext then some (queue.descriptors index).next else none

/-- How the update of a chain comes out. -/
inductive Outcome (size : Nat) where
  | updated (queue : VirtQueue size)
  | loopPanic

/-- The loop of the update, with at most as many rounds as the first argument. -/
def updateLoop (head : Fin size) : Nat → Fin size → VirtQueue size → Option (Outcome size)
  | 0, _, _ => none
  | fuel + 1, current, queue =>
    let queue := queue.update current
    match queue.next current with
    | none => some (.updated queue)
    | some following =>
      if following = head then some .loopPanic else updateLoop head fuel following queue

def updateChain (head : Fin size) (fuel : Nat) (queue : VirtQueue size) : Option (Outcome size) :=
  queue.updateLoop head fuel head

/-! ### Chains -/

/-- What an update reads a descriptor from. -/
def table (queue : VirtQueue size) (index : Fin size) : VringDesc size :=
  if queue.address = 0 then queue.descriptors index else queue.guest index

/-- The descriptor that a descriptor of the table names. -/
def following (queue : VirtQueue size) (index : Fin size) : Option (Fin size) :=
  if (queue.table index).hasNext then some (queue.table index).next else none

/-- The descriptor some steps down the chain. -/
def path (queue : VirtQueue size) : Nat → Fin size → Option (Fin size)
  | 0, index => some index
  | steps + 1, index => (queue.following index).bind (queue.path steps)

/-- A descriptor is on the chain of another one. -/
def Reaches (queue : VirtQueue size) (index other : Fin size) : Prop :=
  ∃ steps, queue.path steps index = some other

variable {queue : VirtQueue size} {head index other : Fin size}

theorem path_add (first second : Nat) (index : Fin size) :
    queue.path (first + second) index = (queue.path first index).bind (queue.path second) := by
  induction first generalizing index with
  | zero => rw [zero_add, path, Option.bind_some]
  | succ _ hypothesis =>
    rw [Nat.succ_add, path, path, Option.bind_assoc]
    cases queue.following index with
    | none => rfl
    | some after => exact hypothesis after

theorem path_some_of_le {first second : Nat} (shorter : first ≤ second)
    (reached : queue.path second index = some other) :
    ∃ middle, queue.path first index = some middle := by
  rw [← Nat.add_sub_cancel' shorter, path_add] at reached
  cases middle : queue.path first index with
  | none =>
    rw [middle] at reached
    cases reached
  | some found => exact ⟨found, rfl⟩

theorem path_mul {length : Nat} (cycle : queue.path length index = some index) (rounds : Nat) :
    queue.path (rounds * length) index = some index := by
  induction rounds with
  | zero => rw [Nat.zero_mul, path]
  | succ _ hypothesis =>
    rw [Nat.succ_mul, path_add, hypothesis, Option.bind_some, cycle]

def RunsIntoCycle (queue : VirtQueue size) (head : Fin size) : Prop :=
  ∃ index, queue.Reaches head index ∧
    (∃ length, 0 < length ∧ queue.path length index = some index) ∧ ¬ queue.Reaches index head

/-- The chain never ends and never comes back to its head. -/
def Endless (queue : VirtQueue size) (head : Fin size) : Prop :=
  ∀ steps, 0 < steps → ∃ index, queue.path steps head = some index ∧ index ≠ head

theorem Endless.of_runsIntoCycle (cycle : queue.RunsIntoCycle head) : queue.Endless head := by
  obtain ⟨index, ⟨entry, isEntry⟩, ⟨length, positive, isCycle⟩, notBack⟩ := cycle
  intro steps notStart
  have farther : queue.path (entry + steps * length) head = some index := by
    rw [path_add, isEntry, Option.bind_some, path_mul isCycle]
  have within : steps ≤ entry + steps * length :=
    le_trans (Nat.le_mul_of_pos_right steps positive) (Nat.le_add_left _ _)
  obtain ⟨reached, isReached⟩ := path_some_of_le within farther
  refine ⟨reached, isReached, ?_⟩
  rintro rfl
  refine notBack ⟨(entry + 1) * steps - entry, ?_⟩
  have inside : entry ≤ (entry + 1) * steps :=
    le_trans (Nat.le_succ entry) (Nat.le_mul_of_pos_right _ notStart)
  have again := path_mul isReached (entry + 1)
  rw [← Nat.add_sub_cancel' inside, path_add, isEntry, Option.bind_some] at again
  exact again

/-- Among the descriptors of an endless chain one comes twice. -/
theorem Endless.runsIntoCycle (endless : queue.Endless head) : queue.RunsIntoCycle head := by
  obtain ⟨first, second, differ, same⟩ :=
    Finite.exists_ne_map_eq_of_infinite fun steps => queue.path (steps + 1) head
  wlog ordered : first < second generalizing first second
  · exact this second first differ.symm same.symm
      (Nat.lt_of_le_of_ne (Nat.le_of_not_lt ordered) differ.symm)
  obtain ⟨index, isIndex, _⟩ := endless (first + 1) (Nat.succ_pos first)
  have isSecond : queue.path (second + 1) head = some index := same ▸ isIndex
  refine ⟨index, ⟨_, isIndex⟩, ⟨second - first, Nat.sub_pos_of_lt ordered, ?_⟩, ?_⟩
  · have split : second + 1 = first + 1 + (second - first) := by omega
    rw [split, path_add, isIndex, Option.bind_some] at isSecond
    exact isSecond
  · rintro ⟨steps, back⟩
    have whole : queue.path (first + 1 + steps) head = some head := by
      rw [path_add, isIndex, Option.bind_some, back]
    obtain ⟨_, isReached, notHead⟩ := endless (first + 1 + steps) (by omega)
    exact notHead (Option.some.inj (isReached.symm.trans whole))

/-! ### The walk -/

theorem table_update (queue : VirtQueue size) (index : Fin size) :
    (queue.update index).table = queue.table := by
  funext other
  rw [update]
  split
  · rfl
  · rename_i isSet
    rw [table, table, if_neg isSet, if_neg isSet]

theorem path_update (queue : VirtQueue size) (index : Fin size) (steps : Nat) :
    (queue.update index).path steps = queue.path steps := by
  have same : (queue.update index).following = queue.following := by
    funext other
    rw [following, following, table_update]
  induction steps with
  | zero => rfl
  | succ _ hypothesis =>
    funext other
    rw [path, path, hypothesis, same]

theorem descriptors_update (queue : VirtQueue size) (index : Fin size) :
    (queue.update index).descriptors index = queue.table index ∧
      ∀ other, queue.descriptors other = queue.table other →
        (queue.update index).descriptors other = queue.table other := by
  rw [update]
  split
  · rename_i notSet
    refine ⟨?_, fun other => id⟩
    rw [table, if_pos notSet]
  · rename_i isSet
    have fromGuest : ∀ other, queue.table other = queue.guest other := fun other => if_neg isSet
    dsimp only
    refine ⟨?_, fun other fresh => ?_⟩
    · rw [Function.update_self, fromGuest]
    · by_cases same : other = index
      · subst same
        rw [update_self, fromGuest]
      · rw [update_of_ne same, fresh]

theorem next_update (queue : VirtQueue size) (index : Fin size) :
    (queue.update index).next index = queue.following index := by
  rw [next, following, (descriptors_update queue index).1]

/-- The walk is still under way exactly when the chain goes on without coming to the head. -/
theorem updateLoop_eq_none_iff (head : Fin size) (fuel : Nat) (current : Fin size)
    (queue : VirtQueue size) :
    queue.updateLoop head fuel current = none ↔
      ∀ steps, 0 < steps → steps ≤ fuel →
        ∃ index, queue.path steps current = some index ∧ index ≠ head := by
  induction fuel generalizing current queue with
  | zero =>
    exact ⟨fun _ steps positive bound => absurd positive (not_lt.mpr bound), fun _ => rfl⟩
  | succ fuel hypothesis =>
    rw [updateLoop, next_update]
    cases isNext : queue.following current with
    | none =>
      refine ⟨nofun, fun goesOn => ?_⟩
      obtain ⟨_, isIndex, _⟩ := goesOn 1 Nat.one_pos (Nat.le_add_left 1 fuel)
      rw [path, isNext] at isIndex
      cases isIndex
    | some after =>
      dsimp only
      have further (steps : Nat) : queue.path (steps + 1) current = queue.path steps after := by
        rw [path, isNext, Option.bind_some]
      by_cases isHead : after = head
      · rw [if_pos isHead]
        refine ⟨nofun, fun goesOn => ?_⟩
        obtain ⟨_, isIndex, notHead⟩ := goesOn 1 Nat.one_pos (Nat.le_add_left 1 fuel)
        rw [further] at isIndex
        exact absurd (Option.some.inj isIndex ▸ isHead) notHead
      · rw [if_neg isHead, hypothesis]
        constructor
        · intro goesOn steps positive bound
          obtain ⟨steps, rfl⟩ := Nat.exists_eq_succ_of_ne_zero (ne_of_gt positive)
          rw [further]
          cases steps with
          | zero => exact ⟨after, rfl, isHead⟩
          | succ steps =>
            have later := goesOn (steps + 1) (Nat.succ_pos steps) (Nat.le_of_succ_le_succ bound)
            rw [path_update] at later
            exact later
        · intro goesOn steps positive bound
          rw [path_update, ← further]
          exact goesOn (steps + 1) (Nat.succ_pos steps) (Nat.succ_le_succ bound)

theorem updateLoop_updated {fuel : Nat} {current : Fin size} {queue after : VirtQueue size}
    (ended : queue.updateLoop head fuel current = some (.updated after)) :
    (∀ index, queue.Reaches current index → after.descriptors index = queue.table index) ∧
      ∀ index, queue.descriptors index = queue.table index →
        after.descriptors index = queue.table index := by
  induction fuel generalizing current queue with
  | zero => cases ended
  | succ _ hypothesis =>
    rw [updateLoop, next_update] at ended
    obtain ⟨own, kept⟩ := descriptors_update queue current
    cases isNext : queue.following current with
    | none =>
      rw [isNext] at ended
      cases ended
      refine ⟨fun index reaches => ?_, kept⟩
      obtain ⟨steps, isIndex⟩ := reaches
      cases steps with
      | zero =>
        cases isIndex
        exact own
      | succ =>
        rw [path, isNext] at isIndex
        cases isIndex
    | some =>
      rw [isNext] at ended
      dsimp only at ended
      split at ended
      · cases ended
      · obtain ⟨reached, fresh⟩ := hypothesis ended
        rw [table_update] at reached fresh
        refine ⟨fun index reaches => ?_, fun index isFresh => fresh index (kept index isFresh)⟩
        obtain ⟨steps, isIndex⟩ := reaches
        cases steps with
        | zero =>
          cases isIndex
          exact fresh current own
        | succ steps =>
          rw [path, isNext, Option.bind_some, ← path_update queue current] at isIndex
          exact reached index ⟨steps, isIndex⟩

/-- For every table and every head, the update of the chain ends with every descriptor of the
chain updated or reports a loop, after finitely many steps, exactly when the chain does not run
into a cycle that the head is not on. -/
theorem updateChain_settles_iff (queue : VirtQueue size) (head : Fin size) :
    (∃ fuel, (∃ after, queue.updateChain head fuel = some (.updated after) ∧
        ∀ index, queue.Reaches head index → after.descriptors index = queue.table index) ∨
      queue.updateChain head fuel = some .loopPanic) ↔
    ¬ queue.RunsIntoCycle head := by
  constructor
  · rintro ⟨fuel, settled⟩ cycle
    have underWay := (updateLoop_eq_none_iff head fuel head queue).mpr fun steps positive _ =>
      Endless.of_runsIntoCycle cycle steps positive
    obtain ⟨_, ended, _⟩ | panicked := settled
    · exact nomatch underWay.symm.trans ended
    · exact nomatch underWay.symm.trans panicked
  · intro noCycle
    by_contra never
    refine noCycle (Endless.runsIntoCycle fun steps positive => ?_)
    refine (updateLoop_eq_none_iff head steps head queue).mp ?_ steps positive (le_refl steps)
    cases walked : queue.updateLoop head steps head with
    | none => rfl
    | some outcome =>
      refine absurd ⟨steps, ?_⟩ never
      cases outcome with
      | updated after => exact .inl ⟨after, walked, (updateLoop_updated walked).1⟩
      | loopPanic => exact .inr walked

/-- Descriptor 0 names descriptor 1, which names itself. -/
def selfNaming : VirtQueue 2 where
  address := 4096
  descriptors _ := ⟨0, 0, 0, 0⟩
  guest _ := ⟨0, 16, 1, 1⟩

/-- The update of the chain from descriptor 0 never ends. -/
theorem updateChain_never_settles : selfNaming.updateChain 0 = fun _ => none := by
  funext fuel
  have stays : selfNaming.path 1 1 = some 1 := by decide
  have cycle : selfNaming.RunsIntoCycle 0 := by
    refine ⟨1, ⟨1, by decide⟩, ⟨1, Nat.one_pos, stays⟩, ?_⟩
    rintro ⟨steps, back⟩
    have again := path_mul stays steps
    rw [mul_one] at again
    exact absurd (Option.some.inj (again.symm.trans back)) (by decide)
  exact (updateLoop_eq_none_iff 0 fuel 0 selfNaming).mpr fun steps positive _ =>
    Endless.of_runsIntoCycle cycle steps positive

end VirtQueue

end Chain

end Gem5.Dev
