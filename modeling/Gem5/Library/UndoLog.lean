/-
This file is the library of undo logs. A state changes by numbered pieces of work, each of
which leaves entries in a history that say how to undo it. A rollback undoes the entries
above a number, the youngest first. The history is truncated at its old end, up to a
number below which no rollback goes. The file proves that a rollback gives back the state
just after the youngest piece of work that is kept.
-/

import Mathlib.Data.List.Basic

namespace Gem5.Library

open List

variable {State Entry : Type} (number : Entry → Nat) (undo : Entry → State → State)

/-- The entries above a number are undone, the youngest first. -/
def rollback (bound : Nat) : List Entry → State → State
  | [], state => state
  | entry :: older, state =>
    if bound < number entry then rollback bound older (undo entry state) else state

/-- The entries that a rollback leaves. -/
def remaining (bound : Nat) : List Entry → List Entry
  | [] => []
  | entry :: older => if bound < number entry then remaining bound older else entry :: older

/-- The state just after the youngest piece of work up to a number, or the first state. -/
def snapshotAt (initial : State) (bound : Nat) : List (Nat × State) → State
  | [] => initial
  | (done, state) :: older => if done ≤ bound then state else snapshotAt initial bound older

variable {number undo}

variable {bound : Nat}

theorem rollback_of_le {history : List Entry} {state : State}
    (below : ∀ entry ∈ history, number entry ≤ bound) :
    rollback number undo bound history state = state := by
  cases history with
  | nil => rfl
  | cons entry =>
    rw [rollback, if_neg (Nat.not_lt.mpr (below entry mem_cons_self))]

theorem rollback_append_above {recent history : List Entry} {state : State}
    (above : ∀ entry ∈ recent, bound < number entry) :
    rollback number undo bound (recent ++ history) state =
      rollback number undo bound history (recent.foldl (fun state entry => undo entry state)
        state) := by
  induction recent generalizing state with
  | nil => rfl
  | cons entry _ hypothesis =>
    rw [cons_append, rollback, if_pos (above entry mem_cons_self), foldl_cons]
    exact hypothesis fun other member => above other (mem_cons_of_mem _ member)

theorem rollback_append_below {history truncated : List Entry} {state : State}
    (below : ∀ entry ∈ truncated, number entry ≤ bound) :
    rollback number undo bound (history ++ truncated) state =
      rollback number undo bound history state := by
  induction history generalizing state with
  | nil => exact rollback_of_le below
  | cons _ _ hypothesis =>
    rw [cons_append, rollback, rollback]
    split
    · exact hypothesis
    · rfl

/-- Two rollbacks, the second at least as far as the first, are the second one. -/
theorem rollback_rollback {later : Nat} (order : bound ≤ later) (history : List Entry)
    (state : State) :
    rollback number undo bound (remaining number later history)
        (rollback number undo later history state) =
      rollback number undo bound history state := by
  induction history generalizing state with
  | nil => rfl
  | cons entry _ hypothesis =>
    by_cases above : later < number entry
    · rw [remaining, if_pos above, rollback, if_pos above, hypothesis]
      exact (if_pos (Nat.lt_of_le_of_lt order above)).symm
    · rw [remaining, if_neg above]
      exact congrArg _ (if_neg above)

theorem remaining_le {history : List Entry}
    (descending : history.Pairwise fun younger older => number older ≤ number younger)
    (bound : Nat) : ∀ entry ∈ remaining number bound history, number entry ≤ bound := by
  induction descending with
  | nil => exact fun _ member => (nomatch member)
  | @cons _ _ ordered _ hypothesis =>
    rw [remaining]
    split
    · exact hypothesis
    · rename_i kept
      intro entry member
      obtain rfl | later := mem_cons.mp member
      · exact Nat.not_lt.mp kept
      · exact Nat.le_trans (ordered entry later) (Nat.not_lt.mp kept)

theorem remaining_sublist (bound : Nat) (history : List Entry) :
    (remaining number bound history).Sublist history := by
  induction history with
  | nil => exact .slnil
  | cons entry _ hypothesis =>
    rw [remaining]
    split
    · exact hypothesis.cons entry
    · exact List.Sublist.refl _

theorem snapshotAt_remaining {later : Nat} (order : bound ≤ later) (initial : State)
    (log : List (Nat × State)) :
    snapshotAt initial bound (remaining Prod.fst later log) = snapshotAt initial bound log := by
  induction log with
  | nil => rfl
  | cons _ _ hypothesis =>
    rw [remaining]
    split
    · rename_i above
      rw [hypothesis]
      exact (if_neg (Nat.not_le.mpr (Nat.lt_of_le_of_lt order above))).symm
    · rfl

theorem snapshotAt_remaining_later {later : Nat} (order : bound ≤ later)
    (initial : State) (log : List (Nat × State)) :
    snapshotAt initial later (remaining Prod.fst bound log) =
      snapshotAt initial bound log := by
  induction log with
  | nil => rfl
  | cons done _ hypothesis =>
    rw [remaining]
    split
    · rename_i above
      rw [hypothesis]
      exact (if_neg (Nat.not_le.mpr above)).symm
    · rename_i kept
      have reached : done.1 ≤ bound := Nat.not_lt.mp kept
      exact (if_pos (Nat.le_trans reached order)).trans (if_pos reached).symm

variable (number undo)

/-- A state and its history give back every state of the log from a number on. -/
def Tracks (initial : State) (committed : Nat) (log : List (Nat × State)) (history : List Entry)
    (state : State) : Prop :=
  ∀ bound, committed ≤ bound →
    rollback number undo bound history state = snapshotAt initial bound log

variable {number undo}

namespace Tracks

variable {initial state : State} {committed : Nat} {log : List (Nat × State)}
  {history : List Entry}

theorem start (initial : State) : Tracks number undo initial 0 [] [] initial :=
  fun _ _ => rfl

theorem push (tracks : Tracks number undo initial committed log history state) {done : Nat}
    {next : State} {recent : List Entry} (own : ∀ entry ∈ recent, number entry = done)
    (older : ∀ entry ∈ history, number entry ≤ done)
    (undone : recent.foldl (fun state entry => undo entry state) next = state) :
    Tracks number undo initial committed ((done, next) :: log) (recent ++ history) next := by
  intro bound order
  by_cases above : bound < done
  · rw [rollback_append_above fun entry member => (own entry member).symm ▸ above, undone,
      tracks bound order]
    exact (if_neg (Nat.not_le.mpr above)).symm
  · have reached : done ≤ bound := Nat.not_lt.mp above
    rw [rollback_of_le]
    · exact (if_pos reached).symm
    · intro entry member
      obtain mine | before := mem_append.mp member
      · rw [own entry mine]
        exact reached
      · exact Nat.le_trans (older entry before) reached

/-- The old end of the history is dropped, and no rollback goes there any more. -/
theorem truncate {truncated : List Entry}
    (tracks : Tracks number undo initial committed log (history ++ truncated) state)
    {limit : Nat} (below : ∀ entry ∈ truncated, number entry ≤ limit) :
    Tracks number undo initial (max committed limit) log history state := by
  intro bound order
  rw [← tracks bound (Nat.le_trans (Nat.le_max_left _ _) order)]
  exact (rollback_append_below fun entry member =>
    Nat.le_trans (below entry member) (Nat.le_trans (Nat.le_max_right _ _) order)).symm

theorem rolledBack (tracks : Tracks number undo initial committed log history state)
    (descending : history.Pairwise fun younger older => number older ≤ number younger)
    {limit : Nat} (order : committed ≤ limit) :
    Tracks number undo initial committed (remaining Prod.fst limit log)
      (remaining number limit history) (rollback number undo limit history state) := by
  intro bound reached
  by_cases before : bound ≤ limit
  · rw [rollback_rollback before, tracks bound reached, snapshotAt_remaining before]
  · have later : limit ≤ bound := Nat.le_of_not_le before
    rw [rollback_of_le, tracks limit order, snapshotAt_remaining_later later]
    exact fun entry member => Nat.le_trans (remaining_le descending limit entry member) later

end Tracks

end Gem5.Library
