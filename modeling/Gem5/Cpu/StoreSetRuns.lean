/-
This file follows the store set predictor through arbitrary sequences of calls. In every state
that can be reached a squash ends, and leaves no valid entry about a squashed store of its
thread, exactly when the stores on the list are followed by their sets and the entries of the
thread are listed.
-/

import Gem5.Cpu.StoreSet

namespace Gem5.Cpu.MemDep

open Library List

/-! ### The store list -/

section StoreList

variable {key value : Nat} {list : List (Nat × Nat)}

theorem mem_of_mem_assign {entry : Nat × Nat} (member : entry ∈ assign key value list) :
    entry = (key, value) ∨ entry ∈ list := by
  induction list with
  | nil => exact .inl (mem_singleton.mp member)
  | cons head _ hypothesis =>
    rw [assign] at member
    split at member
    · exact mem_cons.mp member
    · split at member
      · exact (mem_cons.mp member).imp_right (mem_cons_of_mem head)
      · obtain rfl | isRest := mem_cons.mp member
        · exact .inr mem_cons_self
        · exact (hypothesis isRest).imp_right (mem_cons_of_mem head)

theorem Descending.assign (descending : Descending list) : Descending (assign key value list) := by
  induction list with
  | nil => exact pairwise_singleton _ _
  | cons _ _ hypothesis =>
    obtain ⟨belowHead, descendingRest⟩ := pairwise_cons.mp descending
    rw [MemDep.assign]
    split
    · rename_i above
      refine pairwise_cons.mpr ⟨fun entry isEntry => ?_, descending⟩
      obtain rfl | isRest := mem_cons.mp isEntry
      · exact above
      · exact Nat.lt_trans (belowHead entry isRest) above
    · split
      · rename_i same
        exact pairwise_cons.mpr ⟨same ▸ belowHead, descendingRest⟩
      · rename_i notAbove notSame
        refine pairwise_cons.mpr ⟨fun entry isEntry => ?_, hypothesis descendingRest⟩
        obtain rfl | isRest := mem_of_mem_assign isEntry
        · exact Nat.lt_of_le_of_ne (Nat.not_lt.mp notAbove) (Ne.symm notSame)
        · exact belowHead entry isRest

end StoreList

/-! ### What the calls change -/

section Changes

variable {config : Config} {set next : StoreSet}

theorem violation_storeList {storePC loadPC : Nat}
    (taken : set.violation config storePC loadPC = .ok next) : next.storeList = set.storeList := by
  dsimp only [StoreSet.violation] at taken
  obtain ⟨-, taken⟩ := else_eq_ok taken
  split at taken
  · split at taken
    · cases taken
      rfl
    · cases taken
  · split at taken
    · cases taken
      rfl
    · cases taken
  · cases taken
    rfl
  · obtain ⟨-, taken⟩ := else_eq_ok taken
    split at taken
    · cases taken
      rfl
    · cases taken
      rfl

theorem checkClear_storeList (config : Config) (set : StoreSet) :
    (set.checkClear config).storeList = set.storeList ∨ (set.checkClear config).storeList = [] := by
  rw [StoreSet.checkClear]
  split
  · exact .inr rfl
  · exact .inl rfl

theorem insertStore_cases {storePC storeSeqNum : Nat}
    (taken : set.insertStore config storePC storeSeqNum = .ok next) :
    next = set.checkClear config ∨
      ∃ ssid, next = (set.checkClear config).record ssid storeSeqNum := by
  rw [StoreSet.insertStore] at taken
  obtain ⟨-, taken⟩ := else_eq_ok taken
  split at taken
  · cases taken
    exact .inl rfl
  · split at taken
    · cases taken
      exact .inr ⟨_, rfl⟩
    · cases taken

/-- An issued store leaves the list. -/
theorem issued_storeList {issuedPC issuedSeqNum : Nat} {isStore : Bool}
    (taken : set.issued config issuedPC issuedSeqNum isStore = .ok next) :
    next.storeList = set.storeList ∨ next.storeList = (set.erase issuedSeqNum).storeList := by
  dsimp only [StoreSet.issued] at taken
  split at taken
  · cases taken
    exact .inl rfl
  · obtain ⟨-, taken⟩ := else_eq_ok taken
    split at taken
    · cases taken
      exact .inr rfl
    · obtain ⟨-, taken⟩ := else_eq_ok taken
      split at taken
      · cases taken
        exact .inr rfl
      · cases taken
        exact .inr rfl

theorem squash_squashed {squashedNum : Nat} (descending : Descending set.storeList)
    (taken : set.squash squashedNum = .ok next) : Squashed squashedNum set next := by
  rw [StoreSet.squash] at taken
  split at taken
  · rename_i ended
    cases taken
    exact squashed_of_squashLoop descending ended
  · cases taken

end Changes

/-! ### Every state that can be reached -/

namespace Trace

variable {config : Config}

theorem step_descending (trace : Trace) (call : Call) (next : Trace)
    (descending : Descending trace.set.storeList) (taken : trace.step config call = .ok next) :
    Descending next.set.storeList := by
  have cleared : Descending (trace.set.checkClear config).storeList := by
    obtain same | forgotten := checkClear_storeList config trace.set
    · exact same ▸ descending
    · exact forgotten ▸ List.Pairwise.nil
  cases call with
  | violation =>
    obtain ⟨_, changed, rfl⟩ := map_eq_ok taken
    exact violation_storeList changed ▸ descending
  | insertLoad =>
    cases taken
    exact cleared
  | insertStore =>
    obtain ⟨_, changed, rfl⟩ := map_eq_ok taken
    obtain rfl | ⟨_, rfl⟩ := insertStore_cases changed
    · exact cleared
    · exact cleared.assign
  | issued =>
    obtain ⟨_, changed, rfl⟩ := map_eq_ok taken
    obtain same | erased := issued_storeList changed
    · exact same ▸ descending
    · exact erased ▸ List.Pairwise.filter _ descending
  | squash =>
    obtain ⟨_, changed, rfl⟩ := map_eq_ok taken
    exact (squash_squashed descending changed).storeList ▸ List.Pairwise.filter _ descending

theorem descending_of_run {calls : List Call} {final : Trace}
    (run : Run (step config) (fun _ _ => True) start calls final) :
    Descending final.set.storeList :=
  run.invariant (fun trace : Trace => Descending trace.set.storeList)
    (fun kept _ taken => step_descending _ _ _ kept taken) List.Pairwise.nil

/-- Every valid entry of the thread about a store to be squashed belongs to a set that one of
the stores to be squashed is listed with. -/
def Listed (config : Config) (squashedNum tid : Nat) (trace : Trace) : Prop :=
  ∀ ssid < config.lfstSize, trace.owner ssid = tid → trace.set.validLFST ssid = true →
    squashedNum < trace.set.lfst ssid →
    ∃ entry ∈ trace.set.storeList, squashedNum < entry.1 ∧ entry.2 = ssid

instance (squashedNum tid : Nat) (trace : Trace) :
    Decidable (Listed config squashedNum tid trace) :=
  inferInstanceAs (Decidable (∀ ssid < config.lfstSize, _))

/-- No entry of the thread is valid for a store above the number. -/
def Cleared (config : Config) (squashedNum tid : Nat) (owner : Nat → Nat) (set : StoreSet) :
    Prop :=
  ∀ ssid < config.lfstSize, owner ssid = tid → set.validLFST ssid = true →
    set.lfst ssid ≤ squashedNum

instance (squashedNum tid : Nat) (owner : Nat → Nat) (set : StoreSet) :
    Decidable (Cleared config squashedNum tid owner set) :=
  inferInstanceAs (Decidable (∀ ssid < config.lfstSize, _))

theorem cleared_iff {squashedNum tid : Nat} {trace : Trace} {after : StoreSet}
    (squashed : Squashed squashedNum trace.set after) :
    Cleared config squashedNum tid trace.owner after ↔ Listed config squashedNum tid trace := by
  refine ⟨fun cleared ssid inRange own valid above => ?_, fun listed ssid inRange own valid => ?_⟩
  · by_contra none
    have kept : after.validLFST ssid = true := (squashed.validLFST ssid).mpr
      ⟨valid, fun entry isEntry later same => none ⟨entry, isEntry, later, same⟩⟩
    have atMost := cleared ssid inRange own kept
    rw [squashed.lfst] at atMost
    exact absurd above (Nat.not_lt.mpr atMost)
  · obtain ⟨wasValid, notListed⟩ := (squashed.validLFST ssid).mp valid
    rw [squashed.lfst]
    refine Nat.le_of_not_lt fun above => ?_
    obtain ⟨entry, isEntry, later, same⟩ := listed ssid inRange own wasValid above
    exact notListed entry isEntry later same

/-- After any calls, a squash ends and clears the entries of its thread exactly when every
listed store that it squashes has a set whose last recorded store it squashes too, and every
entry of the thread that it has to clear is that of a listed store that it squashes. -/
theorem squash_clears_iff {calls : List Call} {final : Trace} (squashedNum tid : Nat)
    (run : Run (step config) (fun _ _ => True) start calls final) :
    (∃ fuel after, final.set.squashLoop squashedNum fuel = some after ∧
      Cleared config squashedNum tid final.owner after) ↔
    Followed squashedNum final.set ∧ Listed config squashedNum tid final := by
  have descending := descending_of_run run
  constructor
  · rintro ⟨fuel, _, ended, cleared⟩
    refine ⟨?_, (cleared_iff (squashed_of_squashLoop descending ended)).mp cleared⟩
    by_contra fails
    rw [squashLoop_of_not_followed fuel final.set descending fails] at ended
    cases ended
  · rintro ⟨followed, listed⟩
    obtain ⟨after, ended⟩ := squashLoop_of_followed (Nat.lt_succ_self _) followed
    exact ⟨_, after, ended, (cleared_iff (squashed_of_squashLoop descending ended)).mpr listed⟩

/-- Two instructions of different threads, at indices 1 and 2, share set 1. -/
def smallConfig : Config where
  ssitSize := 4
  lfstSize := 4
  clearPeriod := 100
  ssitPower := ⟨2, rfl⟩
  lfstPower := ⟨2, rfl⟩

theorem squash_clears_iff_two_stores :
    ∃ final, Run (step smallConfig) (fun _ _ => True) start
        [.violation 8 5, .insertStore 8 10 0, .insertStore 4 12 1] final ∧
      ∃ fuel after, final.set.squashLoop 7 fuel = some after ∧
        Cleared smallConfig 7 1 final.owner after := by
  exact Run.exists_checked (fun final => Followed 7 final.set ∧ Listed smallConfig 7 1 final)
    (by decide +kernel) fun _ run checked => (squash_clears_iff 7 1 run).mpr checked

/-- Store 10 of thread 0 and then store 5 of thread 1 are recorded in one set: the squash of
thread 0 to number 7 never ends. And a store 10 that issues after its instruction has been
moved to another set stays in the entry of its first set, where the squash to number 7 does
not find it. -/
theorem squash_fails :
    (∃ final, Run (step smallConfig) (fun _ _ => True) start
        [.violation 8 5, .insertStore 8 10 0, .insertStore 4 5 1] final ∧
      ∀ fuel, final.set.squashLoop 7 fuel = none) ∧
    ∃ final, Run (step smallConfig) (fun _ _ => True) start
        [.violation 8 6, .violation 12 0, .insertStore 8 10 0, .violation 8 0,
          .issued 8 10 true] final ∧
      ∃ after, final.set.squash 7 = .ok after ∧ ¬ Cleared smallConfig 7 0 final.owner after := by
  refine ⟨?_, ?_⟩
  · refine Run.exists_checked (fun final => ¬ Followed 7 final.set)
      (by decide +kernel) fun final run checked => ?_
    have descending := descending_of_run run
    exact fun fuel => squashLoop_of_not_followed fuel final.set descending checked
  · refine Run.exists_checked (fun final => (final.set.squash 7).toOption.any
        (fun after => decide (¬ Cleared smallConfig 7 0 final.owner after)) = true)
      (by decide +kernel) fun _ _ checked => ?_
    obtain ⟨after, taken, notCleared⟩ := exists_of_check checked
    exact ⟨after, taken, of_decide_eq_true notCleared⟩

end Trace

end Gem5.Cpu.MemDep
