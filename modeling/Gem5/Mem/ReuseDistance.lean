/-
This file models the reuse distances that the address tracer records (`prof/reuse_dist.hh`,
`prof/addr_tracer.cc`, `set_sample.hh`). The distance of a reference is the place of its address in
a list of its set that every reference reorders. With sampling on, the references to the other sets
are not recorded at all.
-/

import Gem5.Library.Recency

namespace Gem5.Mem.Tracer

open Library List Function

/-- The parameters of a tracer. -/
structure Params where
  setSample : Bool
  nsets : Nat
  bsize : Nat

structure ReuseDistanceAnalyzer where
  maxDistance : Nat
  sets : Nat → List Nat
  /-- How often each distance was recorded for an address. -/
  distribution : Nat → Nat → Nat

inductive Call where
  | insert (addr : Nat)
  | access (addr : Nat)
deriving DecidableEq

def Call.addr : Call → Nat
  | insert addr | access addr => addr

namespace Params

variable (params : Params) (analyzer : ReuseDistanceAnalyzer) (addr : Nat)

def setid : Nat := addr / params.bsize % params.nsets

def access : ReuseDistanceAnalyzer :=
  let reuseDist := (analyzer.sets (params.setid addr)).idxOf addr
  { maxDistance := max analyzer.maxDistance reuseDist
    distribution := update analyzer.distribution addr
      (update (analyzer.distribution addr) reuseDist
        (analyzer.distribution addr reuseDist + 1))
    sets := update analyzer.sets (params.setid addr)
      (addr :: (analyzer.sets (params.setid addr)).filter (· != addr)) }

def insert : ReuseDistanceAnalyzer :=
  if addr ∈ analyzer.sets (params.setid addr) then params.access analyzer addr
  else { analyzer with
    sets := update analyzer.sets (params.setid addr)
      (addr :: analyzer.sets (params.setid addr)) }

/-- `is_samplesets`: every set, or those whose place in their constituency of 32 sets is its
number. -/
def isSamplesets : Bool :=
  !params.setSample || params.setid addr / 32 == params.setid addr % 32

def step (call : Call) : ReuseDistanceAnalyzer :=
  if params.isSamplesets call.addr then
    match call with
    | .insert addr => params.insert analyzer addr
    | .access addr => params.access analyzer addr
  else analyzer

/-- The tracer after a history of calls, from the last to the first. -/
def after : List Call → ReuseDistanceAnalyzer
  | [] => ⟨0, fun _ => [], fun _ _ => 0⟩
  | call :: past => params.step (after past) call

/-! ### What is recorded -/

/-- The references to a set, from the last to the first. -/
def toSet (past : List Call) (set : Nat) : List Nat :=
  (past.map Call.addr).filter fun addr => params.setid addr = set

/-- The number of addresses of the set that were referenced since the last reference to the
address. -/
def distance (past : List Call) : Nat :=
  ((params.toSet past (params.setid addr)).takeWhile (· ≠ addr)).dedup.length

/-- A distance is recorded for every reference to an address of a sampled set that was seen before,
and for a first access. -/
def recorded : List Call → List (Nat × Nat)
  | [] => []
  | call :: past =>
    if params.isSamplesets call.addr = true ∧
        (call.addr ∈ past.map Call.addr ∨ call = .access call.addr) then
      (call.addr, params.distance call.addr past) :: recorded past
    else recorded past

variable {params analyzer addr}

theorem step_sets (call : Call) : (params.step analyzer call).sets =
    if params.isSamplesets call.addr then update analyzer.sets (params.setid call.addr)
      (call.addr :: (analyzer.sets (params.setid call.addr)).filter (· != call.addr))
    else analyzer.sets := by
  unfold step
  split
  · cases call with
    | insert addr =>
      dsimp only
      rw [insert, Call.addr]
      split
      case isTrue => rfl
      case isFalse fresh =>
        have all : (analyzer.sets (params.setid addr)).filter (· != addr) = _ :=
          filter_eq_self.mpr fun other member => bne_iff_ne.mpr fun same => fresh (same ▸ member)
        rw [all]
    | access => rfl
  · rfl

theorem sets_after (params : Params) (past : List Call)
    (sampled : params.isSamplesets addr = true) : (params.after past).sets (params.setid addr) =
      recency (params.toSet past (params.setid addr)).reverse := by
  induction past with
  | nil => rfl
  | cons call _ hypothesis =>
    rw [after, step_sets, toSet, map_cons, filter_cons]
    by_cases here : params.setid call.addr = params.setid addr
    · have alike : params.isSamplesets call.addr = true := by
        rw [isSamplesets, here]
        exact sampled
      rw [if_pos alike, here, update_self, hypothesis,
        if_pos (decide_eq_true rfl), reverse_cons, recency_append, touch,
        (recency_nodup _).erase_eq_filter]
      rfl
    · have same : decide (params.setid call.addr = params.setid addr) ≠ true := by simpa using here
      rw [if_neg same]
      split
      · rw [update_of_ne (Ne.symm here)]
        exact hypothesis
      · exact hypothesis

/-- The analyzer has counted each of the distances once, and its maximum is the largest. -/
def Counts (analyzer : ReuseDistanceAnalyzer) (distances : List (Nat × Nat)) : Prop :=
  (∀ addr distance, analyzer.distribution addr distance = distances.count (addr, distance)) ∧
    analyzer.maxDistance = (distances.map Prod.snd).foldr max 0

theorem Counts.access {distances : List (Nat × Nat)} (counts : Counts analyzer distances)
    {distance : Nat} (place : (analyzer.sets (params.setid addr)).idxOf addr = distance) :
    Counts (params.access analyzer addr) ((addr, distance) :: distances) := by
  subst place
  refine ⟨fun other value => ?_, ?_⟩
  · rw [Params.access, count_cons]
    dsimp only
    by_cases here : other = addr
    · subst here
      rw [update_self]
      by_cases same : value = (analyzer.sets (params.setid other)).idxOf other
      · rw [same, update_self, counts.1, if_pos (beq_self_eq_true _)]
      · rw [update_of_ne same, counts.1, if_neg (by simpa using Ne.symm same), Nat.add_zero]
    · rw [update_of_ne here, counts.1, if_neg (by simp [Ne.symm here]), Nat.add_zero]
  · rw [map_cons, foldr_cons, ← counts.2, Nat.max_comm]
    rfl

/-- Every reference to a sampled set has the distance that is recorded for it. -/
theorem distances_recorded (params : Params) (past : List Call) :
    Counts (params.after past) (params.recorded past) := by
  induction past with
  | nil => exact ⟨fun _ _ => rfl, rfl⟩
  | cons call past counts =>
    rw [after, recorded]
    unfold step
    by_cases sampled : params.isSamplesets call.addr = true
    · have place : ((params.after past).sets (params.setid call.addr)).idxOf call.addr =
          params.distance call.addr past := by
        rw [sets_after params past sampled, idxOf_recency, distance]
      have seen : call.addr ∈ (params.after past).sets (params.setid call.addr) ↔
          call.addr ∈ past.map Call.addr := by
        rw [sets_after params past sampled, mem_recency, mem_reverse, toSet, mem_filter]
        exact and_iff_left (decide_eq_true rfl)
      rw [if_pos sampled]
      cases call with
      | insert addr =>
        rw [Call.addr] at place seen sampled ⊢
        dsimp only
        rw [insert]
        by_cases before : addr ∈ past.map Call.addr
        · rw [if_pos (seen.mpr before), if_pos ⟨sampled, .inl before⟩]
          exact counts.access place
        · rw [if_neg (mt seen.mp before), if_neg fun both => both.2.elim before nofun]
          exact counts
      | access =>
        rw [if_pos ⟨sampled, .inr rfl⟩]
        exact counts.access place
    · rw [if_neg sampled, if_neg fun both => sampled both.1]
      exact counts

/-- With sampling on, the references to set 1 of 128 are not recorded. -/
theorem unsampled_not_counted :
    (Params.after ⟨true, 128, 64⟩ [.access 64, .insert 64]).distribution 64 0 = 0 := by decide

end Params

end Gem5.Mem.Tracer
