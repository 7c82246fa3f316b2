/-
This file models the histories of the tournament predictor (`cpu/pred/tournament.cc`). A lookup
shifts its prediction into the global history and into the local history of its branch, and the
record it returns has both of them, but `squash` takes back only the global one. A run of branches
that is squashed has left no trace at any point if and only if every call has found a local
history that it does not change.
-/

import Mathlib.Data.List.Induction

namespace Gem5.Cpu.Tournament

open List

structure TournamentBP where
  instShiftAmt : Nat
  localHistoryTableSize : BitVec 32
  localPredictorMask : BitVec 32
  globalHistoryMask : BitVec 32
  choiceHistoryMask : BitVec 32
  historyRegisterMask : BitVec 32
  localThreshold : BitVec 32
  globalThreshold : BitVec 32
  choiceThreshold : BitVec 32
  localCtrs : BitVec 32 → BitVec 8
  globalCtrs : BitVec 32 → BitVec 8
  choiceCtrs : BitVec 32 → BitVec 8
  globalHistory : BitVec 32
  localHistoryTable : BitVec 32 → BitVec 32

structure BPHistory where
  globalHistory : BitVec 32
  localHistory : BitVec 32
  localPredTaken : Bool
  globalPredTaken : Bool
  globalUsed : Bool

/-- The prediction of a lookup. -/
def BPHistory.taken (history : BPHistory) : Bool :=
  if history.globalUsed then history.globalPredTaken else history.localPredTaken

inductive Call where
  | lookup (branchAddr : BitVec 64)
  | uncondBranch
  | btbUpdate (branchAddr : BitVec 64)

namespace TournamentBP

section Model

variable (bp : TournamentBP)

def calcLocHistIdx (branchAddr : BitVec 64) : BitVec 32 :=
  (branchAddr >>> bp.instShiftAmt).setWidth 32 &&& (bp.localHistoryTableSize - 1)

/-- `updateGlobalHistTaken` and `updateGlobalHistNotTaken`. -/
def updateGlobalHist (taken : Bool) : TournamentBP :=
  { bp with
    globalHistory :=
      (bp.globalHistory <<< 1 ||| if taken then 1 else 0) &&& bp.historyRegisterMask }

/-- `updateLocalHistTaken` and `updateLocalHistNotTaken`. -/
def updateLocalHist (localHistoryIdx : BitVec 32) (taken : Bool) : TournamentBP :=
  { bp with
    localHistoryTable := Function.update bp.localHistoryTable localHistoryIdx
      (bp.localHistoryTable localHistoryIdx <<< 1 ||| if taken then 1 else 0) }

def btbUpdate (branchAddr : BitVec 64) : TournamentBP :=
  let localHistoryIdx := bp.calcLocHistIdx branchAddr
  { bp with
    globalHistory := bp.globalHistory &&& (bp.historyRegisterMask &&& ~~~1)
    localHistoryTable := Function.update bp.localHistoryTable localHistoryIdx
      (bp.localHistoryTable localHistoryIdx &&& (bp.localPredictorMask &&& ~~~1)) }

/-- The record of a lookup. -/
def record (branchAddr : BitVec 64) : BPHistory :=
  let localPredictorIdx :=
    bp.localHistoryTable (bp.calcLocHistIdx branchAddr) &&& bp.localPredictorMask
  { globalHistory := bp.globalHistory
    localHistory := localPredictorIdx
    localPredTaken := bp.localThreshold < (bp.localCtrs localPredictorIdx).setWidth 32
    globalPredTaken := bp.globalThreshold <
      (bp.globalCtrs (bp.globalHistory &&& bp.globalHistoryMask)).setWidth 32
    globalUsed := bp.choiceThreshold <
      (bp.choiceCtrs (bp.globalHistory &&& bp.choiceHistoryMask)).setWidth 32 }

def lookup (branchAddr : BitVec 64) : TournamentBP × BPHistory :=
  let history := bp.record branchAddr
  ((bp.updateGlobalHist history.taken).updateLocalHist (bp.calcLocHistIdx branchAddr)
    history.taken, history)

def uncondBranch : TournamentBP × BPHistory :=
  (bp.updateGlobalHist true, ⟨bp.globalHistory, -1, true, true, true⟩)

def squash (history : BPHistory) : TournamentBP :=
  { bp with globalHistory := history.globalHistory }

end Model

/-- A call, with the records of the run from the youngest to the oldest. -/
def step : TournamentBP × List BPHistory → Call → TournamentBP × List BPHistory
  | (bp, histories), .lookup branchAddr =>
    ((bp.lookup branchAddr).1, (bp.lookup branchAddr).2 :: histories)
  | (bp, histories), .uncondBranch => (bp.uncondBranch.1, bp.uncondBranch.2 :: histories)
  | (bp, histories), .btbUpdate branchAddr => (bp.btbUpdate branchAddr, histories)

def run (bp : TournamentBP) (calls : List Call) : TournamentBP × List BPHistory :=
  calls.foldl step (bp, [])

/-- All branches of a run are squashed. -/
def squashAll (ran : TournamentBP × List BPHistory) : TournamentBP := ran.2.foldl squash ran.1

/-- The oldest record has the global history before the run, and the run changes only histories. -/
structure Recorded (bp : TournamentBP) (ran : TournamentBP × List BPHistory) : Prop where
  oldest : ran.2.getLast?.map BPHistory.globalHistory = some bp.globalHistory
  tables : { ran.1 with
    globalHistory := bp.globalHistory, localHistoryTable := bp.localHistoryTable } = bp

variable {bp : TournamentBP} {ran : TournamentBP × List BPHistory}

theorem foldl_squash (histories : List BPHistory) (bp : TournamentBP) :
    histories.foldl squash bp = { bp with
      globalHistory :=
        (histories.getLast?.map BPHistory.globalHistory).getD bp.globalHistory } := by
  induction histories generalizing bp with
  | nil => rfl
  | cons _ rest hypothesis =>
    rw [foldl_cons, hypothesis, getLast?_cons]
    cases rest.getLast? <;> rfl

theorem Recorded.step (recorded : Recorded bp ran) (call : Call) : Recorded bp (step ran call) := by
  obtain ⟨oldest, tables⟩ := recorded
  have older (history : BPHistory) :
      (history :: ran.2).getLast?.map BPHistory.globalHistory = some bp.globalHistory := by
    rw [getLast?_cons]
    cases last : ran.2.getLast? with
    | none =>
      rw [last] at oldest
      cases oldest
    | some =>
      rw [last] at oldest
      exact oldest
  cases call with
  | lookup => exact ⟨older _, tables⟩
  | uncondBranch => exact ⟨older _, tables⟩
  | btbUpdate => exact ⟨oldest, tables⟩

theorem squashAll_run_eq_iff {calls : List Call}
    (begun : ∀ branchAddr, calls.head? ≠ some (.btbUpdate branchAddr)) :
    squashAll (bp.run calls) = bp ↔
      (bp.run calls).1.localHistoryTable = bp.localHistoryTable := by
  cases calls with
  | nil => exact iff_of_true rfl rfl
  | cons first rest =>
    have begins : Recorded bp (step (bp, []) first) := by
      cases first with
      | lookup => exact ⟨rfl, rfl⟩
      | uncondBranch => exact ⟨rfl, rfl⟩
      | btbUpdate branchAddr => exact absurd rfl (begun branchAddr)
    have recorded : Recorded bp (bp.run (first :: rest)) :=
      foldlRecOn rest step begins fun _ recorded call _ => recorded.step call
    rw [squashAll, foldl_squash, recorded.oldest, Option.getD_some]
    constructor
    · intro restored
      have tables := congrArg TournamentBP.localHistoryTable restored
      exact tables
    · intro kept
      rw [kept]
      exact recorded.tables

/-! ### Calls that change no local history -/

/-- A lookup finds the local history of its branch full of its own prediction, and an update
for a missing target finds one inside the mask and with a lowest bit that is clear. -/
def Keeps (bp : TournamentBP) : Call → Prop
  | .lookup branchAddr => bp.localHistoryTable (bp.calcLocHistIdx branchAddr) =
      if (bp.record branchAddr).taken then BitVec.allOnes 32 else 0
  | .uncondBranch => True
  | .btbUpdate branchAddr => bp.localHistoryTable (bp.calcLocHistIdx branchAddr) &&&
      (bp.localPredictorMask &&& ~~~1) = bp.localHistoryTable (bp.calcLocHistIdx branchAddr)

theorem shift_or_eq_self_iff (entry : BitVec 32) (taken : Bool) :
    (entry <<< 1 ||| if taken then 1 else 0) = entry ↔
      entry = if taken then BitVec.allOnes 32 else 0 := by
  constructor
  · intro same
    -- Every bit is the one below it, and the lowest is the one that is shifted in.
    have bits (index : Nat) (inside : index < 32) : entry.getLsbD index = taken := by
      induction index with
      | zero =>
        rw [← same]
        cases taken <;> simp
      | succ index hypothesis =>
        have below : index < 32 := by omega
        calc entry.getLsbD (index + 1)
          _ = (entry <<< 1 ||| if taken then 1 else 0).getLsbD (index + 1) := by rw [same]
          _ = entry.getLsbD index := by cases taken <;> simp [inside, below]
          _ = taken := hypothesis below
    apply BitVec.eq_of_getLsbD_eq
    intro index inside
    rw [bits index inside]
    cases taken <;> simp [inside, -BitVec.reduceAllOnes]
  · rintro rfl
    cases taken <;> decide

theorem step_keeps_iff (ran : TournamentBP × List BPHistory) (call : Call) :
    (step ran call).1.localHistoryTable = ran.1.localHistoryTable ↔ ran.1.Keeps call := by
  cases call with
  | lookup branchAddr => exact Function.update_eq_self_iff.trans (shift_or_eq_self_iff _ _)
  | uncondBranch => exact iff_of_true rfl trivial
  | btbUpdate branchAddr => exact Function.update_eq_self_iff

/-- A run and all its beginnings leave the predictor as it was when they are squashed, if and
only if every call finds a local history that it keeps. -/
theorem squash_restores_iff (bp : TournamentBP) (calls : List Call)
    (begun : ∀ branchAddr, calls.head? ≠ some (.btbUpdate branchAddr)) :
    (∀ front, front <+: calls → squashAll (bp.run front) = bp) ↔
      ∀ front call, front ++ [call] <+: calls → (bp.run front).1.Keeps call := by
  have restored (front : List Call) (isFront : front <+: calls) :
      squashAll (bp.run front) = bp ↔
        (bp.run front).1.localHistoryTable = bp.localHistoryTable := by
    refine squashAll_run_eq_iff fun branchAddr first => begun branchAddr ?_
    obtain ⟨rest, rfl⟩ := isFront
    rw [head?_append, first, Option.some_or]
  have extended (front : List Call) (call : Call) :
      bp.run (front ++ [call]) = step (bp.run front) call := foldl_append
  constructor
  · intro all front call isFront
    have shorter : front <+: calls := (prefix_append _ _).trans isFront
    rw [← step_keeps_iff, ← extended, (restored _ isFront).mp (all _ isFront),
      (restored _ shorter).mp (all _ shorter)]
  · intro keeps front isFront
    rw [restored front isFront]
    induction front using reverseRecOn with
    | nil => rfl
    | append_singleton front call hypothesis =>
      rw [extended, (step_keeps_iff _ call).mpr (keeps front call isFront)]
      exact hypothesis ((prefix_append _ _).trans isFront)

/-- All tables are empty, and the choice is that of the local counters. -/
def empty (threshold : BitVec 32) : TournamentBP :=
  ⟨2, 8, 7, 7, 7, 7, threshold, 1, 1, fun _ => 2, fun _ => 0, fun _ => 0, 0, fun _ => 0⟩

theorem squash_restores_not_taken : squashAll
    ((empty 2).run [.lookup 4, .uncondBranch]) = empty 2 := by
  refine (squash_restores_iff _ _ (by simp)).mpr (fun front call isFront => ?_) _ prefix_rfl
  match front with
  | [] =>
    obtain rfl : call = .lookup 4 := (cons_prefix_cons.mp isFront).1
    rfl
  | [_] =>
    obtain rfl : call = .uncondBranch :=
      (cons_prefix_cons.mp (cons_prefix_cons.mp isFront).2).1
    trivial
  | _ :: _ :: _ => simp at isFront

/-- A branch that is predicted taken stays in its local history. -/
theorem squash_keeps_taken :
    (squashAll ((empty 1).run [.lookup 4])).localHistoryTable 1 = 1 ∧
      (empty 1).localHistoryTable 1 = 0 := by decide

end TournamentBP

end Gem5.Cpu.Tournament
