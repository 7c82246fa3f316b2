/-
This file proves what the branch prediction unit trains its direction predictor with. The
record of a branch is made between the look-up of the direction and the look-up of the target,
and it keeps the direction of the first look-up. When the branch leaves the history without
having been corrected, the direction predictor is trained with that direction. It is the one
that fetch got, unless the branch was predicted taken and had no target in the buffer: then
fetch was told that the branch is not taken, and the predictor is trained with taken.
-/

import Gem5.Cpu.BPredUnit

namespace Gem5.Cpu.Pred

open Library List Function

section Training

variable {PC State History : Type} {config : Config PC State History}

/-! ### Predictions -/

/-- A branch that is predicted taken, is no return and has no target in the buffer. -/
def BPredUnit.missesTarget (config : Config PC State History) (unit : BPredUnit PC State History)
    (inst : Inst) (pc : PC) (tid : Nat) : Bool :=
  (BPredUnit.direct config unit.direction inst (config.isa.instAddr pc)).1 && !inst.isReturn &&
    !unit.btb.valid config (config.isa.instAddr pc) tid

namespace BPredUnit

theorem pushCall_record (config : Config PC State History) (inst : Inst) (pc : PC)
    (record : PredictorHistory PC History) (ras : ReturnAddrStack PC) :
    (pushCall config inst pc record ras).1.seqNum = record.seqNum ∧
      (pushCall config inst pc record ras).1.predTaken = record.predTaken := by
  rw [pushCall]
  split
  · exact ⟨rfl, rfl⟩
  · exact ⟨rfl, rfl⟩

/-- The record has the direction that is returned exactly when the branch does not miss its
target. -/
theorem prediction_record (config : Config PC State History)
    (unit : BPredUnit PC State History) (inst : Inst) (seqNum : Nat) (pc : PC) (tid : Nat) :
    (unit.prediction config inst seqNum pc tid).record.seqNum = seqNum ∧
      ((unit.prediction config inst seqNum pc tid).record.predTaken =
          (unit.prediction config inst seqNum pc tid).predTaken ↔
        unit.missesTarget config inst pc tid = false) := by
  dsimp only [prediction, missesTarget]
  generalize direct config unit.direction inst (config.isa.instAddr pc) = directed
  obtain ⟨predTaken, bpHistory, direction⟩ := directed
  cases predTaken with
  | false =>
    refine ⟨?_, ⟨fun _ => rfl, fun _ => ?_⟩⟩
    · simp only [Bool.false_eq_true, if_false, predictNotTaken]
      split <;> rfl
    · simp only [Bool.false_eq_true, if_false, predictNotTaken]
      split <;> rfl
  | true =>
    cases isReturn : inst.isReturn with
    | true => exact ⟨rfl, ⟨fun _ => rfl, fun _ => rfl⟩⟩
    | false =>
      simp only [if_true, Bool.false_eq_true, if_false, Bool.not_false, Bool.and_true,
        Bool.true_and, predictTarget]
      have kept := pushCall_record config inst pc
        (newRecord config seqNum (config.isa.instAddr pc) true bpHistory) (unit.ras tid)
      generalize pushCall config inst pc _ (unit.ras tid) = pushed at kept ⊢
      cases unit.btb.valid config (config.isa.instAddr pc) tid with
      | true => exact ⟨kept.1, ⟨fun _ => rfl, fun _ => kept.2⟩⟩
      | false =>
        have isTaken : pushed.1.predTaken = true := kept.2
        simp only [Bool.false_eq_true, if_false, predictMissed]
        split
        · exact ⟨kept.1, by simp [isTaken]⟩
        · split <;> exact ⟨kept.1, by simp [isTaken]⟩

theorem updateLoop_spec (config : Config PC State History) (doneSn tid : Nat)
    (records : List (PredictorHistory PC History)) (unit : BPredUnit PC State History) :
    (∀ record ∈ (updateLoop config doneSn tid records unit).1, record ∈ records) ∧
      (updateLoop config doneSn tid records unit).2.predHist = unit.predHist ∧
      ∀ training ∈ (updateLoop config doneSn tid records unit).2.trained,
        training ∈ unit.trained ∨
          ∃ record ∈ records, training = ⟨tid, record.seqNum, record.predTaken, false⟩ := by
  induction records generalizing unit with
  | nil => exact ⟨fun _ => id, rfl, fun _ => .inl⟩
  | cons record _ hypothesis =>
    rw [updateLoop]
    split
    · obtain ⟨remaining, samePredHist, trainings⟩ :=
        hypothesis (unit.commit config tid record)
      refine ⟨fun other isOther => mem_cons_of_mem record (remaining other isOther), ?_,
        fun training member => ?_⟩
      · rw [samePredHist, commit]
        split
        · rfl
        · rfl
      · obtain earlier | ⟨other, isOther, same⟩ := trainings training member
        · rw [commit] at earlier
          split at earlier
          · obtain rfl | before := mem_cons.mp earlier
            · exact .inr ⟨record, mem_cons_self, rfl⟩
            · exact .inl before
          · exact .inl earlier
        · exact .inr ⟨other, mem_cons_of_mem record isOther, same⟩
    · exact ⟨fun _ => id, rfl, fun _ => .inl⟩

end BPredUnit

/-! ### Traces -/

/-- What fetch got for a branch, and whether the branch missed its target. -/
structure Returned where
  tid : Nat
  seqNum : Nat
  predTaken : Bool
  missed : Bool
deriving DecidableEq, Repr

structure TrainingTrace (PC State History : Type) where
  unit : BPredUnit PC State History
  predictions : List Returned

/-- A direction belongs to a branch whose direction was returned, unless the branch missed its
target. -/
def AsReturned (predictions : List Returned) (tid seqNum : Nat) (taken : Bool) : Prop :=
  ∃ returned ∈ predictions, returned.tid = tid ∧ returned.seqNum = seqNum ∧
    (taken = returned.predTaken ↔ returned.missed = false)

theorem AsReturned.cons {predictions : List Returned} {tid seqNum : Nat} {taken : Bool}
    (known : AsReturned predictions tid seqNum taken) (returned : Returned) :
    AsReturned (returned :: predictions) tid seqNum taken := by
  obtain ⟨earlier, isEarlier, facts⟩ := known
  exact ⟨earlier, mem_cons_of_mem returned isEarlier, facts⟩

namespace TrainingTrace

def start (config : Config PC State History) (direction : State) :
    TrainingTrace PC State History where
  unit := .init config direction
  predictions := []

def returned (config : Config PC State History) (unit : BPredUnit PC State History) :
    Call PC → List Returned → List Returned
  | .predict inst seqNum pc tid, predictions =>
    { tid, seqNum
      predTaken := (unit.predict config inst seqNum pc tid).1
      missed := unit.missesTarget config inst pc tid } :: predictions
  | .update _ _, predictions => predictions
  | .squash _ _, predictions => predictions
  | .mispredict _ _ _ _, predictions => predictions

def step (config : Config PC State History) (trace : TrainingTrace PC State History)
    (call : Call PC) : Except Fault (TrainingTrace PC State History) := do
  let unit ← trace.unit.step config call
  return { unit, predictions := returned config trace.unit call trace.predictions }

/-- The sequence numbers of a thread increase. -/
def Increasing (trace : TrainingTrace PC State History) : Call PC → Prop
  | .predict _ seqNum _ tid =>
    ∀ returned ∈ trace.predictions, returned.tid = tid → returned.seqNum < seqNum
  | .update _ _ => True
  | .squash _ _ => True
  | .mispredict _ _ _ _ => True

instance (trace : TrainingTrace PC State History) :
    (call : Call PC) → Decidable (trace.Increasing call)
  | .predict .. => inferInstanceAs (Decidable (∀ _ ∈ _, _ → _))
  | .update .. | .squash .. | .mispredict .. => .isTrue trivial

/-- The records of the histories have the directions of their branches, and so have the
trainings that were no corrections. -/
structure Sound (trace : TrainingTrace PC State History) : Prop where
  ordered : trace.predictions.Pairwise fun later earlier =>
    later.tid = earlier.tid → earlier.seqNum < later.seqNum
  recorded : ∀ tid, ∀ record ∈ trace.unit.predHist tid,
    AsReturned trace.predictions tid record.seqNum record.predTaken
  trained : ∀ training ∈ trace.unit.trained, training.squashed = false →
    AsReturned trace.predictions training.tid training.seqNum training.taken

namespace Sound

variable {trace : TrainingTrace PC State History}

theorem predict (sound : Sound trace) {inst : Inst} {seqNum tid : Nat} {pc : PC}
    (increasing : trace.Increasing (.predict inst seqNum pc tid)) :
    Sound ⟨(trace.unit.predict config inst seqNum pc tid).2.2,
      returned config trace.unit (.predict inst seqNum pc tid) trace.predictions⟩ := by
  have made := BPredUnit.prediction_record config trace.unit inst seqNum pc tid
  refine ⟨pairwise_cons.mpr ⟨fun earlier isEarlier same =>
    increasing earlier isEarlier same.symm, sound.ordered⟩, fun other record member => ?_,
    fun training member uncorrected => (sound.trained training member uncorrected).cons _⟩
  by_cases same : other = tid
  · subst same
    dsimp only [BPredUnit.predict] at member
    rw [update_self] at member
    obtain rfl | earlier := mem_cons.mp member
    · exact ⟨_, mem_cons_self, rfl, made.1.symm, made.2⟩
    · exact (sound.recorded other record earlier).cons _
  · dsimp only [BPredUnit.predict] at member
    rw [update_of_ne same] at member
    exact (sound.recorded other record member).cons _

theorem update (sound : Sound trace) (doneSn tid : Nat) :
    Sound ⟨trace.unit.update config doneSn tid, trace.predictions⟩ := by
  obtain ⟨remaining, samePredHist, trainings⟩ := BPredUnit.updateLoop_spec config doneSn tid
    (trace.unit.predHist tid).reverse trace.unit
  refine ⟨sound.ordered, fun other record member => ?_, fun training member uncorrected => ?_⟩
  · dsimp only [BPredUnit.update] at member
    rw [samePredHist] at member
    by_cases same : other = tid
    · subst same
      rw [update_self] at member
      have kept := remaining record (mem_reverse.mp member)
      exact sound.recorded other record (mem_reverse.mp kept)
    · rw [update_of_ne same] at member
      exact sound.recorded other record member
  · obtain earlier | ⟨record, isRecord, rfl⟩ := trainings training member
    · exact sound.trained training earlier uncorrected
    · exact sound.recorded tid record (mem_reverse.mp isRecord)

theorem squash (sound : Sound trace) (squashedSn tid : Nat) :
    Sound ⟨trace.unit.squash config squashedSn tid, trace.predictions⟩ := by
  refine ⟨sound.ordered, fun other record member => ?_, fun training member => ?_⟩
  · rw [BPredUnit.squash_predHist] at member
    by_cases same : other = tid
    · subst same
      rw [update_self] at member
      exact sound.recorded other record ((dropWhile_suffix _).subset member)
    · rw [update_of_ne same] at member
      exact sound.recorded other record member
  · exact sound.trained training ((BPredUnit.squashLoop_frame _ _ _ _).2.1 ▸ member)

theorem fixFront (sound : Sound trace) {corrTarget : PC} {actuallyTaken : Bool} {tid : Nat}
    {record : PredictorHistory PC History} {rest : List (PredictorHistory PC History)}
    (isHist : trace.unit.predHist tid = record :: rest) :
    Sound ⟨trace.unit.fixFront config corrTarget actuallyTaken tid record rest,
      trace.predictions⟩ := by
  refine ⟨sound.ordered, fun other changed member => ?_, fun training member uncorrected => ?_⟩
  · dsimp only [BPredUnit.fixFront, BPredUnit.train] at member
    by_cases same : other = tid
    · subst same
      rw [update_self] at member
      obtain rfl | isRest := mem_cons.mp member
      · have recorded := sound.recorded other record (isHist ▸ mem_cons_self)
        dsimp only [BPredUnit.correct]
        split
        · split <;> exact recorded
        · split
          · exact recorded
          · split <;> exact recorded
      · exact sound.recorded other changed (isHist ▸ mem_cons_of_mem record isRest)
    · rw [update_of_ne same] at member
      exact sound.recorded other changed member
  · obtain rfl | earlier := mem_cons.mp member
    · cases uncorrected
    · exact sound.trained training earlier uncorrected

theorem step (call : Call PC) {next : TrainingTrace PC State History} (sound : Sound trace)
    (increasing : trace.Increasing call) (taken : trace.step config call = .ok next) :
    Sound next := by
  obtain ⟨_, changed, rfl⟩ := map_eq_ok taken
  cases call with
  | predict =>
    cases changed
    exact sound.predict increasing
  | update doneSn tid =>
    cases changed
    exact sound.update doneSn tid
  | squash squashedSn tid =>
    cases changed
    exact sound.squash squashedSn tid
  | mispredict squashedSn _ _ tid =>
    obtain ⟨rfl, _⟩ | ⟨_, _, isHist, _, rfl⟩ := BPredUnit.squashMispredicted_cases changed
    · exact sound.squash squashedSn tid
    · exact (sound.squash squashedSn tid).fixFront isHist

end Sound

/-- After any calls, the branch of a training that was no correction is one that was predicted,
and the training has the direction that fetch got for that branch exactly when the branch did
not miss its target. -/
theorem trained_as_returned_iff {direction : State} {calls : List (Call PC)}
    {final : TrainingTrace PC State History} {training : Training}
    (run : Run (step config) Increasing (start config direction) calls final)
    (member : training ∈ final.unit.trained) (uncorrected : training.squashed = false) :
    (∃ returned ∈ final.predictions,
      returned.tid = training.tid ∧ returned.seqNum = training.seqNum) ∧
    ∀ returned ∈ final.predictions, returned.tid = training.tid →
      returned.seqNum = training.seqNum →
      (training.taken = returned.predTaken ↔ returned.missed = false) := by
  have sound : Sound final := run.invariant Sound
    (fun sound increasing taken => sound.step _ increasing taken)
    ⟨.nil, fun _ _ member => (nomatch member), fun _ member => (nomatch member)⟩
  obtain ⟨first, isFirst, firstTid, firstNumber, asReturned⟩ :=
    sound.trained training member uncorrected
  refine ⟨⟨first, isFirst, firstTid, firstNumber⟩, fun other isOther otherTid otherNumber => ?_⟩
  have distinct : (final.predictions.map fun returned => (returned.tid, returned.seqNum)).Nodup :=
    pairwise_map.mpr (sound.ordered.imp fun {_ _} later equal =>
      absurd (congrArg Prod.snd equal).symm (Nat.ne_of_lt (later (congrArg Prod.fst equal))))
  have same : other = first := inj_on_of_nodup_map distinct isOther isFirst
    (Prod.ext (otherTid.trans firstTid.symm) (otherNumber.trans firstNumber.symm))
  exact same ▸ asReturned

def conditional : Inst where
  isUncondCtrl := false
  isReturn := false
  isCall := false

/-- Branch 1 misses its target and is corrected to taken. Branch 2 of the same instruction finds
the target and is trained as it was returned. -/
theorem trained_as_returned_iff_after_correction :
    ∃ final, Run (step (oneDirection true)) Increasing (start (oneDirection true) ())
        [.predict conditional 1 8 0, .mispredict 1 64 true 0, .predict conditional 2 8 0,
          .update 2 0] final ∧
      ∃ training ∈ final.unit.trained, training.squashed = false ∧
        (∃ returned ∈ final.predictions,
          returned.tid = training.tid ∧ returned.seqNum = training.seqNum) ∧
        ∀ returned ∈ final.predictions, returned.tid = training.tid →
          returned.seqNum = training.seqNum →
          (training.taken = returned.predTaken ↔ returned.missed = false) := by
  refine Run.exists_checked (fun final => ⟨0, 2, true, false⟩ ∈ final.unit.trained)
    (by decide +kernel) fun _ run member => ?_
  exact ⟨_, member, rfl, trained_as_returned_iff run member rfl⟩

/-- Branch 1 misses its target: fetch is told not taken, and the branch leaves the history
without a correction and trains the predictor with taken. -/
theorem trained_against_returned :
    ∃ final, Run (step (oneDirection true)) Increasing (start (oneDirection true) ())
        [.predict conditional 1 8 0, .update 1 0] final ∧
      ⟨0, 1, true, false⟩ ∈ final.unit.trained ∧
      final.predictions = [⟨0, 1, false, true⟩] := by
  exact Run.exists_check (by decide +kernel)

end TrainingTrace

end Training

end Gem5.Cpu.Pred
