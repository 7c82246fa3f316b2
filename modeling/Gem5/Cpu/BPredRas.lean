/-
This file proves that the squashes of the branch prediction unit bring the top of the return
address stack back. A trace keeps the branches that have been predicted and not squashed, with
the direction they were predicted with or corrected to. The index of the top of the stack is
the one that these branches alone lead to: each record of the history undoes what its branch
did to the index, so the records are undone in the reverse order of the branches.

Two corrections leave the stack out of step. A call that was predicted not taken, or that had
no target, is not pushed when it turns out to be taken. A return that was predicted not taken
is popped when it turns out to be taken, but its record has no index to go back to, and a
squash of the return sets the index to 0.
-/

import Gem5.Cpu.BPredUnit

namespace Gem5.Cpu.Pred

open Library List Function

/-! ### Branches -/

/-- A branch with the direction of its prediction or of its correction, and whether it found a
target. -/
structure Branch where
  seqNum : Nat
  inst : Inst
  taken : Bool
  hit : Bool
deriving DecidableEq, Repr

/-- What a branch does to the top of the stack. -/
inductive Effect where
  | none
  | push
  | pop
deriving DecidableEq, Repr

/-- A return that is taken pops. A call that is taken pushes, unless it is conditional and has
no target. -/
def Branch.effect (branch : Branch) : Effect :=
  if ¬ branch.taken then .none
  else if branch.inst.isReturn then .pop
  else if branch.inst.isCall ∧ (branch.hit ∨ branch.inst.isUncondCtrl) then .push
  else .none

def Effect.apply (numEntries tos : Nat) : Effect → Nat
  | .none => tos
  | .push => incrTos numEntries tos
  | .pop => decrTos numEntries tos

/-- The top index that the branches lead to, the youngest of which comes first. -/
def topIdx (numEntries : Nat) : List Branch → Nat
  | [] => 0
  | branch :: older => branch.effect.apply numEntries (topIdx numEntries older)

theorem decrTos_incrTos (numEntries tos : Nat) :
    decrTos numEntries (incrTos numEntries tos) = tos := by
  rw [incrTos, decrTos]
  split <;> split <;> omega

section Stack

variable {PC State History : Type} {config : Config PC State History}

/-! ### Records -/

/-- What the branch of a record did to the top of the stack. -/
def PredictorHistory.effect (record : PredictorHistory PC History) : Effect :=
  if record.usedRAS then .pop
  else if record.wasCall ∧ record.pushedRAS then .push
  else .none

/-- A return that was predicted not taken has no index of the stack in its record. -/
def PredictorHistory.unindexed (record : PredictorHistory PC History) : Bool :=
  record.wasReturn && !record.predTaken

/-- The record of a branch that was predicted when the top of the stack had the given index. -/
structure Recorded (record : PredictorHistory PC History) (branch : Branch) (tos : Nat) :
    Prop where
  seqNum : record.seqNum = branch.seqNum
  effect : record.effect = branch.effect
  isReturn : record.wasReturn = branch.inst.isReturn
  onlyReturns : record.usedRAS = true → record.wasReturn = true
  noCall : record.wasReturn = true → record.wasCall = false
  indexed : record.wasReturn = true → record.unindexed = false → record.rasIndex = tos

def Follows (numEntries : Nat) : List (PredictorHistory PC History) → List Branch → Prop
  | [], [] => True
  | record :: records, branch :: older =>
    Recorded record branch (topIdx numEntries older) ∧ Follows numEntries records older
  | [], _ :: _ => False
  | _ :: _, [] => False

namespace BPredUnit

variable {record : PredictorHistory PC History} {branch : Branch}

theorem undo_tos {tos : Nat} {ras : ReturnAddrStack PC} (recorded : Recorded record branch tos)
    (isTop : ras.tos = branch.effect.apply config.rasEntries tos)
    (known : record.usedRAS = true → record.unindexed = false) :
    (undo config record ras).tos = tos := by
  rw [← recorded.effect, PredictorHistory.effect] at isTop
  rw [undo]
  split
  · rename_i used
    exact recorded.indexed (recorded.onlyReturns used) (known used)
  · rename_i unused
    rw [if_neg unused] at isTop
    split
    · rename_i pushed
      rw [if_pos pushed] at isTop
      exact (congrArg (decrTos config.rasEntries) isTop).trans (decrTos_incrTos _ _)
    · rename_i notPushed
      rw [if_neg notPushed] at isTop
      exact isTop

/-- The records that a squash undoes have their index, if they have used the stack. -/
def Undoable (squashedSn : Nat) (records : List (PredictorHistory PC History)) : Prop :=
  ∀ record ∈ records, squashedSn < record.seqNum → record.usedRAS = true →
    record.unindexed = false

theorem squashLoop_follows {squashedSn tid : Nat} {records : List (PredictorHistory PC History)}
    {branches : List Branch} {unit : BPredUnit PC State History}
    (follows : Follows config.rasEntries records branches)
    (isTop : (unit.ras tid).tos = topIdx config.rasEntries branches)
    (undoable : Undoable squashedSn records) :
    Follows config.rasEntries (squashLoop config squashedSn tid records unit).1
      (branches.dropWhile fun branch => decide (squashedSn < branch.seqNum)) ∧
    ((squashLoop config squashedSn tid records unit).2.ras tid).tos =
      topIdx config.rasEntries
        (branches.dropWhile fun branch => decide (squashedSn < branch.seqNum)) := by
  induction records generalizing unit branches with
  | nil =>
    cases branches with
    | nil => exact ⟨trivial, isTop⟩
    | cons => exact follows.elim
  | cons record _ hypothesis =>
    cases branches with
    | nil => exact follows.elim
    | cons =>
      rw [squashLoop, dropWhile_cons, follows.1.seqNum]
      split
      · rename_i above
        rw [if_pos (decide_eq_true above)]
        refine hypothesis follows.2 ?_ fun other isOther =>
          undoable other (mem_cons_of_mem record isOther)
        dsimp only
        rw [update_self]
        refine undo_tos follows.1 isTop (undoable record mem_cons_self ?_)
        rw [follows.1.seqNum]
        exact above
      · rename_i notAbove
        rw [if_neg fun above => notAbove (of_decide_eq_true above)]
        exact ⟨follows, isTop⟩

/-! ### Predictions -/

theorem prediction_follows (config : Config PC State History) (unit : BPredUnit PC State History)
    (inst : Inst) (seqNum : Nat) (pc : PC) (tid : Nat)
    (isBranch : branch = {
      seqNum, inst
      taken := (direct config unit.direction inst (config.isa.instAddr pc)).1
      hit := unit.btb.valid config (config.isa.instAddr pc) tid }) :
    Recorded (unit.prediction config inst seqNum pc tid).record branch (unit.ras tid).tos ∧
      (unit.prediction config inst seqNum pc tid).ras.tos =
        branch.effect.apply config.rasEntries (unit.ras tid).tos := by
  subst isBranch
  dsimp only [prediction]
  generalize direct config unit.direction inst (config.isa.instAddr pc) = directed
  obtain ⟨predTaken, _⟩ := directed
  obtain ⟨isUncondCtrl, isReturn, isCall⟩ := inst
  cases predTaken with
  | false =>
    cases isReturn with
    | false => exact ⟨⟨rfl, rfl, rfl, nofun, nofun, nofun⟩, rfl⟩
    | true => exact ⟨⟨rfl, rfl, rfl, nofun, fun _ => rfl, nofun⟩, rfl⟩
  | true =>
    cases isReturn with
    | true => exact ⟨⟨rfl, rfl, rfl, fun _ => rfl, fun _ => rfl, fun _ _ => rfl⟩, rfl⟩
    | false =>
      simp only [if_true, Bool.false_eq_true, if_false, predictTarget, pushCall]
      cases isCall with
      | false =>
        cases unit.btb.valid config (config.isa.instAddr pc) tid <;>
          exact ⟨⟨rfl, rfl, rfl, nofun, nofun, nofun⟩, rfl⟩
      | true =>
        cases unit.btb.valid config (config.isa.instAddr pc) tid with
        | true => exact ⟨⟨rfl, rfl, rfl, nofun, nofun, nofun⟩, rfl⟩
        | false =>
          cases isUncondCtrl with
          | true => exact ⟨⟨rfl, rfl, rfl, nofun, nofun, nofun⟩, rfl⟩
          | false => exact ⟨⟨rfl, rfl, rfl, nofun, nofun, nofun⟩, decrTos_incrTos _ _⟩

/-! ### Corrections -/

/-- The branch with its actual direction, for which a target is known. -/
def corrected (actuallyTaken : Bool) (branch : Branch) : Branch :=
  { branch with taken := actuallyTaken, hit := true }

/-- A call that turns out to be taken has been pushed, and a return that turns out to be not
taken has its index. -/
def Correctable (actuallyTaken : Bool) (record : PredictorHistory PC History) (branch : Branch) :
    Prop :=
  if actuallyTaken then
    branch.inst.isReturn = false → branch.inst.isCall = true → branch.effect = .push
  else record.usedRAS = true → record.unindexed = false
deriving Decidable

theorem not_pushed_of_isReturn {tos : Nat}
    (recorded : Recorded record branch tos) (isReturn : record.wasReturn = true) :
    ¬ (record.wasCall = true ∧ record.pushedRAS = true) := by
  rw [recorded.noCall isReturn]
  exact fun pushed => Bool.false_ne_true pushed.1

theorem correct_follows (config : Config PC State History) {actuallyTaken : Bool} {tos : Nat}
    {ras : ReturnAddrStack PC} (recorded : Recorded record branch tos)
    (isTop : ras.tos = branch.effect.apply config.rasEntries tos)
    (correctable : Correctable actuallyTaken record branch) :
    Recorded (correct config actuallyTaken record ras).1 (corrected actuallyTaken branch) tos ∧
      (correct config actuallyTaken record ras).2.tos =
        (corrected actuallyTaken branch).effect.apply config.rasEntries tos := by
  cases actuallyTaken with
  | true =>
    have takenEffect : (corrected true branch).effect =
        if branch.inst.isReturn then .pop else if branch.inst.isCall then .push else .none := by
      simp only [corrected, Branch.effect, not_true_eq_false, if_false, true_or, and_true]
    cases isReturn : record.wasReturn with
    | true =>
      rw [recorded.isReturn.symm.trans isReturn, if_pos rfl] at takenEffect
      have before : record.effect = if record.usedRAS then .pop else .none := by
        rw [PredictorHistory.effect, if_neg (not_pushed_of_isReturn recorded isReturn)]
      rw [correct, if_pos rfl]
      cases used : record.usedRAS with
      | true =>
        rw [used, if_pos rfl] at before
        rw [if_neg fun unused => unused.2 rfl]
        have same : (corrected true branch).effect = branch.effect :=
          takenEffect.trans (before.symm.trans recorded.effect)
        exact ⟨{ recorded with effect := recorded.effect.trans same.symm }, same ▸ isTop⟩
      | false =>
        rw [used, if_neg Bool.false_ne_true] at before
        rw [if_pos ⟨isReturn, Bool.false_ne_true⟩, takenEffect]
        rw [← recorded.effect, before] at isTop
        refine ⟨{ recorded with effect := ?_, onlyReturns := fun _ => isReturn },
          congrArg (decrTos config.rasEntries) isTop⟩
        rw [takenEffect, PredictorHistory.effect, if_pos rfl]
    | false =>
      rw [recorded.isReturn.symm.trans isReturn, if_neg Bool.false_ne_true] at takenEffect
      rw [correct, if_pos rfl, if_neg fun late => Bool.false_ne_true (isReturn ▸ late.1)]
      have same : (corrected true branch).effect = branch.effect := by
        rw [takenEffect]
        cases isCall : branch.inst.isCall with
        | true => exact (correctable (recorded.isReturn.symm.trans isReturn) isCall).symm
        | false =>
          simp only [Branch.effect, recorded.isReturn.symm.trans isReturn, isCall,
            Bool.false_eq_true, false_and, if_false, ite_self]
      exact ⟨{ recorded with effect := recorded.effect.trans same.symm }, same ▸ isTop⟩
  | false =>
    have takenEffect : (corrected false branch).effect = .none := rfl
    have undone := undo_tos recorded isTop correctable
    rw [undo] at undone
    rw [correct, if_neg Bool.false_ne_true, takenEffect]
    split
    · rename_i used
      rw [if_pos used] at undone
      refine ⟨{ recorded with effect := ?_, onlyReturns := nofun }, undone⟩
      have notPushed := not_pushed_of_isReturn recorded (recorded.onlyReturns used)
      rw [takenEffect, PredictorHistory.effect, if_neg Bool.false_ne_true, if_neg notPushed]
    · rename_i unused
      rw [if_neg unused] at undone
      split
      · rename_i pushed
        rw [if_pos pushed] at undone
        refine ⟨{ recorded with effect := ?_ }, undone⟩
        rw [takenEffect, PredictorHistory.effect, if_neg unused,
          if_neg fun still => Bool.false_ne_true still.2]
      · rename_i notPushed
        rw [if_neg notPushed] at undone
        refine ⟨{ recorded with effect := ?_ }, undone⟩
        rw [takenEffect, PredictorHistory.effect, if_neg unused, if_neg notPushed]

end BPredUnit

/-! ### Traces -/

/-- The unit, with the branches of each thread that have been predicted and not squashed, the
youngest first. -/
structure RasTrace (PC State History : Type) where
  unit : BPredUnit PC State History
  branches : Nat → List Branch

namespace RasTrace

def start (config : Config PC State History) (direction : State) : RasTrace PC State History where
  unit := .init config direction
  branches _ := []

/-- The branches with a sequence number up to that of a squash. -/
def upTo (squashedSn : Nat) (branches : List Branch) : List Branch :=
  branches.filter fun branch => branch.seqNum ≤ squashedSn

/-- The branches of the thread that makes a call, after the call. -/
def follow (config : Config PC State History) (unit : BPredUnit PC State History)
    (branches : Nat → List Branch) : Call PC → Nat → List Branch
  | .predict inst seqNum pc tid =>
    update branches tid ({
      seqNum, inst
      taken := (BPredUnit.direct config unit.direction inst (config.isa.instAddr pc)).1
      hit := unit.btb.valid config (config.isa.instAddr pc) tid } :: branches tid)
  | .update _ _ => branches
  | .squash squashedSn tid => update branches tid (upTo squashedSn (branches tid))
  | .mispredict squashedSn _ actuallyTaken tid =>
    update branches tid ((upTo squashedSn (branches tid)).map fun branch =>
      if branch.seqNum = squashedSn then BPredUnit.corrected actuallyTaken branch else branch)

def step (config : Config PC State History) (trace : RasTrace PC State History)
    (call : Call PC) : Except Fault (RasTrace PC State History) := do
  let unit ← trace.unit.step config call
  return { unit, branches := follow config trace.unit trace.branches call }

/-- Branches are predicted in the order of their sequence numbers. -/
def InOrder (trace : RasTrace PC State History) : Call PC → Prop
  | .predict _ seqNum _ tid => ∀ branch ∈ trace.branches tid, branch.seqNum < seqNum
  | .update _ _ => False
  | .squash _ _ => True
  | .mispredict _ _ _ _ => True

/-- No squash undoes a return that was predicted not taken and corrected to taken, and no call
is corrected to taken that has not been pushed. -/
def Undoes (trace : RasTrace PC State History) : Call PC → Prop
  | .predict _ _ _ _ => True
  | .update _ _ => True
  | .squash squashedSn tid => BPredUnit.Undoable squashedSn (trace.unit.predHist tid)
  | .mispredict squashedSn _ actuallyTaken tid =>
    BPredUnit.Undoable squashedSn (trace.unit.predHist tid) ∧
      ∀ record ∈ trace.unit.predHist tid, ∀ branch ∈ trace.branches tid,
        record.seqNum = squashedSn → branch.seqNum = squashedSn →
        BPredUnit.Correctable actuallyTaken record branch

def Guard (trace : RasTrace PC State History) (call : Call PC) : Prop :=
  trace.InOrder call ∧ trace.Undoes call

instance (squashedSn : Nat) (records : List (PredictorHistory PC History)) :
    Decidable (BPredUnit.Undoable squashedSn records) :=
  inferInstanceAs (Decidable (∀ record ∈ records, _))

instance (trace : RasTrace PC State History) : (call : Call PC) → Decidable (trace.InOrder call)
  | .predict .. => inferInstanceAs (Decidable (∀ _ ∈ _, _ < _))
  | .update .. => .isFalse id
  | .squash .. | .mispredict .. => .isTrue trivial

instance (trace : RasTrace PC State History) : (call : Call PC) → Decidable (trace.Undoes call)
  | .predict .. | .update .. => .isTrue trivial
  | .squash .. => inferInstanceAs (Decidable (BPredUnit.Undoable _ _))
  | .mispredict .. => inferInstanceAs (Decidable (_ ∧ ∀ _ ∈ _, ∀ _ ∈ _, _ → _ → _))

instance (trace : RasTrace PC State History) (call : Call PC) : Decidable (trace.Guard call) :=
  inferInstanceAs (Decidable (_ ∧ _))

/-- The history of a thread follows its branches, and so does the top of its stack. -/
structure ThreadSound (config : Config PC State History) (unit : BPredUnit PC State History)
    (tid : Nat) (branches : List Branch) : Prop where
  descending : branches.Pairwise fun later earlier => earlier.seqNum < later.seqNum
  follows : Follows config.rasEntries (unit.predHist tid) branches
  top : (unit.ras tid).tos = topIdx config.rasEntries branches

theorem dropWhile_eq_upTo {squashedSn : Nat} {branches : List Branch}
    (descending : branches.Pairwise fun later earlier => earlier.seqNum < later.seqNum) :
    (branches.dropWhile fun branch => decide (squashedSn < branch.seqNum)) =
      upTo squashedSn branches := by
  induction branches with
  | nil => rfl
  | cons branch _ hypothesis =>
    obtain ⟨below, descendingOlder⟩ := pairwise_cons.mp descending
    rw [dropWhile_cons]
    by_cases above : squashedSn < branch.seqNum
    · rw [if_pos (decide_eq_true above), hypothesis descendingOlder, upTo, upTo,
        filter_cons_of_neg]
      exact fun low => Nat.not_le.mpr above (of_decide_eq_true low)
    · rw [if_neg fun isAbove => above (of_decide_eq_true isAbove), upTo, filter_eq_self.mpr]
      intro other isOther
      refine decide_eq_true ?_
      obtain rfl | isOlder := mem_cons.mp isOther
      · exact Nat.not_lt.mp above
      · exact Nat.le_trans (Nat.le_of_lt (below other isOlder)) (Nat.not_lt.mp above)

namespace ThreadSound

variable {unit : BPredUnit PC State History} {tid : Nat} {branches : List Branch}

section

variable (sound : ThreadSound config unit tid branches)
include sound

theorem other {next : BPredUnit PC State History}
    (samePredHist : next.predHist tid = unit.predHist tid) (sameRas : next.ras tid = unit.ras tid) :
    ThreadSound config next tid branches where
  descending := sound.descending
  follows := samePredHist ▸ sound.follows
  top := sameRas ▸ sound.top

theorem squash {squashedSn : Nat} (undoable : BPredUnit.Undoable squashedSn (unit.predHist tid)) :
    ThreadSound config (unit.squash config squashedSn tid) tid (upTo squashedSn branches) := by
  obtain ⟨follows, top⟩ := BPredUnit.squashLoop_follows sound.follows sound.top undoable
  rw [dropWhile_eq_upTo sound.descending] at follows top
  refine ⟨List.Pairwise.filter _ sound.descending, ?_, top⟩
  dsimp only [BPredUnit.squash]
  rw [update_self]
  exact follows

theorem fixFront {squashedSn : Nat}
    {corrTarget : PC} {actuallyTaken : Bool} {record : PredictorHistory PC History}
    {rest : List (PredictorHistory PC History)} (isHist : unit.predHist tid = record :: rest)
    (isFront : record.seqNum = squashedSn)
    (correctable : ∀ branch ∈ branches, branch.seqNum = squashedSn →
      BPredUnit.Correctable actuallyTaken record branch) :
    ThreadSound config (unit.fixFront config corrTarget actuallyTaken tid record rest) tid
      (branches.map fun branch => if branch.seqNum = squashedSn then
        BPredUnit.corrected actuallyTaken branch else branch) := by
  obtain ⟨descending, follows, top⟩ := sound
  rw [isHist] at follows
  cases branches with
  | nil => exact follows.elim
  | cons branch older =>
    obtain ⟨below, descendingOlder⟩ := pairwise_cons.mp descending
    have isBranch : branch.seqNum = squashedSn := follows.1.seqNum.symm.trans isFront
    have sameOlder : (older.map fun other => if other.seqNum = squashedSn then
        BPredUnit.corrected actuallyTaken other else other) = older := by
      refine (map_congr_left fun other isOlder => ?_).trans (map_id older)
      exact if_neg (Nat.ne_of_lt (isBranch ▸ below other isOlder))
    rw [map_cons, sameOlder, if_pos isBranch]
    have recorded : Recorded { record with
        wasSquashed := true
        bpHistory := (config.predictor.update unit.direction record.pc actuallyTaken
          record.bpHistory true).1 } branch (topIdx config.rasEntries older) :=
      { follows.1 with }
    obtain ⟨nowRecorded, nowTop⟩ := BPredUnit.correct_follows config recorded top
      (correctable branch mem_cons_self isBranch)
    refine ⟨pairwise_cons.mpr ⟨below, descendingOlder⟩, ?_, ?_⟩
    · dsimp only [BPredUnit.fixFront, BPredUnit.train]
      rw [update_self]
      exact ⟨nowRecorded, follows.2⟩
    · dsimp only [BPredUnit.fixFront, BPredUnit.train]
      rw [update_self]
      exact nowTop

theorem predict {inst : Inst} {seqNum : Nat}
    {pc : PC} (youngest : ∀ branch ∈ branches, branch.seqNum < seqNum) :
    ThreadSound config (unit.predict config inst seqNum pc tid).2.2 tid ({
      seqNum, inst
      taken := (BPredUnit.direct config unit.direction inst (config.isa.instAddr pc)).1
      hit := unit.btb.valid config (config.isa.instAddr pc) tid } :: branches) := by
  obtain ⟨recorded, top⟩ :=
    BPredUnit.prediction_follows config unit inst seqNum pc tid rfl
  rw [sound.top] at recorded top
  refine ⟨pairwise_cons.mpr ⟨youngest, sound.descending⟩, ?_, ?_⟩
  · dsimp only [BPredUnit.predict]
    rw [update_self]
    exact ⟨recorded, sound.follows⟩
  · dsimp only [BPredUnit.predict]
    rw [update_self]
    exact top

end

end ThreadSound

/-- Every thread is sound. -/
def Sound (config : Config PC State History) (trace : RasTrace PC State History) : Prop :=
  ∀ tid, ThreadSound config trace.unit tid (trace.branches tid)

theorem Sound.change {trace : RasTrace PC State History} (sound : Sound config trace)
    {next : BPredUnit PC State History} {tid : Nat} {branches : List Branch}
    (own : ThreadSound config next tid branches)
    (others : ∀ other, other ≠ tid → next.predHist other = trace.unit.predHist other ∧
      next.ras other = trace.unit.ras other) :
    Sound config ⟨next, update trace.branches tid branches⟩ := by
  intro other
  by_cases same : other = tid
  · subst same
    dsimp only
    rw [update_self]
    exact own
  · dsimp only
    rw [update_of_ne same]
    exact (sound other).other (others other same).1 (others other same).2

theorem squash_others (config : Config PC State History) (unit : BPredUnit PC State History)
    (squashedSn : Nat) {tid other : Nat} (different : other ≠ tid) :
    (unit.squash config squashedSn tid).predHist other = unit.predHist other ∧
      (unit.squash config squashedSn tid).ras other = unit.ras other := by
  rw [BPredUnit.squash_predHist, update_of_ne different]
  exact ⟨rfl, (BPredUnit.squashLoop_frame _ _ _ _).2.2 other different⟩

theorem Sound.step {trace next : RasTrace PC State History} (call : Call PC)
    (sound : Sound config trace) (meets : trace.Guard call)
    (taken : trace.step config call = .ok next) : Sound config next := by
  obtain ⟨_, changed, rfl⟩ := map_eq_ok taken
  cases call with
  | predict _ _ _ tid =>
    cases changed
    refine sound.change ((sound tid).predict meets.1) fun other different => ?_
    exact ⟨update_of_ne different _ _, update_of_ne different _ _⟩
  | update => exact meets.1.elim
  | squash squashedSn tid =>
    cases changed
    exact sound.change ((sound tid).squash meets.2) fun other different =>
      squash_others config trace.unit squashedSn different
  | mispredict squashedSn _ _ tid =>
    have squashed := (sound tid).squash meets.2.1
    obtain ⟨rfl, isEmpty⟩ | ⟨record, _, isHist, isFront, rfl⟩ :=
      BPredUnit.squashMispredicted_cases changed
    · refine sound.change ?_ fun other different =>
        squash_others config trace.unit squashedSn different
      have none : upTo squashedSn (trace.branches tid) = [] := by
        have follows := squashed.follows
        rw [isEmpty] at follows
        cases remaining : upTo squashedSn (trace.branches tid) with
        | nil => rfl
        | cons =>
          rw [remaining] at follows
          exact follows.elim
      rw [none] at squashed ⊢
      exact squashed
    · refine sound.change (squashed.fixFront isHist isFront fun branch isBranch sameNumber => ?_)
        fun other different => ?_
      · have isRecord : record ∈ trace.unit.predHist tid := by
          rw [BPredUnit.squash_predHist, update_self] at isHist
          exact (dropWhile_suffix _).subset (isHist ▸ mem_cons_self)
        exact meets.2.2 record isRecord branch (mem_of_mem_filter isBranch) isFront sameNumber
      · obtain ⟨samePredHist, sameRas⟩ :=
          squash_others config trace.unit squashedSn different
        exact ⟨(update_of_ne different _ _).trans samePredHist,
          (update_of_ne different _ _).trans sameRas⟩

/-- After predictions, squashes and mispredict squashes, the top of the stack of a thread has
the index that the branches of the thread that were not squashed lead to. -/
theorem top_of_remaining {direction : State} {calls : List (Call PC)}
    {final : RasTrace PC State History}
    (run : Run (step config) Guard (start config direction) calls final) (tid : Nat) :
    (final.unit.ras tid).tos = topIdx config.rasEntries (final.branches tid) := by
  have sound : Sound config final := run.invariant (Sound config)
    (Sound.step _) (fun _ => ⟨.nil, trivial, rfl⟩)
  exact (sound tid).top

def call : Inst where
  isUncondCtrl := true
  isReturn := false
  isCall := true

def conditionalReturn : Inst where
  isUncondCtrl := false
  isReturn := true
  isCall := false

def unconditionalReturn : Inst where
  isUncondCtrl := true
  isReturn := true
  isCall := false

/-- Two calls, a return that turns out to be not taken, and a squash of everything after the
first call. -/
theorem top_of_remaining_nested_calls :
    ∃ final, Run (step (oneDirection false)) Guard (start (oneDirection false) ())
        [.predict call 1 8 0, .predict call 2 16 0, .predict unconditionalReturn 3 24 0,
          .mispredict 3 28 false 0, .predict conditionalReturn 4 32 0, .squash 1 0] final ∧
      (final.unit.ras 0).tos = topIdx 4 (final.branches 0) := by
  exact Run.exists_checked (fun final => (final.branches 0).length = 1)
    (by decide +kernel) fun _ run _ => top_of_remaining run 0

/-- A return after a call is predicted not taken and corrected to taken. The squash to the call
sets the top index to 0, where the call alone leads to 1. And a conditional call that is
corrected to taken is not pushed. -/
theorem top_not_of_remaining :
    (∃ final, Run (step (oneDirection false)) InOrder (start (oneDirection false) ())
        [.predict call 1 8 0, .predict conditionalReturn 2 16 0, .mispredict 2 12 true 0,
          .squash 1 0] final ∧
      (final.unit.ras 0).tos = 0 ∧ topIdx 4 (final.branches 0) = 1) ∧
    ∃ final, Run (step (oneDirection false)) InOrder (start (oneDirection false) ())
        [.predict { call with isUncondCtrl := false } 1 8 0, .mispredict 1 64 true 0] final ∧
      (final.unit.ras 0).tos = 0 ∧ topIdx 4 (final.branches 0) = 1 := by
  constructor
  · exact Run.exists_check (by decide +kernel)
  · exact Run.exists_check (by decide +kernel)

end RasTrace

end Stack

end Gem5.Cpu.Pred
