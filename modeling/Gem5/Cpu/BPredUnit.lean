/-
This file models the branch prediction unit: the return address stacks and the prediction
histories of the threads, the branch target buffer, and the calls of the direction predictor.
The direction predictor is a virtual interface of the unit, and the model takes any one. The
unit keeps the calls that train the direction predictor together with the branch they are for.
-/

import Gem5.Library.Run
import Mathlib

namespace Gem5.Cpu.Pred

open Function

inductive Fault where
  | frontNumber
deriving DecidableEq, Repr

/-- What the unit asks of a branch instruction. -/
structure Inst where
  isUncondCtrl : Bool
  isReturn : Bool
  isCall : Bool
deriving DecidableEq, Repr

/-- The program counters of the instruction set. -/
structure Isa (PC : Type) where
  zero : PC
  instAddr : PC → Nat
  buildRetPC : PC → PC → PC
  advancePC : PC → Inst → PC

/-- The virtual functions of the unit. Those that take the history of a branch by reference
return it changed. -/
structure DirectionPredictor (State History : Type) where
  lookup : State → Nat → Bool × History × State
  uncondBranch : State → Nat → History × State
  btbUpdate : State → Nat → History → History × State
  update : State → Nat → Bool → History → Bool → History × State
  retireSquashed : State → History → State
  squash : State → History → State

structure Config (PC State History : Type) where
  isa : Isa PC
  predictor : DirectionPredictor State History
  btbEntries : Nat
  btbTagBits : Nat
  instShiftAmt : Nat
  rasEntries : Nat
  rasEntries_pos : 0 < rasEntries

section Model

variable {PC State History : Type}

/-! ### The return address stack -/

structure ReturnAddrStack (PC : Type) where
  addrStack : Nat → PC
  usedEntries : Nat
  tos : Nat

/-- The index above an index of the stack. -/
def incrTos (numEntries tos : Nat) : Nat :=
  if tos + 1 = numEntries then 0 else tos + 1

/-- The index below an index of the stack. -/
def decrTos (numEntries tos : Nat) : Nat :=
  if tos = 0 then numEntries - 1 else tos - 1

namespace ReturnAddrStack

def reset (config : Config PC State History) : ReturnAddrStack PC where
  addrStack _ := config.isa.zero
  usedEntries := 0
  tos := 0

def top (ras : ReturnAddrStack PC) : PC :=
  ras.addrStack ras.tos

def push (config : Config PC State History) (returnAddr : PC) (ras : ReturnAddrStack PC) :
    ReturnAddrStack PC :=
  let tos := incrTos config.rasEntries ras.tos
  { addrStack := update ras.addrStack tos returnAddr
    usedEntries :=
      if ras.usedEntries ≠ config.rasEntries then ras.usedEntries + 1 else ras.usedEntries
    tos }

def pop (config : Config PC State History) (ras : ReturnAddrStack PC) : ReturnAddrStack PC :=
  { ras with usedEntries := ras.usedEntries - 1, tos := decrTos config.rasEntries ras.tos }

def restore (topEntryIdx : Nat) (restored : PC) (ras : ReturnAddrStack PC) : ReturnAddrStack PC :=
  { ras with tos := topEntryIdx, addrStack := update ras.addrStack topEntryIdx restored }

end ReturnAddrStack

/-! ### The branch target buffer -/

structure BTBEntry (PC : Type) where
  tag : Nat
  target : PC
  tid : Nat
  valid : Bool

/-- The entries of the branch target buffer. -/
def BTB (PC : Type) : Type := Nat → BTBEntry PC

namespace BTB

def getIndex (config : Config PC State History) (instPC : Nat) : Nat :=
  (instPC >>> config.instShiftAmt) &&& (config.btbEntries - 1)

def getTag (config : Config PC State History) (instPC : Nat) : Nat :=
  (instPC >>> (config.instShiftAmt + Nat.log2 config.btbEntries)) &&& (2 ^ config.btbTagBits - 1)

def valid (config : Config PC State History) (btb : BTB PC) (instPC tid : Nat) : Bool :=
  let entry := btb (getIndex config instPC)
  entry.valid && decide (getTag config instPC = entry.tag) && decide (entry.tid = tid)

def lookup (config : Config PC State History) (btb : BTB PC) (instPC tid : Nat) : PC :=
  if btb.valid config instPC tid then (btb (getIndex config instPC)).target else config.isa.zero

def update (config : Config PC State History) (btb : BTB PC) (instPC : Nat) (target : PC)
    (tid : Nat) : BTB PC :=
  Function.update (show Nat → BTBEntry PC from btb) (getIndex config instPC)
    { tag := getTag config instPC, target, tid, valid := true }

end BTB

/-! ### The unit -/

structure PredictorHistory (PC History : Type) where
  seqNum : Nat
  pc : Nat
  bpHistory : History
  rasTarget : PC
  rasIndex : Nat
  predTaken : Bool
  usedRAS : Bool
  pushedRAS : Bool
  wasCall : Bool
  wasReturn : Bool
  wasSquashed : Bool

/-- A call of the direction predictor's update, with the branch it is for. -/
structure Training where
  tid : Nat
  seqNum : Nat
  taken : Bool
  squashed : Bool
deriving DecidableEq, Repr

/-- The unit. The history of a thread has its youngest branch first. -/
structure BPredUnit (PC State History : Type) where
  predHist : Nat → List (PredictorHistory PC History)
  btb : BTB PC
  ras : Nat → ReturnAddrStack PC
  direction : State
  trained : List Training

namespace BPredUnit

def init (config : Config PC State History) (direction : State) : BPredUnit PC State History where
  predHist _ := []
  btb _ := { tag := 0, target := config.isa.zero, tid := 0, valid := false }
  ras _ := .reset config
  direction := direction
  trained := []

/-- The direction of a branch, before its target is looked up. -/
def direct (config : Config PC State History) (direction : State) (inst : Inst) (instAddr : Nat) :
    Bool × History × State :=
  if inst.isUncondCtrl then (true, config.predictor.uncondBranch direction instAddr)
  else config.predictor.lookup direction instAddr

/-- What a prediction returns and changes: the direction and the target for fetch, the record
for the history, the stack of the thread and the direction predictor. -/
structure Prediction (PC State History : Type) where
  predTaken : Bool
  target : PC
  record : PredictorHistory PC History
  ras : ReturnAddrStack PC
  direction : State

def predictReturn (config : Config PC State History) (pc : PC)
    (record : PredictorHistory PC History) (ras : ReturnAddrStack PC) (direction : State) :
    Prediction PC State History where
  predTaken := true
  target := config.isa.buildRetPC pc ras.top
  record := { record with
    wasReturn := true
    usedRAS := true
    rasIndex := ras.tos
    rasTarget := ras.top }
  ras := ras.pop config
  direction := direction

def pushCall (config : Config PC State History) (inst : Inst) (pc : PC)
    (record : PredictorHistory PC History) (ras : ReturnAddrStack PC) :
    PredictorHistory PC History × ReturnAddrStack PC :=
  if inst.isCall then ({ record with pushedRAS := true, wasCall := true }, ras.push config pc)
  else (record, ras)

/-- A branch without a target is predicted not taken after all. The record keeps the direction
it was made with. -/
def predictMissed (config : Config PC State History) (inst : Inst) (pc : PC)
    (record : PredictorHistory PC History) (ras : ReturnAddrStack PC) (direction : State) :
    Prediction PC State History :=
  let target := config.isa.advancePC pc inst
  if ¬ inst.isCall ∧ ¬ inst.isReturn then
    let (bpHistory, direction) :=
      config.predictor.btbUpdate direction (config.isa.instAddr pc) record.bpHistory
    { predTaken := false, target, record := { record with bpHistory }, ras, direction }
  else if inst.isCall ∧ ¬ inst.isUncondCtrl then
    { predTaken := false, target, record := { record with pushedRAS := false }
      ras := ras.pop config, direction }
  else { predTaken := false, target, record, ras, direction }

/-- A branch that is predicted taken and is no return takes its target from the buffer. -/
def predictTarget (config : Config PC State History) (btb : BTB PC) (inst : Inst) (pc : PC)
    (tid : Nat) (record : PredictorHistory PC History) (ras : ReturnAddrStack PC)
    (direction : State) : Prediction PC State History :=
  let (record, ras) := pushCall config inst pc record ras
  if btb.valid config (config.isa.instAddr pc) tid then
    { predTaken := true, target := btb.lookup config (config.isa.instAddr pc) tid, record, ras
      direction }
  else predictMissed config inst pc record ras direction

def predictNotTaken (config : Config PC State History) (inst : Inst) (pc : PC)
    (record : PredictorHistory PC History) (ras : ReturnAddrStack PC) (direction : State) :
    Prediction PC State History where
  predTaken := false
  target := config.isa.advancePC pc inst
  record := if inst.isReturn then { record with wasReturn := true } else record
  ras := ras
  direction := direction

/-- The record of a branch when it is made. -/
def newRecord (config : Config PC State History) (seqNum pc : Nat) (predTaken : Bool)
    (bpHistory : History) : PredictorHistory PC History where
  seqNum := seqNum
  pc := pc
  bpHistory := bpHistory
  rasTarget := config.isa.zero
  rasIndex := 0
  predTaken := predTaken
  usedRAS := false
  pushedRAS := false
  wasCall := false
  wasReturn := false
  wasSquashed := false

def prediction (config : Config PC State History) (unit : BPredUnit PC State History) (inst : Inst)
    (seqNum : Nat) (pc : PC) (tid : Nat) : Prediction PC State History :=
  let (predTaken, bpHistory, direction) :=
    direct config unit.direction inst (config.isa.instAddr pc)
  let record := newRecord config seqNum (config.isa.instAddr pc) predTaken bpHistory
  if predTaken then
    if inst.isReturn then predictReturn config pc record (unit.ras tid) direction
    else predictTarget config unit.btb inst pc tid record (unit.ras tid) direction
  else predictNotTaken config inst pc record (unit.ras tid) direction

/-- A prediction: the direction and the target that fetch gets, and the unit after it. -/
def predict (config : Config PC State History) (unit : BPredUnit PC State History) (inst : Inst)
    (seqNum : Nat) (pc : PC) (tid : Nat) : Bool × PC × BPredUnit PC State History :=
  let made := unit.prediction config inst seqNum pc tid
  (made.predTaken, made.target,
    { unit with
      predHist := update unit.predHist tid (made.record :: unit.predHist tid)
      ras := update unit.ras tid made.ras
      direction := made.direction })

/-- The direction predictor's update is called for a branch. -/
def train (config : Config PC State History) (tid : Nat) (record : PredictorHistory PC History)
    (taken squashed : Bool) (unit : BPredUnit PC State History) :
    History × BPredUnit PC State History :=
  let (bpHistory, direction) :=
    config.predictor.update unit.direction record.pc taken record.bpHistory squashed
  (bpHistory, { unit with
    direction
    trained := { tid, seqNum := record.seqNum, taken, squashed } :: unit.trained })

/-- The oldest branch of the history is done. -/
def commit (config : Config PC State History) (tid : Nat) (record : PredictorHistory PC History)
    (unit : BPredUnit PC State History) : BPredUnit PC State History :=
  if ¬ record.wasSquashed then (unit.train config tid record record.predTaken false).2
  else { unit with direction := config.predictor.retireSquashed unit.direction record.bpHistory }

/-- The loop of an update, over the history from its oldest branch on. -/
def updateLoop (config : Config PC State History) (doneSn tid : Nat) :
    List (PredictorHistory PC History) → BPredUnit PC State History →
      List (PredictorHistory PC History) × BPredUnit PC State History
  | [], unit => ([], unit)
  | record :: rest, unit =>
    if record.seqNum ≤ doneSn then
      updateLoop config doneSn tid rest (unit.commit config tid record)
    else (record :: rest, unit)

def update (config : Config PC State History) (doneSn tid : Nat)
    (unit : BPredUnit PC State History) : BPredUnit PC State History :=
  let (remaining, unit) := updateLoop config doneSn tid (unit.predHist tid).reverse unit
  { unit with predHist := Function.update unit.predHist tid remaining.reverse }

/-- A record undoes what its branch did to the stack. -/
def undo (config : Config PC State History) (record : PredictorHistory PC History)
    (ras : ReturnAddrStack PC) : ReturnAddrStack PC :=
  if record.usedRAS then ras.restore record.rasIndex record.rasTarget
  else if record.wasCall ∧ record.pushedRAS then ras.pop config
  else ras

/-- The loop of a squash, over the history from its youngest branch on. -/
def squashLoop (config : Config PC State History) (squashedSn tid : Nat) :
    List (PredictorHistory PC History) → BPredUnit PC State History →
      List (PredictorHistory PC History) × BPredUnit PC State History
  | [], unit => ([], unit)
  | record :: rest, unit =>
    if squashedSn < record.seqNum then
      squashLoop config squashedSn tid rest { unit with
        ras := Function.update unit.ras tid (undo config record (unit.ras tid))
        direction := config.predictor.squash unit.direction record.bpHistory }
    else (record :: rest, unit)

def squash (config : Config PC State History) (squashedSn tid : Nat)
    (unit : BPredUnit PC State History) : BPredUnit PC State History :=
  let (remaining, unit) := squashLoop config squashedSn tid (unit.predHist tid) unit
  { unit with predHist := Function.update unit.predHist tid remaining }

/-- The record of a mispredicted branch and the stack are set to its actual direction. -/
def correct (config : Config PC State History) (actuallyTaken : Bool)
    (record : PredictorHistory PC History) (ras : ReturnAddrStack PC) :
    PredictorHistory PC History × ReturnAddrStack PC :=
  if actuallyTaken then
    if record.wasReturn ∧ ¬ record.usedRAS then ({ record with usedRAS := true }, ras.pop config)
    else (record, ras)
  else if record.usedRAS then
    ({ record with usedRAS := false }, ras.restore record.rasIndex record.rasTarget)
  else if record.wasCall ∧ record.pushedRAS then
    ({ record with pushedRAS := false }, ras.pop config)
  else (record, ras)

/-- The front of the history is the mispredicted branch. -/
def fixFront (config : Config PC State History) (corrTarget : PC) (actuallyTaken : Bool)
    (tid : Nat) (record : PredictorHistory PC History) (rest : List (PredictorHistory PC History))
    (unit : BPredUnit PC State History) : BPredUnit PC State History :=
  let (bpHistory, unit) := unit.train config tid record actuallyTaken true
  let (record, ras) := correct config actuallyTaken
    { record with wasSquashed := true, bpHistory } (unit.ras tid)
  { unit with
    predHist := Function.update unit.predHist tid (record :: rest)
    ras := Function.update unit.ras tid ras
    btb := if actuallyTaken then unit.btb.update config record.pc corrTarget tid else unit.btb }

def squashMispredicted (config : Config PC State History) (squashedSn : Nat) (corrTarget : PC)
    (actuallyTaken : Bool) (tid : Nat) (unit : BPredUnit PC State History) :
    Except Fault (BPredUnit PC State History) :=
  let unit := unit.squash config squashedSn tid
  match unit.predHist tid with
  | [] => .ok unit
  | record :: rest =>
    if record.seqNum ≠ squashedSn then .error .frontNumber
    else .ok (unit.fixFront config corrTarget actuallyTaken tid record rest)

end BPredUnit

inductive Call (PC : Type) where
  | predict (inst : Inst) (seqNum : Nat) (pc : PC) (tid : Nat)
  | update (doneSn tid : Nat)
  | squash (squashedSn tid : Nat)
  | mispredict (squashedSn : Nat) (corrTarget : PC) (actuallyTaken : Bool) (tid : Nat)
deriving Repr

def BPredUnit.step (config : Config PC State History) (unit : BPredUnit PC State History) :
    Call PC → Except Fault (BPredUnit PC State History)
  | .predict inst seqNum pc tid => .ok (unit.predict config inst seqNum pc tid).2.2
  | .update doneSn tid => .ok (unit.update config doneSn tid)
  | .squash squashedSn tid => .ok (unit.squash config squashedSn tid)
  | .mispredict squashedSn corrTarget actuallyTaken tid =>
    unit.squashMispredicted config squashedSn corrTarget actuallyTaken tid

/-- A unit for addresses of instructions of four bytes, whose direction predictor knows one
direction only. -/
def oneDirection (taken : Bool) : Config Nat Unit Unit where
  isa := {
    zero := 0
    instAddr := id
    buildRetPC := fun _ target => target
    advancePC := fun pc _ => pc + 4 }
  predictor := {
    lookup := fun _ _ => (taken, (), ())
    uncondBranch := fun _ _ => ((), ())
    btbUpdate := fun _ _ _ => ((), ())
    update := fun _ _ _ _ _ => ((), ())
    retireSquashed := fun _ _ => ()
    squash := fun _ _ => () }
  btbEntries := 4
  btbTagBits := 16
  instShiftAmt := 2
  rasEntries := 4
  rasEntries_pos := by decide

/-! ### The loops -/

section Loops

variable {config : Config PC State History}

namespace BPredUnit

section

variable (squashedSn tid : Nat)
include squashedSn tid

theorem squashLoop_fst (records : List (PredictorHistory PC History))
    (unit : BPredUnit PC State History) :
    (squashLoop config squashedSn tid records unit).1 =
      records.dropWhile fun record => decide (squashedSn < record.seqNum) := by
  induction records generalizing unit with
  | nil => rfl
  | cons _ _ hypothesis =>
    rw [squashLoop, List.dropWhile_cons]
    split
    · rename_i above
      rw [if_pos (decide_eq_true above), hypothesis]
    · rename_i notAbove
      rw [if_neg (fun above => notAbove (of_decide_eq_true above))]

theorem squashLoop_frame (records : List (PredictorHistory PC History))
    (unit : BPredUnit PC State History) :
    (squashLoop config squashedSn tid records unit).2.predHist = unit.predHist ∧
      (squashLoop config squashedSn tid records unit).2.trained = unit.trained ∧
      ∀ other, other ≠ tid →
        (squashLoop config squashedSn tid records unit).2.ras other = unit.ras other := by
  induction records generalizing unit with
  | nil => exact ⟨rfl, rfl, fun _ _ => rfl⟩
  | cons _ _ hypothesis =>
    rw [squashLoop]
    split
    · obtain ⟨samePredHist, sameTrained, sameRas⟩ := hypothesis _
      refine ⟨samePredHist, sameTrained, fun other different => ?_⟩
      exact (sameRas other different).trans (update_of_ne different _ _)
    · exact ⟨rfl, rfl, fun _ _ => rfl⟩

theorem squash_predHist (unit : BPredUnit PC State History) :
    (unit.squash config squashedSn tid).predHist =
      Function.update unit.predHist tid ((unit.predHist tid).dropWhile fun record =>
        decide (squashedSn < record.seqNum)) := by
  dsimp only [squash]
  rw [squashLoop_fst, (squashLoop_frame _ _ _ _).1]

end

theorem squashMispredicted_cases {squashedSn tid : Nat} {corrTarget : PC} {actuallyTaken : Bool}
    {unit next : BPredUnit PC State History}
    (taken : unit.squashMispredicted config squashedSn corrTarget actuallyTaken tid = .ok next) :
    next = unit.squash config squashedSn tid ∧
        (unit.squash config squashedSn tid).predHist tid = [] ∨
      ∃ record rest, (unit.squash config squashedSn tid).predHist tid = record :: rest ∧
        record.seqNum = squashedSn ∧
        next = (unit.squash config squashedSn tid).fixFront config corrTarget actuallyTaken tid
          record rest := by
  dsimp only [squashMispredicted] at taken
  split at taken
  · rename_i isEmpty
    cases taken
    exact .inl ⟨rfl, isEmpty⟩
  · rename_i record rest isHist
    split at taken
    · cases taken
    · rename_i isFront
      cases taken
      exact .inr ⟨record, rest, isHist, not_not.mp isFront, rfl⟩

end BPredUnit

end Loops

end Model

end Gem5.Cpu.Pred
