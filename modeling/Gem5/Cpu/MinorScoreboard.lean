/-
This file models the scoreboard of the in-order processor. The scoreboard counts, for each
register, the results that are in flight. It keeps the integer, condition code and float
registers in one array, at offsets that depend on the numbers of registers of the instruction
set. The offset of the condition code registers is computed from the base of the float
registers. The file proves that distinct registers have distinct places exactly when the
instruction set has no condition code registers or no float registers, and that the counts, of
16 bits, are then those of the instructions in flight. An instruction may issue once its sources
are in time. The mask of the functional units that cannot forward is read at the place of the
register, so that the right instructions issue exactly when no unit is marked.
-/

import Gem5.Library.Run
import Mathlib

namespace Gem5.Cpu.Minor

open Library List Function

/-- The registers of an instruction set, in one space of indices (of at most 16 bits in all of
them). -/
structure Layout where
  numIntRegs : Nat
  numFloatRegs : Nat
  numCCRegs : Nat
  fpRegBase : Nat
  zeroReg : Nat
  intBelow : numIntRegs ≤ fpRegBase
  zeroBelow : zeroReg < fpRegBase

namespace Layout

variable (layout : Layout)

def ccRegBase : Nat := layout.fpRegBase + layout.numFloatRegs

def miscRegBase : Nat := layout.ccRegBase + layout.numCCRegs

/-- The number of places of the scoreboard. -/
def numRegs : Nat := layout.numIntRegs + layout.numCCRegs + layout.numFloatRegs

end Layout

inductive RegClass where
  | intRegClass
  | floatRegClass
  | ccRegClass
  | miscRegClass
deriving DecidableEq, Repr

def regIdxToClass (layout : Layout) (reg : Nat) : RegClass :=
  if reg < layout.fpRegBase then .intRegClass
  else if reg < layout.ccRegBase then .floatRegClass
  else if reg < layout.miscRegBase then .ccRegClass
  else .miscRegClass

/-- The place of a register in the scoreboard, if it is tracked. -/
def findIndex (layout : Layout) (reg : Nat) : Option Nat :=
  if reg = layout.zeroReg then none
  else
    match regIdxToClass layout reg with
    | .intRegClass => some reg
    | .floatRegClass => some (layout.numIntRegs + layout.numCCRegs + reg - layout.fpRegBase)
    | .ccRegClass => some (layout.numIntRegs + reg - layout.fpRegBase)
    | .miscRegClass => none

/-- A thread maps the registers that an instruction names to the ones of its current mode. -/
structure ThreadContext (layout : Layout) where
  flattenIntIndex : Nat → Nat
  flattenFloatIndex : Nat → Nat
  flattenCCIndex : Nat → Nat
  intRange : ∀ reg, flattenIntIndex reg < layout.numIntRegs
  floatRange : ∀ reg, layout.fpRegBase ≤ reg → reg < layout.ccRegBase →
    layout.fpRegBase ≤ flattenFloatIndex reg ∧ flattenFloatIndex reg < layout.ccRegBase
  ccRange : ∀ reg, layout.ccRegBase ≤ reg → reg < layout.miscRegBase →
    layout.ccRegBase ≤ flattenCCIndex reg ∧ flattenCCIndex reg < layout.miscRegBase

variable {layout : Layout}

def flattenRegIndex (context : ThreadContext layout) (reg : Nat) : Nat :=
  match regIdxToClass layout reg with
  | .intRegClass => context.flattenIntIndex reg
  | .floatRegClass => context.flattenFloatIndex reg
  | .ccRegClass => context.flattenCCIndex reg
  | .miscRegClass => reg

/-- An instruction, with the registers that its destinations have been mapped to. -/
structure MinorDynInst where
  execSeqNum : Nat
  fuIndex : Nat
  isFault : Bool
  destRegs : List Nat
  flatDestRegIdx : List Nat
deriving DecidableEq, Repr

structure Scoreboard where
  numResults : Nat → BitVec 16
  numUnpredictableResults : Nat → BitVec 16
  fuIndices : Nat → Int
  returnCycle : Nat → Nat
  writingInst : Nat → Nat

namespace Scoreboard

def init : Scoreboard where
  numResults _ := 0
  numUnpredictableResults _ := 0
  fuIndices _ := 0
  returnCycle _ := 0
  writingInst _ := 0

/-- One more result for a place. -/
def markup (inst : MinorDynInst) (retireTime : Nat) (markUnpredictable : Bool) (index : Nat)
    (board : Scoreboard) : Scoreboard :=
  let later := board.writingInst index < inst.execSeqNum
  { numUnpredictableResults :=
      if markUnpredictable then
        update board.numUnpredictableResults index
          (board.numUnpredictableResults index + 1)
      else board.numUnpredictableResults
    numResults := update board.numResults index (board.numResults index + 1)
    returnCycle := update board.returnCycle index retireTime
    writingInst :=
      if later then update board.writingInst index inst.execSeqNum
      else board.writingInst
    fuIndices :=
      if later then update board.fuIndices index inst.fuIndex else board.fuIndices }

/-- The loop over the destinations of an instruction. A destination that is not tracked is
replaced by the zero register. -/
def markupLoop (context : ThreadContext layout) (inst : MinorDynInst) (retireTime : Nat)
    (markUnpredictable : Bool) : List Nat → Scoreboard → List Nat × Scoreboard
  | [], board => ([], board)
  | dest :: rest, board =>
    match findIndex layout (flattenRegIndex context dest) with
    | some index =>
      let (flat, board) := markupLoop context inst retireTime markUnpredictable rest
        (board.markup inst retireTime markUnpredictable index)
      (flattenRegIndex context dest :: flat, board)
    | none =>
      let (flat, board) := markupLoop context inst retireTime markUnpredictable rest board
      (layout.zeroReg :: flat, board)

def markupInstDests (context : ThreadContext layout) (inst : MinorDynInst) (retireTime : Nat)
    (markUnpredictable : Bool) (board : Scoreboard) : MinorDynInst × Scoreboard :=
  if inst.isFault then (inst, board)
  else
    let (flat, board) := board.markupLoop context inst retireTime markUnpredictable inst.destRegs
    ({ inst with flatDestRegIdx := flat }, board)

/-- One result less for a place. -/
def clear (clearUnpredictable : Bool) (index : Nat) (board : Scoreboard) : Scoreboard :=
  let remaining := board.numResults index - 1
  { numUnpredictableResults :=
      if clearUnpredictable ∧ board.numUnpredictableResults index ≠ 0 then
        update board.numUnpredictableResults index
          (board.numUnpredictableResults index - 1)
      else board.numUnpredictableResults
    numResults := update board.numResults index remaining
    returnCycle :=
      if remaining = 0 then update board.returnCycle index 0 else board.returnCycle
    writingInst :=
      if remaining = 0 then update board.writingInst index 0 else board.writingInst
    fuIndices :=
      if remaining = 0 then update board.fuIndices index (-1) else board.fuIndices }

def clearLoop (layout : Layout) (clearUnpredictable : Bool) :
    List Nat → Scoreboard → Scoreboard
  | [], board => board
  | reg :: rest, board =>
    match findIndex layout reg with
    | some index => clearLoop layout clearUnpredictable rest (board.clear clearUnpredictable index)
    | none => clearLoop layout clearUnpredictable rest board

def clearInstDests (layout : Layout) (inst : MinorDynInst) (clearUnpredictable : Bool)
    (board : Scoreboard) : Scoreboard :=
  if inst.isFault then board
  else board.clearLoop layout clearUnpredictable inst.flatDestRegIdx

end Scoreboard

/-! ### Places -/

/-- The registers that instructions write after the mapping of their destinations. -/
def Flat (layout : Layout) (reg : Nat) : Prop :=
  reg < layout.numIntRegs ∨ layout.fpRegBase ≤ reg ∧ reg < layout.miscRegBase

theorem findIndex_zeroReg (layout : Layout) : findIndex layout layout.zeroReg = none :=
  if_pos rfl

theorem findIndex_of_float {float : Nat} (inRange : float < layout.numFloatRegs) :
    findIndex layout (layout.fpRegBase + float) =
      some (layout.numIntRegs + layout.numCCRegs + float) := by
  have zeroBelow := layout.zeroBelow
  have below : layout.fpRegBase + float < layout.ccRegBase :=
    Nat.add_lt_add_left inRange layout.fpRegBase
  rw [findIndex, if_neg (by omega), regIdxToClass, if_neg (by omega), if_pos below]
  exact congrArg some (by omega)

theorem findIndex_of_cc {cc : Nat} (inRange : cc < layout.numCCRegs) :
    findIndex layout (layout.ccRegBase + cc) =
      some (layout.numIntRegs + layout.numFloatRegs + cc) := by
  have zeroBelow := layout.zeroBelow
  have below : layout.ccRegBase + cc < layout.miscRegBase :=
    Nat.add_lt_add_left inRange layout.ccRegBase
  have above : layout.fpRegBase ≤ layout.ccRegBase := Nat.le_add_right _ _
  rw [findIndex, if_neg (by omega), regIdxToClass, if_neg (by omega), if_neg (by omega),
    if_pos below]
  refine congrArg some ?_
  rw [Layout.ccRegBase]
  omega

/-- The place of a register, by the class of the register. -/
theorem findIndex_cases {reg index : Nat} (flat : Flat layout reg)
    (found : findIndex layout reg = some index) :
    reg < layout.numIntRegs ∧ index = reg ∨
      (∃ float < layout.numFloatRegs, reg = layout.fpRegBase + float ∧
        index = layout.numIntRegs + layout.numCCRegs + float) ∨
      ∃ cc < layout.numCCRegs, reg = layout.ccRegBase + cc ∧
        index = layout.numIntRegs + layout.numFloatRegs + cc := by
  obtain isInt | ⟨notInt, notMisc⟩ := flat
  · refine .inl ⟨isInt, ?_⟩
    rw [findIndex] at found
    split at found
    · cases found
    · rw [regIdxToClass, if_pos (Nat.lt_of_lt_of_le isInt layout.intBelow)] at found
      exact (Option.some.inj found).symm
  · obtain isFloat | isCC := Nat.lt_or_ge reg layout.ccRegBase
    · refine .inr (.inl ⟨reg - layout.fpRegBase, ?_, ?_, ?_⟩)
      · rw [Layout.ccRegBase] at isFloat
        omega
      · omega
      · have inRange : reg - layout.fpRegBase < layout.numFloatRegs := by
          rw [Layout.ccRegBase] at isFloat
          omega
        rw [← Nat.add_sub_cancel' notInt, findIndex_of_float inRange] at found
        exact (Option.some.inj found).symm
    · have inRange : reg - layout.ccRegBase < layout.numCCRegs := by
        rw [Layout.miscRegBase] at notMisc
        omega
      refine .inr (.inr ⟨reg - layout.ccRegBase, inRange, (Nat.add_sub_cancel' isCC).symm, ?_⟩)
      rw [← Nat.add_sub_cancel' isCC, findIndex_of_cc inRange] at found
      exact (Option.some.inj found).symm

/-- Every tracked register has a place in the scoreboard. -/
theorem findIndex_lt {reg index : Nat} (flat : Flat layout reg)
    (found : findIndex layout reg = some index) : index < layout.numRegs := by
  rw [Layout.numRegs]
  obtain ⟨_, rfl⟩ | ⟨_, _, _, rfl⟩ | ⟨_, _, _, rfl⟩ :=
    findIndex_cases flat found
  · omega
  · omega
  · omega

/-- No two tracked registers have one place. -/
def DistinctPlaces (layout : Layout) : Prop :=
  ∀ reg other index, Flat layout reg → Flat layout other → findIndex layout reg = some index →
    findIndex layout other = some index → reg = other

/-- The last float registers share their places with condition code registers, if there are
both. -/
theorem distinctPlaces_iff (layout : Layout) :
    DistinctPlaces layout ↔ layout.numFloatRegs = 0 ∨ layout.numCCRegs = 0 := by
  constructor
  · intro distinct
    by_contra both
    have floatRange : layout.numFloatRegs - min layout.numFloatRegs layout.numCCRegs <
        layout.numFloatRegs := by omega
    have ccRange : layout.numCCRegs - min layout.numFloatRegs layout.numCCRegs <
        layout.numCCRegs := by omega
    have samePlace : layout.numIntRegs + layout.numCCRegs +
          (layout.numFloatRegs - min layout.numFloatRegs layout.numCCRegs) =
        layout.numIntRegs + layout.numFloatRegs +
          (layout.numCCRegs - min layout.numFloatRegs layout.numCCRegs) := by omega
    have isCCBase : layout.ccRegBase = layout.fpRegBase + layout.numFloatRegs := rfl
    have isMiscBase : layout.miscRegBase = layout.ccRegBase + layout.numCCRegs := rfl
    have same := distinct _ _ _ (.inr ⟨by omega, by omega⟩) (.inr ⟨by omega, by omega⟩)
      (findIndex_of_float floatRange) (samePlace ▸ findIndex_of_cc ccRange)
    omega
  · intro oneClass reg other index flat otherFlat found otherFound
    obtain ⟨_, rfl⟩ | ⟨_, _, rfl, rfl⟩ | ⟨_, _, rfl, rfl⟩ :=
      findIndex_cases flat found
    · obtain ⟨_, same⟩ | ⟨_, _, _, same⟩ | ⟨_, _, _, same⟩ := findIndex_cases otherFlat otherFound
      · exact same
      · omega
      · omega
    · obtain _ | ⟨_, _, rfl, _⟩ | _ :=
        findIndex_cases otherFlat otherFound
      · omega
      · omega
      · omega
    · obtain _ | _ | ⟨_, _, rfl, _⟩ :=
        findIndex_cases otherFlat otherFound
      · omega
      · omega
      · omega

/-! ### Instructions in flight -/

def MinorDynInst.places (layout : Layout) (inst : MinorDynInst) : List Nat :=
  if inst.isFault then [] else inst.flatDestRegIdx.filterMap (findIndex layout)

namespace Scoreboard

variable {board : Scoreboard}

theorem markupLoop_numResults (context : ThreadContext layout) (inst : MinorDynInst)
    (retireTime : Nat) (markUnpredictable : Bool) (dests : List Nat) (index : Nat) :
    (board.markupLoop context inst retireTime markUnpredictable dests).2.numResults index =
      board.numResults index + BitVec.ofNat 16
        ((((board.markupLoop context inst retireTime markUnpredictable dests).1).filterMap
          (findIndex layout)).count index) := by
  induction dests generalizing board with
  | nil => exact (BitVec.add_zero _).symm
  | cons dest _ hypothesis =>
    rw [markupLoop]
    cases found : findIndex layout (flattenRegIndex context dest) with
    | none =>
      rw [hypothesis, filterMap_cons_none (findIndex_zeroReg layout)]
    | some place =>
      rw [hypothesis, filterMap_cons_some found, count_cons, markup]
      dsimp only
      by_cases same : index = place
      · subst same
        rw [update_self, if_pos (beq_self_eq_true index)]
        bv_omega
      · rw [update_of_ne same, if_neg fun equal => same (eq_of_beq equal).symm]
        rfl

theorem clearLoop_numResults (clearUnpredictable : Bool) (flat : List Nat) (index : Nat) :
    (board.clearLoop layout clearUnpredictable flat).numResults index =
      board.numResults index -
        BitVec.ofNat 16 ((flat.filterMap (findIndex layout)).count index) := by
  induction flat generalizing board with
  | nil => exact (BitVec.sub_zero _).symm
  | cons reg _ hypothesis =>
    rw [clearLoop]
    cases found : findIndex layout reg with
    | none =>
      rw [hypothesis, filterMap_cons_none found]
    | some place =>
      rw [hypothesis, filterMap_cons_some found, count_cons, clear]
      dsimp only
      by_cases same : index = place
      · subst same
        rw [update_self, if_pos (beq_self_eq_true index)]
        bv_omega
      · rw [update_of_ne same, if_neg fun equal => same (eq_of_beq equal).symm]
        rfl

theorem markupInstDests_numResults (context : ThreadContext layout) (inst : MinorDynInst)
    (retireTime : Nat) (markUnpredictable : Bool) (index : Nat) :
    (board.markupInstDests context inst retireTime markUnpredictable).2.numResults index =
      board.numResults index + BitVec.ofNat 16
        ((((board.markupInstDests context inst retireTime markUnpredictable).1).places
          layout).count index) := by
  rw [markupInstDests]
  split
  · rename_i isFault
    rw [MinorDynInst.places, if_pos isFault]
    exact (BitVec.add_zero _).symm
  · rename_i notFault
    rw [MinorDynInst.places, if_neg notFault]
    exact markupLoop_numResults context inst retireTime markUnpredictable inst.destRegs index

theorem clearInstDests_numResults (inst : MinorDynInst) (clearUnpredictable : Bool) (index : Nat) :
    (board.clearInstDests layout inst clearUnpredictable).numResults index =
      board.numResults index - BitVec.ofNat 16 ((inst.places layout).count index) := by
  rw [clearInstDests, MinorDynInst.places]
  split
  · exact (BitVec.sub_zero _).symm
  · exact clearLoop_numResults clearUnpredictable inst.flatDestRegIdx index

end Scoreboard

/-- A register that is mapped and tracked is one that instructions write. -/
theorem flattenRegIndex_flat (context : ThreadContext layout) {reg index : Nat}
    (found : findIndex layout (flattenRegIndex context reg) = some index) :
    Flat layout (flattenRegIndex context reg) := by
  have ccBelow : layout.ccRegBase ≤ layout.miscRegBase := Nat.le_add_right _ _
  have floatBelow : layout.fpRegBase ≤ layout.ccRegBase := Nat.le_add_right _ _
  by_cases isInt : reg < layout.fpRegBase
  · rw [flattenRegIndex, regIdxToClass, if_pos isInt]
    exact .inl (context.intRange reg)
  · by_cases isFloat : reg < layout.ccRegBase
    · rw [flattenRegIndex, regIdxToClass, if_neg isInt, if_pos isFloat]
      obtain ⟨above, below⟩ := context.floatRange reg (Nat.not_lt.mp isInt) isFloat
      exact .inr ⟨above, Nat.lt_of_lt_of_le below ccBelow⟩
    · by_cases isCC : reg < layout.miscRegBase
      · rw [flattenRegIndex, regIdxToClass, if_neg isInt, if_neg isFloat, if_pos isCC]
        obtain ⟨above, below⟩ := context.ccRange reg (Nat.not_lt.mp isFloat) isCC
        exact .inr ⟨Nat.le_trans floatBelow above, below⟩
      · have isMisc : regIdxToClass layout reg = .miscRegClass := by
          rw [regIdxToClass, if_neg isInt, if_neg isFloat, if_neg isCC]
        have unchanged : flattenRegIndex context reg = reg := by
          rw [flattenRegIndex, isMisc]
        rw [unchanged, findIndex, isMisc, ite_self] at found
        cases found

/-- A register has a place in the scoreboard. -/
def tracked (layout : Layout) (reg : Nat) : Bool :=
  (findIndex layout reg).isSome

theorem tracked_zeroReg (layout : Layout) : ¬ tracked layout layout.zeroReg = true := by
  rw [tracked, findIndex_zeroReg]
  exact Bool.false_ne_true

theorem tracked_of_findIndex {reg index : Nat} (found : findIndex layout reg = some index) :
    tracked layout reg = true :=
  Option.isSome_iff_exists.mpr ⟨index, found⟩

/-- The destinations that are tracked, after the mapping. -/
def trackedDests (context : ThreadContext layout) (dests : List Nat) : List Nat :=
  (dests.map (flattenRegIndex context)).filter (tracked layout)

theorem Scoreboard.markupLoop_flat (context : ThreadContext layout) (inst : MinorDynInst)
    (retireTime : Nat) (markUnpredictable : Bool) (dests : List Nat) (board : Scoreboard) :
    (board.markupLoop context inst retireTime markUnpredictable dests).1.filter
      (tracked layout) = trackedDests context dests := by
  induction dests generalizing board with
  | nil => rfl
  | cons dest _ hypothesis =>
    rw [markupLoop, trackedDests, map_cons]
    cases found : findIndex layout (flattenRegIndex context dest) with
    | none =>
      have dropped : ¬ tracked layout (flattenRegIndex context dest) = true := by
        rw [tracked, found]
        exact Bool.false_ne_true
      rw [filter_cons_of_neg dropped]
      exact (filter_cons_of_neg (tracked_zeroReg layout)).trans (hypothesis board)
    | some place =>
      have kept := tracked_of_findIndex found
      have continued := congrArg (flattenRegIndex context dest :: ·) (hypothesis
        (board.markup inst retireTime markUnpredictable place))
      exact ((filter_cons_of_pos kept).trans continued).trans
        (filter_cons_of_pos kept).symm

/-- An instruction whose destinations have been mapped, each register at most once. -/
structure MinorDynInst.Mapped (layout : Layout) (inst : MinorDynInst) : Prop where
  flat : ∀ reg ∈ inst.flatDestRegIdx, ∀ index, findIndex layout reg = some index →
    Flat layout reg
  distinct : (inst.flatDestRegIdx.filter (tracked layout)).Nodup

def MinorDynInst.Writes (inst : MinorDynInst) (reg : Nat) : Prop :=
  inst.isFault = false ∧ reg ∈ inst.flatDestRegIdx
deriving Decidable

theorem MinorDynInst.count_places {inst : MinorDynInst} {reg index : Nat}
    (distinctPlaces : DistinctPlaces layout) (mapped : inst.isFault = false → inst.Mapped layout)
    (flat : Flat layout reg) (found : findIndex layout reg = some index) :
    (inst.places layout).count index = if inst.Writes reg then 1 else 0 := by
  rw [places]
  split
  · rename_i isFault
    rw [if_neg fun writes => Bool.false_ne_true (writes.1.symm.trans isFault)]
    rfl
  · rename_i notFault
    have isNoFault := Bool.eq_false_iff.mpr notFault
    obtain ⟨allFlat, distinct⟩ := mapped isNoFault
    have same : ∀ other ∈ inst.flatDestRegIdx,
        (findIndex layout other == some index) = true ↔ (other == reg) = true := by
      intro other member
      rw [beq_iff_eq, beq_iff_eq]
      refine ⟨fun there => ?_, fun equal => equal ▸ found⟩
      exact distinctPlaces _ _ _ (allFlat other member _ there) flat there found
    rw [count_filterMap, countP_congr same, ← count_eq_countP]
    have isTracked := tracked_of_findIndex found
    by_cases writes : inst.Writes reg
    · rw [if_pos writes, ← count_filter isTracked]
      exact nodup_iff_count_eq_one.mp distinct reg
        (mem_filter.mpr ⟨writes.2, isTracked⟩)
    · rw [if_neg writes]
      exact count_eq_zero.mpr fun member => writes ⟨isNoFault, member⟩

inductive ScoreboardCall (layout : Layout) where
  | markup (context : ThreadContext layout) (inst : MinorDynInst) (retireTime : Nat)
      (markUnpredictable : Bool)
  | clear (inst : MinorDynInst) (clearUnpredictable : Bool)

/-- The scoreboard, with the instructions that have been marked and not cleared. -/
structure ScoreboardTrace where
  board : Scoreboard
  inFlight : List MinorDynInst

namespace ScoreboardTrace

def start : ScoreboardTrace where
  board := .init
  inFlight := []

def step (trace : ScoreboardTrace) : ScoreboardCall layout → Except Empty ScoreboardTrace
  | .markup context inst retireTime markUnpredictable =>
    let marked := trace.board.markupInstDests context inst retireTime markUnpredictable
    .ok { board := marked.2, inFlight := marked.1 :: trace.inFlight }
  | .clear inst clearUnpredictable =>
    .ok {
      board := trace.board.clearInstDests layout inst clearUnpredictable
      inFlight := trace.inFlight.erase inst }

/-- Instructions are marked with each tracked register at most once among their destinations,
and an instruction is cleared while it is in flight. -/
def Guard (trace : ScoreboardTrace) : ScoreboardCall layout → Prop
  | .markup context inst _ _ => (trackedDests context inst.destRegs).Nodup
  | .clear inst _ => inst ∈ trace.inFlight

structure Sound (layout : Layout) (trace : ScoreboardTrace) : Prop where
  counted : ∀ index, trace.board.numResults index = BitVec.ofNat 16
    (trace.inFlight.map fun inst => (inst.places layout).count index).sum
  mapped : ∀ inst ∈ trace.inFlight, inst.isFault = false → inst.Mapped layout

theorem Sound.step {trace next : ScoreboardTrace} (call : ScoreboardCall layout)
    (sound : Sound layout trace) (meets : trace.Guard call) (taken : trace.step call = .ok next) :
    Sound layout next := by
  cases call with
  | markup context inst retireTime markUnpredictable =>
    cases taken
    refine ⟨fun index => ?_, forall_mem_cons.mpr ⟨fun notFault => ?_, sound.mapped⟩⟩
    · rw [Scoreboard.markupInstDests_numResults, map_cons, sum_cons, sound.counted, add_comm,
        BitVec.ofNat_add]
    · rw [Scoreboard.markupInstDests] at notFault ⊢
      split
      · rename_i isFault
        rw [if_pos isFault] at notFault
        cases isFault.symm.trans notFault
      · have isDests := Scoreboard.markupLoop_flat context inst retireTime markUnpredictable
          inst.destRegs trace.board
        refine ⟨fun reg isReg index found => ?_, isDests ▸ meets⟩
        have isTracked := mem_filter.mpr ⟨isReg, tracked_of_findIndex found⟩
        rw [isDests] at isTracked
        obtain ⟨_, _, rfl⟩ := mem_map.mp (mem_of_mem_filter isTracked)
        exact flattenRegIndex_flat context found
  | clear inst =>
    cases taken
    refine ⟨fun index => ?_, fun other isOther =>
      sound.mapped other (mem_of_mem_erase isOther)⟩
    have all := ((perm_cons_erase meets).map fun inst =>
      (inst.places layout).count index).sum_eq
    rw [map_cons, sum_cons] at all
    rw [Scoreboard.clearInstDests_numResults, sound.counted, all, BitVec.ofNat_add]
    bv_omega

theorem sum_ite_eq_countP (insts : List MinorDynInst) (reg : Nat) :
    (insts.map fun inst => if inst.Writes reg then 1 else 0).sum =
      insts.countP fun inst => decide (inst.Writes reg) := by
  induction insts with
  | nil => rfl
  | cons inst _ hypothesis =>
    rw [map_cons, sum_cons, countP_cons, hypothesis, add_comm]
    by_cases writes : inst.Writes reg
    · rw [if_pos writes, if_pos (decide_eq_true writes)]
    · rw [if_neg writes, if_neg fun isTrue => writes (of_decide_eq_true isTrue)]

/-- The tracked registers have distinct places below the number of places, and after any calls
the count of a register is the number of instructions in flight that write it, as long as that
number has 16 bits, exactly when the instruction set has no float registers or no condition code
registers. -/
theorem counts_exact_iff (layout : Layout) :
    ((∀ reg index, Flat layout reg → findIndex layout reg = some index →
        index < layout.numRegs) ∧
      DistinctPlaces layout ∧
      ∀ (calls : List (ScoreboardCall layout)) (final : ScoreboardTrace),
        Run step Guard start calls final →
        ∀ reg index, Flat layout reg → findIndex layout reg = some index →
          ((final.board.numResults index).toNat =
              (final.inFlight.countP fun inst => decide (inst.Writes reg)) ↔
            (final.inFlight.countP fun inst => decide (inst.Writes reg)) < 2 ^ 16)) ↔
      layout.numFloatRegs = 0 ∨ layout.numCCRegs = 0 := by
  rw [← distinctPlaces_iff]
  refine ⟨fun exact => exact.2.1, fun distinct => ⟨fun _ _ => findIndex_lt, distinct,
    fun calls final run reg index flat found => ?_⟩⟩
  have sound : Sound layout final := run.invariant (Sound layout)
    (Sound.step _) ⟨fun _ => rfl, fun _ member => (nomatch member)⟩
  have counted : (final.inFlight.map fun inst => (inst.places layout).count index).sum =
      final.inFlight.countP fun inst => decide (inst.Writes reg) := by
    rw [← sum_ite_eq_countP]
    refine congrArg sum (map_congr_left fun inst isInst => ?_)
    exact inst.count_places distinct (sound.mapped inst isInst) flat found
  rw [sound.counted, counted, BitVec.toNat_ofNat]
  exact Nat.mod_eq_iff_lt (by decide)

/-- Two integer registers, one float register and one condition code register. -/
def oneOfEach : Layout where
  numIntRegs := 2
  numFloatRegs := 1
  numCCRegs := 1
  fpRegBase := 2
  zeroReg := 0
  intBelow := by decide
  zeroBelow := by decide

def identityContext : ThreadContext oneOfEach where
  flattenIntIndex reg := reg % 2
  flattenFloatIndex := id
  flattenCCIndex := id
  intRange reg := Nat.mod_lt reg (by decide)
  floatRange _ above below := ⟨above, below⟩
  ccRange _ above below := ⟨above, below⟩

/-- The float register 2 and the condition code register 3 have one place: an instruction that
writes the second is counted for the first. -/
theorem shared_place :
    findIndex oneOfEach 2 = some 3 ∧ findIndex oneOfEach 3 = some 3 ∧
      ∃ final, Run step Guard start
          [ScoreboardCall.markup identityContext ⟨1, 0, false, [3], []⟩ 5 false] final ∧
        final.board.numResults 3 = 1 ∧
        (final.inFlight.countP fun inst => decide (inst.Writes 2)) = 0 := by
  have distinct : (trackedDests identityContext [3]).Nodup := by decide
  exact ⟨by decide, by decide, _, .cons distinct rfl (.nil _), by decide, by decide⟩

end ScoreboardTrace

/-! ### Issue of instructions -/

/-- What decides whether an instruction may issue. -/
structure IssuedInst where
  isFault : Bool
  srcRegs : List Nat

/-- The latency of a source. The last latency stands for the sources that have none. -/
def relativeLatency (latencies : Option (List Nat)) (srcIndex : Nat) : Nat :=
  let given := latencies.getD []
  if given.length ≤ srcIndex then given.getLastD 0 else given.getD srcIndex 0

/-- The mark at an index of `cant_forward_from_fu_indices`. -/
def marked (mask : Option (List Bool)) (index : Nat) : Bool := (mask.getD []).getD index false

namespace Scoreboard

open ScoreboardTrace

/-- The mask is read at the place of the register. -/
def cantForward (board : Scoreboard) (mask : Option (List Bool)) (index : Nat) : Bool :=
  board.fuIndices index != 1 && marked mask index

/-- The functional unit that produces a register is marked. -/
def producerMarked (board : Scoreboard) (mask : Option (List Bool)) (index : Nat) : Bool :=
  match board.fuIndices index with
  | .ofNat unit => marked mask unit
  | .negSucc _ => false

variable (context : ThreadContext layout) (board : Scoreboard) (latencies : Option (List Nat))
  (now : Nat)

def issueLoop (mask : Option (List Bool)) : Nat → List Nat → Bool
  | _, [] => true
  | srcIndex, src :: rest =>
    match findIndex layout (flattenRegIndex context src) with
    | some index =>
      let latency := if board.cantForward mask index then 0
        else relativeLatency latencies srcIndex
      if now + latency < board.returnCycle index ∨ board.numUnpredictableResults index ≠ 0 then
        false
      else issueLoop mask (srcIndex + 1) rest
    | none => issueLoop mask (srcIndex + 1) rest

def canInstIssue (mask : Option (List Bool)) (inst : IssuedInst) : Bool :=
  if inst.isFault then true else board.issueLoop context latencies now mask 0 inst.srcRegs

/-- Every tracked source is predictable and in time, where the latency counts unless the source
is held. -/
def InTime (held : Nat → Bool) (start : Nat) (srcRegs : List Nat) : Prop :=
  ∀ position src index, srcRegs[position]? = some src →
    findIndex layout (flattenRegIndex context src) = some index →
    board.numUnpredictableResults index = 0 ∧ board.returnCycle index ≤
      now + if held index then 0 else relativeLatency latencies (start + position)

def Ready (mask : Option (List Bool)) (inst : IssuedInst) : Prop :=
  inst.isFault = false →
    board.InTime context latencies now (board.producerMarked mask) 0 inst.srcRegs

variable {context board latencies now}

theorem inTime_cons {held : Nat → Bool} {start src : Nat} {rest : List Nat} :
    board.InTime context latencies now held start (src :: rest) ↔
      (∀ index, findIndex layout (flattenRegIndex context src) = some index →
        board.numUnpredictableResults index = 0 ∧ board.returnCycle index ≤
          now + if held index then 0 else relativeLatency latencies start) ∧
      board.InTime context latencies now held (start + 1) rest := by
  constructor
  · refine fun inTime => ⟨fun index => inTime 0 src index rfl, fun position other index there => ?_⟩
    rw [add_assoc, add_comm 1]
    exact inTime (position + 1) other index there
  · rintro ⟨first, others⟩ (_ | position) other index there
    · cases there
      exact first index
    · rw [← add_assoc, add_right_comm]
      exact others position other index there

theorem issueLoop_iff {mask : Option (List Bool)} {start : Nat} {srcRegs : List Nat} :
    board.issueLoop context latencies now mask start srcRegs = true ↔
      board.InTime context latencies now (board.cantForward mask) start srcRegs := by
  induction srcRegs generalizing start with
  | nil => exact iff_of_true rfl fun _ _ _ there => nomatch there
  | cons src rest hypothesis =>
    rw [issueLoop, inTime_cons, ← hypothesis]
    cases findIndex layout (flattenRegIndex context src) with
    | none => simp
    | some index => simp [and_comm, not_lt]

/-- A scoreboard with a result of one functional unit for each register at the next cycle. -/
def producedBy (unit : Int) : Scoreboard :=
  { init with numResults _ := 1, fuIndices _ := unit, returnCycle _ := 1 }

theorem inTime_producedBy {src place : Nat}
    (tracked : findIndex layout (flattenRegIndex context src) = some place) (unit : Int)
    (held : Nat → Bool) :
    (producedBy unit).InTime context (some [1]) 0 held 0 [src] ↔ held place = false := by
  rw [inTime_cons, tracked]
  constructor
  · intro inTime
    have atPlace := (inTime.1 place rfl).2
    cases isHeld : held place with
    | true =>
      rw [isHeld] at atPlace
      cases atPlace
    | false => rfl
  · refine fun free => ⟨fun index same => ?_, fun _ _ _ there => nomatch there⟩
    cases same
    rw [free]
    exact ⟨rfl, Nat.le_refl 1⟩

/-- The instructions that issue are the ones that may, exactly if no functional unit is marked. -/
theorem canInstIssue_ready_iff {mask : Option (List Bool)} {src place : Nat}
    (tracked : findIndex layout (flattenRegIndex context src) = some place) :
    (∀ (board : Scoreboard) (latencies : Option (List Nat)) (now : Nat) (inst : IssuedInst),
      board.canInstIssue context latencies now mask inst = true ↔
        board.Ready context latencies now mask inst) ↔ ∀ unit, marked mask unit = false := by
  constructor
  · intro agrees unit
    have agree (unit : Int) : (producedBy unit).cantForward mask place = false ↔
        (producedBy unit).producerMarked mask place = false := by
      rw [← inTime_producedBy tracked unit, ← inTime_producedBy tracked unit, ← issueLoop_iff]
      exact (agrees (producedBy unit) (some [1]) 0 ⟨false, [src]⟩).trans (forall_prop_of_true rfl)
    cases atPlace : marked mask place with
    | true =>
      have forwards := (agree (-1)).mpr rfl
      rw [cantForward, atPlace] at forwards
      cases forwards
    | false => exact (agree unit).mp (by rw [cantForward, atPlace, Bool.and_false])
  · intro unmarked board latencies now inst
    have same : board.cantForward mask = board.producerMarked mask := by
      funext index
      rw [cantForward, producerMarked, unmarked, Bool.and_false]
      split
      · exact (unmarked _).symm
      · rfl
    rw [canInstIssue, Ready, ← same]
    cases inst.isFault with
    | true => simp
    | false => simp [issueLoop_iff]

theorem tracked_one : findIndex oneOfEach (flattenRegIndex identityContext 1) = some 1 := by decide

theorem canInstIssue_ready_unmarked :
    (producedBy 0).Ready identityContext (some [1]) 0 none ⟨false, [1]⟩ :=
  ((canInstIssue_ready_iff tracked_one).mpr (fun _ => rfl) (producedBy 0) (some [1]) 0
    ⟨false, [1]⟩).mp (by decide)

/-- The unit 0 is marked, and its result for the register at place 1 is forwarded; with the mark
at place 1 it is not, though the unit is not marked. -/
theorem forwarded_by_place :
    ((producedBy 0).canInstIssue identityContext (some [1]) 0 (some [true]) ⟨false, [1]⟩ = true ∧
      ¬ (producedBy 0).Ready identityContext (some [1]) 0 (some [true]) ⟨false, [1]⟩) ∧
    (producedBy 0).canInstIssue identityContext (some [1]) 0 (some [false, true]) ⟨false, [1]⟩ =
      false ∧
    (producedBy 0).Ready identityContext (some [1]) 0 (some [false, true]) ⟨false, [1]⟩ :=
  ⟨⟨by decide,
      fun ready => absurd ((inTime_producedBy tracked_one 0 _).mp (ready rfl)) (by decide)⟩,
    by decide, fun _ => (inTime_producedBy tracked_one 0 _).mpr rfl⟩

end Scoreboard

end Gem5.Cpu.Minor
