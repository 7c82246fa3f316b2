/-
This file models the software generated interrupts of the interrupt controller `Pl390`
(`dev/arm/gic_pl390.cc`). A pending interrupt is one bit of a word: the byte is the CPU that sent
it, the bit in the byte the CPU it is for. Each access recomputes, for every CPU, the interrupt of
the highest priority, and the next read of `ICCIAR` takes that one.

The bit is set by a shift of a 32-bit integer. For the senders 4 to 7 the shift has no meaning, and
the bit of sender 3 and target 7 is the sign, which is copied to all the bytes above. The file
proves that without these every interrupt is acknowledged, with the right sender, and that none is
acknowledged that was not sent.
-/

import Gem5.Library.Run
import Mathlib.Data.Fintype.Prod

namespace Gem5.Dev.Gic

open Library List BitVec Finset

/-- An assertion, a `panic`, or a shift by more bits than the integer has. -/
inductive Fault where
  | assertion
  | panic
  | undefinedShift
  deriving DecidableEq

structure Swi where
  sgiId : Fin 16
  cpuList : BitVec 8
  listType : Fin 4
  deriving DecidableEq

structure Iar where
  ackId : Fin 1024
  cpuId : Fin 8
  deriving DecidableEq

/-- The state of the controller. All the contexts of the system are running ones. -/
structure Pl390 where
  numContexts : Nat
  enabled : Bool
  itLines : Nat
  cpuEnabled : Fin 8 → Bool
  cpuPriority : Fin 8 → BitVec 8
  cpuHighestInt : Fin 8 → Nat
  cpuSgiPending : Fin 16 → BitVec 64
  cpuSgiActive : Fin 16 → BitVec 64
  cpuPpiPending : Fin 8 → BitVec 32
  cpuPpiActive : Fin 8 → BitVec 32
  bankedIntPriority : Fin 8 → Fin 32 → BitVec 8
  intEnabled : Nat → BitVec 32
  pendingInt : Nat → BitVec 32
  activeInt : Nat → BitVec 32
  intPriority : Nat → BitVec 8
  cpuTarget : Nat → BitVec 8

/-- `SPURIOUS_INT` -/
def spuriousInt : Nat := 1023

namespace Pl390

def genSwiMask (cpu : Fin 8) : BitVec 64 := 0x0101010101010101#64 <<< cpu.val

/-- The loop over the software generated interrupts, with the priority and the number of the best
one so far. -/
def checkSgis (gic : Pl390) (cpu : Fin 8) (swis : List (Fin 16)) (best : BitVec 8 × Nat) :
    BitVec 8 × Nat :=
  swis.foldl (fun best swi =>
    let priority := gic.bankedIntPriority cpu (swi.castLE (by decide))
    if gic.cpuSgiPending swi &&& genSwiMask cpu ≠ 0#64 ∧ priority < best.1 then (priority, swi.val)
    else best) best

def checkPpis (gic : Pl390) (cpu : Fin 8) (best : BitVec 8 × Nat) : BitVec 8 × Nat :=
  if gic.cpuPpiPending cpu = 0#32 then best
  else
    (finRange 16).foldl (fun best ppi =>
      let priority := gic.bankedIntPriority cpu (ppi.natAdd 16)
      if gic.cpuPpiPending cpu &&& (1#32 <<< ppi.val) ≠ 0#32 ∧ priority < best.1 then
        (priority, 16 + ppi.val)
      else best) best

def checkInts (gic : Pl390) (cpu : Fin 8) (best : BitVec 8 × Nat) : BitVec 8 × Nat :=
  (List.range (gic.itLines / 32)).foldl (fun best x =>
    if gic.intEnabled x &&& gic.pendingInt x = 0#32 then best
    else
      (List.range 32).foldl (fun best y =>
        let number := x * 32 + y
        if (gic.intEnabled x).getLsbD y ∧ (gic.pendingInt x).getLsbD y ∧
            gic.intPriority number < best.1 ∧
            (gic.numContexts ≤ 1 ∨ gic.cpuTarget number &&& (1#8 <<< cpu.val) ≠ 0#8) then
          (gic.intPriority number, number)
        else best) best) best

/-- The interrupt that a CPU is to take next. -/
def highestInt (gic : Pl390) (cpu : Fin 8) : Nat :=
  (gic.checkInts cpu (gic.checkPpis cpu (gic.checkSgis cpu (finRange 16)
    (gic.cpuPriority cpu, spuriousInt)))).2

def updateIntState (gic : Pl390) : Pl390 :=
  { gic with
    cpuHighestInt := fun cpu =>
      if gic.cpuEnabled cpu ∧ cpu.val < gic.numContexts then gic.highestInt cpu
      else gic.cpuHighestInt cpu }

/-- The list of CPUs of a request, after the two list types that replace it. -/
def cpuList (gic : Pl390) (ctxId : Fin 8) (swi : Swi) : BitVec 8 :=
  if swi.listType = 1 then
    (finRange 8).foldl (fun list x =>
      list ||| if gic.cpuEnabled x then 1#8 <<< x.val else 0#8) 0#8
  else if swi.listType = 2 then 1#8 <<< ctxId.val
  else swi.cpuList

/-- `(1 << i) << (8 * ctx_id)` in `int`, converted to 64 bits. -/
def shifted (i ctxId : Fin 8) : Except Fault (BitVec 64) :=
  if 32 ≤ 8 * ctxId.val then .error .undefinedShift
  else .ok (((1#32 <<< i.val) <<< (8 * ctxId.val)).signExtend 64)

/-- Whether `softInt` sends to a CPU. -/
def targeted (gic : Pl390) (ctxId : Fin 8) (swi : Swi) (i : Fin 8) : Bool :=
  gic.cpuEnabled i && gic.cpuList ctxId swi &&& (1#8 <<< i.val) != 0#8

def softIntLoop (gic : Pl390) (ctxId : Fin 8) (swi : Swi) :
    List (Fin 8) → BitVec 64 → Except Fault (BitVec 64)
  | [], pending => .ok pending
  | i :: rest, pending =>
    if gic.targeted ctxId swi i then do
      gic.softIntLoop ctxId swi rest (pending ||| (← shifted i ctxId))
    else gic.softIntLoop ctxId swi rest pending

def softInt (gic : Pl390) (ctxId : Fin 8) (swi : Swi) : Except Fault Pl390 := do
  let pending ← gic.softIntLoop ctxId swi (finRange 8) (gic.cpuSgiPending swi.sgiId)
  return updateIntState { gic with
    cpuSgiPending := fun sgi => if sgi = swi.sgiId then pending else gic.cpuSgiPending sgi }

/-- The CPU that the loop of `readCpu` finds to have generated the interrupt, or zero. -/
def generator (pending : BitVec 64) (ctxId : Fin 8) : Fin 8 :=
  ((finRange 8).find? fun x =>
    pending.extractLsb' (8 * x.val) 8 &&& (1#8 <<< ctxId.val) != 0#8).getD 0

/-- The bit that stands for an interrupt from one CPU to another. -/
def sgiNum (source target : Fin 8) : BitVec 64 := 1#64 <<< (target.val + 8 * source.val)

/-- The read of `ICCIAR` by `readCpu`. -/
def readIar (gic : Pl390) (ctxId : Fin 8) : Except Fault (Iar × Pl390) :=
  if gic.numContexts ≤ ctxId.val then .error .assertion
  else if gic.enabled ∧ gic.cpuEnabled ctxId then
    let activeInt := gic.cpuHighestInt ctxId
    let ackId := Fin.ofNat 1024 activeInt
    let taken (cpuId : Fin 8) (gic : Pl390) : Iar × Pl390 :=
      (⟨ackId, cpuId⟩, updateIntState { gic with
        cpuHighestInt := fun cpu => if cpu = ctxId then spuriousInt else gic.cpuHighestInt cpu })
    if small : activeInt < 16 then
      let sgi : Fin 16 := ⟨activeInt, small⟩
      if gic.cpuSgiPending sgi = 0#64 then .error .panic
      else
        let cpuId := generator (gic.cpuSgiPending sgi) ctxId
        .ok (taken cpuId { gic with
          cpuSgiActive := fun x =>
            if x = sgi then gic.cpuSgiActive x ||| sgiNum cpuId ctxId else gic.cpuSgiActive x
          cpuSgiPending := fun x =>
            if x = sgi then gic.cpuSgiPending x &&& ~~~ sgiNum cpuId ctxId
            else gic.cpuSgiPending x })
    else if activeInt < 32 then
      let intNum := 1#32 <<< (activeInt - 16)
      .ok (taken 0 { gic with
        cpuPpiActive := fun x =>
          if x = ctxId then gic.cpuPpiActive x ||| intNum else gic.cpuPpiActive x
        cpuPpiPending := fun x =>
          if x = ctxId then gic.cpuPpiPending x &&& ~~~ intNum else gic.cpuPpiPending x })
    else
      let intNum := 1#32 <<< (activeInt % 32)
      .ok (taken 0 { gic with
        activeInt := fun x =>
          if x = activeInt / 32 then gic.activeInt x ||| intNum else gic.activeInt x
        pendingInt := fun x =>
          if x = activeInt / 32 then gic.pendingInt x &&& ~~~ intNum else gic.pendingInt x })
  else .ok (⟨Fin.ofNat 1024 spuriousInt, 0⟩, gic)

/-- The write of `ICCEOIR` by `writeCpu`. -/
def writeEoir (gic : Pl390) (ctxId : Fin 8) (iar : Iar) : Except Fault Pl390 :=
  let ended (gic : Pl390) : Pl390 := if gic.cpuEnabled ctxId then gic.updateIntState else gic
  if small : iar.ackId.val < 16 then
    let sgi : Fin 16 := ⟨iar.ackId, small⟩
    let clrInt := sgiNum iar.cpuId ctxId
    if gic.cpuSgiActive sgi &&& clrInt = 0#64 then .error .panic
    else .ok (ended { gic with
      cpuSgiActive := fun x =>
        if x = sgi then gic.cpuSgiActive x &&& ~~~ clrInt else gic.cpuSgiActive x })
  else if iar.ackId.val < 32 then
    let intNum := 1#32 <<< (iar.ackId.val - 16)
    if gic.cpuPpiActive ctxId &&& intNum = 0#32 then .error .panic
    else .ok (ended { gic with
      cpuPpiActive := fun x =>
        if x = ctxId then gic.cpuPpiActive x &&& ~~~ intNum else gic.cpuPpiActive x })
  else
    let intNum := 1#32 <<< (iar.ackId.val % 32)
    .ok (ended { gic with
      activeInt := fun x =>
        if x = iar.ackId.val / 32 then gic.activeInt x &&& ~~~ intNum else gic.activeInt x })

/-! ### Bits -/

theorem sgiNum_getLsbD (source target other cpu : Fin 8) :
    (sgiNum source target).getLsbD (cpu.val + 8 * other.val) =
      decide (other = source ∧ cpu = target) := by
  revert source target other cpu
  decide +kernel

theorem cleared_getLsbD (words : Fin 16 → BitVec 64) (sgi other : Fin 16)
    (source target sender receiver : Fin 8) :
    (if other = sgi then words other &&& ~~~ sgiNum source target else words other).getLsbD
        (receiver.val + 8 * sender.val) =
      (!decide (sgi = other ∧ source = sender ∧ target = receiver) &&
        (words other).getLsbD (receiver.val + 8 * sender.val)) := by
  by_cases same : other = sgi
  · have below : receiver.val + 8 * sender.val < 64 := by omega
    rw [if_pos same, getLsbD_and, getLsbD_not, sgiNum_getLsbD, decide_eq_true below,
      Bool.true_and, Bool.and_comm]
    grind
  · rw [if_neg same]
    grind

theorem and_genSwiMask (pending : BitVec 64) (cpu : Fin 8) :
    pending &&& genSwiMask cpu ≠ 0#64 ↔
      ∃ source : Fin 8, pending.getLsbD (cpu.val + 8 * source.val) = true := by
  have mask : ∀ (cpu : Fin 8) (i : Fin 64),
      (genSwiMask cpu).getLsbD i.val = decide (i.val % 8 = cpu.val) := by decide +kernel
  constructor
  · intro some
    by_contra none
    refine some (eq_of_getLsbD_eq fun i below => ?_)
    rw [getLsbD_and, mask cpu ⟨i, below⟩]
    by_cases own : i % 8 = cpu.val
    · have absent : pending.getLsbD (cpu.val + 8 * (i / 8)) = false :=
        Bool.eq_false_iff.mpr fun set => none ⟨⟨i / 8, by omega⟩, set⟩
      have place : cpu.val + 8 * (i / 8) = i := by omega
      rw [place] at absent
      rw [absent, Bool.false_and, getLsbD_zero]
    · rw [decide_eq_false own, Bool.and_false, getLsbD_zero]
  · rintro ⟨source, set⟩ none
    have bit := congrArg (fun word => BitVec.getLsbD word (cpu.val + 8 * source.val)) none
    have own : (cpu.val + 8 * source.val) % 8 = cpu.val := by omega
    rw [getLsbD_and, set, mask cpu ⟨cpu.val + 8 * source.val, by omega⟩,
      decide_eq_true own, getLsbD_zero] at bit
    cases bit

theorem and_shiftLeft_eq_zero {width place : Nat} (word : BitVec width) (below : place < width) :
    word &&& (BitVec.ofNat width 1 <<< place) = BitVec.ofNat width 0 ↔
      word.getLsbD place = false := by
  rw [← twoPow_eq, and_twoPow]
  cases set : word.getLsbD place with
  | false => simp
  | true =>
    have nonzero : BitVec.twoPow width place ≠ BitVec.ofNat width 0 := by
      intro zero
      have bit := congrArg (fun word => BitVec.getLsbD word place) zero
      simp [below] at bit
    simpa using nonzero

theorem shifted_eq {i ctxId : Fin 8} (low : ctxId.val < 4) (unsigned : ctxId.val = 3 → i ≠ 7) :
    shifted i ctxId = .ok (sgiNum ctxId i) := by
  revert i ctxId
  decide +kernel

theorem generator_spec {pending : BitVec 64} {ctxId : Fin 8}
    (sent : ∃ source : Fin 8, pending.getLsbD (ctxId.val + 8 * source.val) = true) :
    pending.getLsbD (ctxId.val + 8 * (generator pending ctxId).val) = true := by
  have generated : ∀ x : Fin 8,
      (pending.extractLsb' (8 * x.val) 8 &&& (1#8 <<< ctxId.val) != 0#8) =
        pending.getLsbD (ctxId.val + 8 * x.val) := by
    intro x
    have bit := and_shiftLeft_eq_zero (pending.extractLsb' (8 * x.val) 8) ctxId.isLt
    rw [getLsbD_extractLsb', decide_eq_true ctxId.isLt, Bool.true_and,
      add_comm (8 * x.val)] at bit
    rw [Bool.eq_iff_iff, bne_iff_ne, Ne, bit, Bool.not_eq_false]
  obtain ⟨source, set⟩ := sent
  unfold generator
  simp only [generated]
  cases found : (finRange 8).find? fun x => pending.getLsbD (ctxId.val + 8 * x.val) with
  | none =>
    have absent := find?_eq_none.mp found source (mem_finRange source)
    exact absurd set absent
  | some =>
    have set := find?_some found
    exact set

/-! ### The highest interrupt -/

variable {gic : Pl390}

/-- Whether an interrupt from one CPU to another is pending. -/
def pends (gic : Pl390) (sgi : Fin 16) (source target : Fin 8) : Bool :=
  (gic.cpuSgiPending sgi).getLsbD (target.val + 8 * source.val)

theorem checkSgis_spec (cpu : Fin 8) (swis : List (Fin 16)) (best : BitVec 8 × Nat) :
    (gic.checkSgis cpu swis best = best ∧ ∀ swi ∈ swis, ∀ source, gic.pends swi source cpu →
      best.1 ≤ gic.bankedIntPriority cpu (swi.castLE (by decide))) ∨
    ∃ swi ∈ swis, ∃ source, gic.pends swi source cpu ∧
      (gic.checkSgis cpu swis best).2 = swi.val := by
  induction swis generalizing best with
  | nil => exact .inl ⟨rfl, by simp⟩
  | cons swi _ hypothesis =>
    rw [checkSgis, foldl_cons, ← checkSgis]
    dsimp only
    split
    · rename_i better
      obtain ⟨source, set⟩ := (and_genSwiMask _ _).mp better.1
      rcases hypothesis
        (gic.bankedIntPriority cpu (swi.castLE (by decide)), swi.val) with ⟨same, -⟩ | later
      · exact .inr ⟨swi, mem_cons_self, source, set, congrArg Prod.snd same⟩
      · obtain ⟨other, member, found⟩ := later
        exact .inr ⟨other, mem_cons_of_mem _ member, found⟩
    · rename_i worse
      rcases hypothesis best with ⟨same, none⟩ | later
      · refine .inl ⟨same, fun other member source set => ?_⟩
        rcases mem_cons.mp member with rfl | member
        · refine BitVec.not_lt.mp fun less => worse ⟨?_, less⟩
          exact (and_genSwiMask _ _).mpr ⟨source, set⟩
        · exact none other member source set
      · obtain ⟨other, member, found⟩ := later
        exact .inr ⟨other, mem_cons_of_mem _ member, found⟩

/-- Everything is enabled, no software generated interrupt is masked by its priority, and no other
interrupt is pending. -/
structure Ready (gic : Pl390) : Prop where
  enabled : gic.enabled = true
  cpuEnabled : ∀ cpu, gic.cpuEnabled cpu = decide (cpu.val < gic.numContexts)
  unmasked : ∀ cpu swi, gic.bankedIntPriority cpu (Fin.castLE (by decide : 16 ≤ 32) swi) <
    gic.cpuPriority cpu
  ppis : ∀ cpu, gic.cpuPpiPending cpu = 0#32
  ints : ∀ x, gic.pendingInt x = 0#32

theorem Ready.highestInt (ready : gic.Ready) (cpu : Fin 8) :
    (gic.highestInt cpu = spuriousInt ∧ ∀ sgi source, gic.pends sgi source cpu = false) ∨
    ∃ sgi : Fin 16, gic.highestInt cpu = sgi.val ∧ ∃ source, gic.pends sgi source cpu = true := by
  have others : gic.highestInt cpu =
      (gic.checkSgis cpu (List.finRange 16) (gic.cpuPriority cpu, spuriousInt)).2 := by
    simp only [Pl390.highestInt, checkInts, checkPpis, ready.ppis, ready.ints, and_zero,
      if_true, foldl_fixed]
  rw [others]
  rcases checkSgis_spec cpu (finRange 16) (gic.cpuPriority cpu, spuriousInt) with
    ⟨same, none⟩ | ⟨sgi, -, source, set, found⟩
  · refine .inl ⟨congrArg Prod.snd same, fun sgi source => Bool.eq_false_iff.mpr fun set => ?_⟩
    exact BitVec.not_lt.mpr (none sgi (mem_finRange sgi) source set) (ready.unmasked cpu sgi)
  · exact .inr ⟨sgi, found, source, set⟩

/-! ### Sending -/

theorem softIntLoop_spec (gic : Pl390) (swi : Swi) {ctxId : Fin 8} (low : ctxId.val < 4)
    (cpus : List (Fin 8)) (pending : BitVec 64)
    (unsigned : ∀ i ∈ cpus, gic.targeted ctxId swi i = true → ctxId.val = 3 → i ≠ 7) :
    ∃ word, gic.softIntLoop ctxId swi cpus pending = .ok word ∧ ∀ source target : Fin 8,
      word.getLsbD (target.val + 8 * source.val) =
        (pending.getLsbD (target.val + 8 * source.val) ||
          decide (source = ctxId ∧ target ∈ cpus ∧ gic.targeted ctxId swi target = true)) := by
  induction cpus generalizing pending with
  | nil => exact ⟨pending, rfl, by simp⟩
  | cons i _ hypothesis =>
    have others := fun j member => unsigned j (mem_cons_of_mem _ member)
    rw [softIntLoop]
    by_cases targeted : gic.targeted ctxId swi i = true
    · obtain ⟨word, looped, bits⟩ := hypothesis (pending ||| sgiNum ctxId i) others
      rw [if_pos targeted, shifted_eq low (unsigned i mem_cons_self targeted)]
      refine ⟨word, looped, fun source target => ?_⟩
      rw [bits, getLsbD_or, sgiNum_getLsbD, Bool.or_assoc]
      congr 1
      grind
    · obtain ⟨word, looped, bits⟩ := hypothesis pending others
      rw [if_neg targeted]
      refine ⟨word, looped, fun source target => ?_⟩
      rw [bits]
      congr 1
      grind

end Pl390

/-! ### Histories -/

/-- What has happened to the software generated interrupts. -/
inductive Event where
  | sent (sgi : Fin 16) (source : Fin 8) (targets : List (Fin 8))
  | acknowledged (sgi : Fin 16) (source target : Fin 8)
  | ended (sgi : Fin 16) (source target : Fin 8)
  deriving DecidableEq

/-- Whether an interrupt was sent since it was last acknowledged; the newest event comes first. -/
def owed (sgi : Fin 16) (source target : Fin 8) : List Event → Bool
  | [] => false
  | .sent number sender targets :: earlier =>
    decide (number = sgi ∧ sender = source ∧ target ∈ targets) || owed sgi source target earlier
  | .acknowledged number sender receiver :: earlier =>
    !decide (number = sgi ∧ sender = source ∧ receiver = target) && owed sgi source target earlier
  | .ended .. :: earlier => owed sgi source target earlier

/-- Whether an interrupt was acknowledged since it was last ended. -/
def unended (sgi : Fin 16) (source target : Fin 8) : List Event → Bool
  | [] => false
  | .sent .. :: earlier => unended sgi source target earlier
  | .acknowledged number sender receiver :: earlier =>
    decide (number = sgi ∧ sender = source ∧ receiver = target) || unended sgi source target earlier
  | .ended number sender receiver :: earlier =>
    !decide (number = sgi ∧ sender = source ∧ receiver = target) &&
      unended sgi source target earlier

inductive Action where
  | softInt (ctxId : Fin 8) (swi : Swi)
  | readIar (ctxId : Fin 8)
  | writeEoir (ctxId : Fin 8) (iar : Iar)
  deriving DecidableEq

/-- The controller with the history of its interrupts. -/
structure Trace where
  gic : Pl390
  history : List Event

namespace Trace

def step (trace : Trace) : Action → Except Fault Trace
  | .softInt ctxId swi => do
    let gic ← trace.gic.softInt ctxId swi
    let targets := (finRange 8).filter (trace.gic.targeted ctxId swi)
    return ⟨gic, .sent swi.sgiId ctxId targets :: trace.history⟩
  | .readIar ctxId => do
    let (iar, gic) ← trace.gic.readIar ctxId
    return ⟨gic, if small : iar.ackId.val < 16 then
      .acknowledged ⟨iar.ackId, small⟩ iar.cpuId ctxId :: trace.history else trace.history⟩
  | .writeEoir ctxId iar => do
    let gic ← trace.gic.writeEoir ctxId iar
    return ⟨gic, if small : iar.ackId.val < 16 then
      .ended ⟨iar.ackId, small⟩ iar.cpuId ctxId :: trace.history else trace.history⟩

/-- The accesses are those of CPUs that exist, the senders are the CPUs 0 to 3 and CPU 3 does not
send to CPU 7, and what is ended was acknowledged since it was last ended. -/
def Allowed (trace : Trace) : Action → Prop
  | .softInt ctxId swi => ctxId.val < trace.gic.numContexts ∧ ctxId.val < 4 ∧
    (ctxId.val = 3 → trace.gic.targeted ctxId swi 7 = false)
  | .readIar ctxId => ctxId.val < trace.gic.numContexts
  | .writeEoir ctxId iar => ctxId.val < trace.gic.numContexts ∧
    if small : iar.ackId.val < 16 then
      unended ⟨iar.ackId, small⟩ iar.cpuId ctxId trace.history = true
    else iar.ackId.val = spuriousInt

/-- What was acknowledged was owed. -/
def Honest (history : List Event) : Prop :=
  ∀ sgi source target earlier, (.acknowledged sgi source target :: earlier) <:+ history →
    owed sgi source target earlier = true

/-- The bits say what is owed and what is not ended. -/
structure Recorded (gic : Pl390) (history : List Event) : Prop where
  ready : gic.Ready
  pends : ∀ sgi source target, gic.pends sgi source target = owed sgi source target history
  active : ∀ sgi source target,
    (gic.cpuSgiActive sgi).getLsbD (target.val + 8 * source.val) =
      unended sgi source target history
  honest : Honest history

/-- The cached interrupts are up to date as well. -/
structure Sound (trace : Trace) : Prop extends Recorded trace.gic trace.history where
  highest : ∀ cpu, cpu.val < trace.gic.numContexts →
    trace.gic.cpuHighestInt cpu = trace.gic.highestInt cpu

variable {trace : Trace} {ctxId : Fin 8} {history : List Event}

theorem Honest.cons (honest : Honest history) {event : Event}
    (due : ∀ sgi source target, event = .acknowledged sgi source target →
      owed sgi source target history = true) : Honest (event :: history) := by
  intro sgi source target earlier ends
  rcases suffix_cons_iff.mp ends with same | ends
  · cases same
    exact due sgi source target rfl
  · exact honest sgi source target earlier ends

/-- The cached interrupts need no proof after `updateIntState`. -/
theorem Recorded.sound {gic : Pl390} (recorded : Recorded gic history) :
    Sound ⟨gic.updateIntState, history⟩ := by
  refine ⟨{ recorded with ready := { recorded.ready with } }, fun cpu below => ?_⟩
  have enabled : gic.cpuEnabled cpu = true ∧ cpu.val < gic.numContexts :=
    ⟨(recorded.ready.cpuEnabled cpu).trans (decide_eq_true below), below⟩
  exact if_pos enabled

theorem Sound.softInt (sound : trace.Sound) {swi : Swi}
    (allowed : trace.Allowed (.softInt ctxId swi)) :
    ∃ gic, trace.gic.softInt ctxId swi = .ok gic ∧ Sound ⟨gic,
      .sent swi.sgiId ctxId ((finRange 8).filter (trace.gic.targeted ctxId swi)) ::
        trace.history⟩ := by
  obtain ⟨-, low, unsigned⟩ := allowed
  obtain ⟨_, looped, bits⟩ := Pl390.softIntLoop_spec trace.gic swi low
    (finRange 8) (trace.gic.cpuSgiPending swi.sgiId) (by
      rintro i - targeted last rfl
      rw [unsigned last] at targeted
      cases targeted)
  rw [Pl390.softInt, looped, ok_bind]
  refine ⟨_, rfl, Recorded.sound ⟨{ sound.ready with }, ?_, sound.active,
    sound.honest.cons fun _ _ _ => nofun⟩⟩
  · intro sgi source target
    have before := sound.pends sgi source target
    rw [Pl390.pends] at before ⊢
    dsimp only
    rw [owed, ← before]
    by_cases same : sgi = swi.sgiId
    · rw [if_pos same, bits, same, Bool.or_comm]
      congr 1
      rw [decide_eq_decide, mem_filter]
      tauto
    · rw [if_neg same, decide_eq_false (by tauto), Bool.false_or]

theorem Sound.readIar (sound : trace.Sound) (present : ctxId.val < trace.gic.numContexts) :
    ∃ iar gic, trace.gic.readIar ctxId = .ok (iar, gic) ∧
      ((iar.ackId.val = spuriousInt ∧ (∀ sgi source, owed sgi source ctxId trace.history = false) ∧
          Sound ⟨gic, trace.history⟩) ∨
        ∃ sgi : Fin 16, iar.ackId.val = sgi.val ∧
          owed sgi iar.cpuId ctxId trace.history = true ∧
          Sound ⟨gic, .acknowledged sgi iar.cpuId ctxId :: trace.history⟩) := by
  obtain ⟨⟨ready, pends, active, honest⟩, highest⟩ := sound
  have enabled : trace.gic.enabled = true ∧ trace.gic.cpuEnabled ctxId = true :=
    ⟨ready.enabled, (ready.cpuEnabled ctxId).trans (decide_eq_true present)⟩
  rw [Pl390.readIar, if_neg (not_le.mpr present), if_pos enabled]
  rcases ready.highestInt ctxId with ⟨number, none⟩ | ⟨sgi, number, source, set⟩
  · rw [← highest ctxId present] at number
    have large : ¬ trace.gic.cpuHighestInt ctxId < 16 := by rw [number]; decide
    have larger : ¬ trace.gic.cpuHighestInt ctxId < 32 := by rw [number]; decide
    rw [dif_neg large, if_neg larger]
    refine ⟨_, _, rfl, .inl ⟨?_, fun sgi source => (pends ..).symm.trans (none sgi source), ?_⟩⟩
    · rw [number]
      rfl
    · refine Recorded.sound ⟨{ ready with ints := fun x => ?_ }, pends, active, honest⟩
      dsimp only
      rw [ready.ints, zero_and, ite_self]
  · rw [← highest ctxId present] at number
    have small : trace.gic.cpuHighestInt ctxId < 16 := number ▸ sgi.isLt
    have same : (⟨trace.gic.cpuHighestInt ctxId, small⟩ : Fin 16) = sgi := Fin.ext number
    have nonzero : trace.gic.cpuSgiPending sgi ≠ 0#64 := by
      intro zero
      rw [Pl390.pends, zero, getLsbD_zero] at set
      cases set
    have generated := Pl390.generator_spec ⟨source, set⟩
    rw [dif_pos small]
    simp only [same]
    rw [if_neg nonzero]
    generalize Pl390.generator (trace.gic.cpuSgiPending sgi) ctxId = cpuId at generated ⊢
    have due : owed sgi cpuId ctxId trace.history = true := (pends ..).symm.trans generated
    refine ⟨_, _, rfl, .inr ⟨sgi, ?_, due, ?_⟩⟩
    · rw [number]
      exact Nat.mod_eq_of_lt (lt_trans sgi.isLt (by decide))
    · refine Recorded.sound ⟨{ ready with }, fun other sender receiver => ?_,
        fun other sender receiver => ?_, honest.cons fun _ _ _ same => ?_⟩
      · rw [owed, ← pends]
        exact Pl390.cleared_getLsbD ..
      · rw [unended, ← active]
        dsimp only [Pl390.pends]
        split
        · rw [getLsbD_or, Pl390.sgiNum_getLsbD, Bool.or_comm]
          grind
        · grind
      · cases same
        exact due

theorem Sound.writeEoir (sound : trace.Sound) {iar : Iar}
    (allowed : trace.Allowed (.writeEoir ctxId iar)) :
    ∃ gic, trace.gic.writeEoir ctxId iar = .ok gic ∧
      Sound ⟨gic, if small : iar.ackId.val < 16 then
        .ended ⟨iar.ackId, small⟩ iar.cpuId ctxId :: trace.history else trace.history⟩ := by
  obtain ⟨⟨ready, pends, active, honest⟩, _⟩ := sound
  obtain ⟨present, matching⟩ := allowed
  have enabled : trace.gic.cpuEnabled ctxId = true :=
    (ready.cpuEnabled ctxId).trans (decide_eq_true present)
  unfold Pl390.writeEoir
  simp only [enabled, if_true]
  by_cases small : iar.ackId.val < 16
  · simp only [dif_pos small] at matching ⊢
    rw [← active] at matching
    have place : ctxId.val + 8 * iar.cpuId.val < 64 := by omega
    have set : trace.gic.cpuSgiActive ⟨iar.ackId, small⟩ &&& Pl390.sgiNum iar.cpuId ctxId ≠
        0#64 := by
      rw [Ne, Pl390.sgiNum, Pl390.and_shiftLeft_eq_zero _ place, matching]
      decide
    rw [if_neg set]
    refine ⟨_, rfl, Recorded.sound ⟨{ ready with }, fun sgi source target => ?_,
      fun sgi source target => ?_, honest.cons fun _ _ _ => nofun⟩⟩
    · rw [owed, ← pends]
      rfl
    · rw [unended, ← active]
      exact Pl390.cleared_getLsbD ..
  · simp only [dif_neg small] at matching ⊢
    have larger : ¬ iar.ackId.val < 32 := by rw [matching]; decide
    rw [if_neg larger]
    exact ⟨_, rfl, Recorded.sound ⟨{ ready with }, pends, active, honest⟩⟩

/-! ### Runs -/

/-- The number of interrupts that are owed to a CPU. -/
def owedTo (cpu : Fin 8) (history : List Event) : Nat :=
  (Finset.univ.filter fun sgi : Fin 16 × Fin 8 => owed sgi.1 sgi.2 cpu history = true).card

theorem owedTo_congr {cpu : Fin 8} {first second : List Event}
    (same : ∀ sgi source, owed sgi source cpu first = owed sgi source cpu second) :
    owedTo cpu first = owedTo cpu second := by
  simp only [owedTo, same]

def Spares (trace : Trace) (cpu : Fin 8) : Action → Prop
  | .softInt ctxId swi => trace.gic.targeted ctxId swi cpu = false
  | _ => True

theorem Sound.taken (sound : trace.Sound) {action : Action} (allowed : trace.Allowed action) :
    ∃ next, trace.step action = .ok next ∧ next.Sound ∧
      ∀ cpu, trace.Spares cpu action → owedTo cpu next.history =
        owedTo cpu trace.history - if action = .readIar cpu then 1 else 0 := by
  cases action with
  | softInt ctxId swi =>
    obtain ⟨_, sent, after⟩ := sound.softInt allowed
    refine ⟨_, by rw [step, sent]; rfl, after, fun cpu spared => owedTo_congr fun sgi source => ?_⟩
    have missed : cpu ∉ (finRange 8).filter (trace.gic.targeted ctxId swi) := by
      rw [mem_filter, spared]
      exact fun both => Bool.false_ne_true both.2
    rw [owed, decide_eq_false fun all => missed all.2.2, Bool.false_or]
  | readIar ctxId =>
    obtain ⟨iar, _, read, ⟨number, none, after⟩ | ⟨sgi, number, due, after⟩⟩ :=
      sound.readIar allowed
    · have large : ¬ iar.ackId.val < 16 := by rw [number]; decide
      refine ⟨_, by rw [step, read]; exact congrArg _ (congrArg _ (dif_neg large)), after, ?_⟩
      rintro cpu -
      split
      · rename_i same
        cases same
        have nothing : owedTo ctxId trace.history = 0 := by
          simp [owedTo, none]
        rw [nothing]
      · rfl
    · have small : iar.ackId.val < 16 := number ▸ sgi.isLt
      have same : (⟨iar.ackId, small⟩ : Fin 16) = sgi := Fin.ext number
      refine ⟨_, by rw [step, read]; exact congrArg _ (congrArg _ (dif_pos small)), ?_, ?_⟩
      · rw [same]
        exact after
      · rintro cpu -
        rw [same]
        split
        · rename_i own
          cases own
          have member : (sgi, iar.cpuId) ∈ Finset.univ.filter fun sgi : Fin 16 × Fin 8 =>
              owed sgi.1 sgi.2 ctxId trace.history = true := by
            simpa using due
          rw [owedTo, owedTo, ← card_erase_of_mem member]
          congr 1
          ext ⟨number, sender⟩
          rw [Finset.mem_filter, Finset.mem_erase, Finset.mem_filter, owed]
          grind
        · rename_i other
          have apart : ctxId ≠ cpu := fun equal => other (congrArg _ equal)
          refine owedTo_congr fun number sender => ?_
          rw [owed, decide_eq_false fun all => apart all.2.2, Bool.not_false, Bool.true_and]
  | writeEoir =>
    obtain ⟨_, written, after⟩ := sound.writeEoir allowed
    refine ⟨_, by rw [step, written]; rfl, after, fun cpu _ => owedTo_congr fun sgi source => ?_⟩
    split <;> rfl

theorem Sound.of_run (sound : trace.Sound) {guard : Trace → Action → Prop}
    (allowed : ∀ trace action, guard trace action → trace.Allowed action) {actions : List Action}
    {final : Trace} (run : Run step guard trace actions final) : final.Sound := by
  refine run.invariant_of_total Sound (fun sound meets => ?_) sound
  obtain ⟨next, stepped, kept, -⟩ := sound.taken (allowed _ _ meets)
  exact ⟨next, stepped, kept⟩

theorem Sound.drained (sound : trace.Sound) {cpu : Fin 8} {actions : List Action} {final : Trace}
    (run : Run step (fun trace action => trace.Allowed action ∧ trace.Spares cpu action) trace
      actions final) :
    owedTo cpu final.history = owedTo cpu trace.history - actions.count (.readIar cpu) := by
  induction run with
  | nil => rfl
  | cons meets taken _ hypothesis =>
    obtain ⟨_, stepped, kept, counted⟩ := sound.taken meets.1
    cases stepped.symm.trans taken
    rw [hypothesis kept, counted cpu meets.2, count_cons, Nat.sub_sub, add_comm]
    congr 2
    simp

/-- No software generated interrupt is pending or active. -/
structure Idle (gic : Pl390) : Prop where
  ready : gic.Ready
  pending : ∀ sgi, gic.cpuSgiPending sgi = 0#64
  active : ∀ sgi, gic.cpuSgiActive sgi = 0#64
  highest : ∀ cpu, gic.cpuHighestInt cpu = spuriousInt

theorem Idle.sound {gic : Pl390} (idle : Idle gic) : Sound ⟨gic, []⟩ := by
  have none : ∀ sgi source target, gic.pends sgi source target = false := by
    intro sgi source target
    rw [Pl390.pends, idle.pending, getLsbD_zero]
  refine ⟨⟨idle.ready, none, ?_, ?_⟩, fun cpu _ => ?_⟩
  · intro sgi source target
    rw [idle.active, getLsbD_zero]
    rfl
  · intro sgi source target earlier ends
    cases suffix_nil.mp ends
  · rw [idle.highest]
    rcases idle.ready.highestInt cpu with ⟨number, -⟩ | ⟨_, -, _, set⟩
    · exact number.symm
    · rw [none] at set
      cases set

/-- In every run of allowed accesses: what a CPU acknowledges was sent to it, by that CPU and since
it last acknowledged it; no access fails; a read takes an interrupt that is owed to the CPU if there
is one; and as many reads as interrupts are owed acknowledge all of them. -/
theorem sgis_delivered {gic : Pl390} (idle : Idle gic) {actions : List Action}
    (run : Run step Allowed ⟨gic, []⟩ actions trace) :
    (∀ sgi source target earlier later,
      trace.history = later ++ .acknowledged sgi source target :: earlier →
        owed sgi source target earlier = true) ∧
      (∀ action, trace.Allowed action → ∃ next, trace.step action = .ok next) ∧
      (∀ cpu : Fin 8, cpu.val < trace.gic.numContexts →
        ∃ iar gic, trace.gic.readIar cpu = .ok (iar, gic) ∧
          ((iar.ackId.val = spuriousInt ∧
              ∀ sgi source, owed sgi source cpu trace.history = false) ∨
            ∃ sgi : Fin 16, iar.ackId.val = sgi.val ∧
              owed sgi iar.cpuId cpu trace.history = true)) ∧
      ∀ cpu rest final,
        Run step (fun trace action => trace.Allowed action ∧ trace.Spares cpu action) trace rest
          final →
        owedTo cpu trace.history ≤ rest.count (.readIar cpu) →
        ∀ sgi source, owed sgi source cpu final.history = false := by
  have sound : trace.Sound := idle.sound.of_run (fun _ _ allowed => allowed) run
  refine ⟨fun sgi source target earlier later ends => ?_, fun action allowed => ?_,
    fun cpu present => ?_, fun cpu rest final continued enough sgi source => ?_⟩
  · exact sound.honest sgi source target earlier ⟨later, ends.symm⟩
  · obtain ⟨next, stepped, -⟩ := sound.taken allowed
    exact ⟨next, stepped⟩
  · obtain ⟨iar, gic, read, ⟨number, none, -⟩ | ⟨sgi, number, due, -⟩⟩ := sound.readIar present
    · exact ⟨iar, gic, read, .inl ⟨number, none⟩⟩
    · exact ⟨iar, gic, read, .inr ⟨sgi, number, due⟩⟩
  · have nothing : owedTo cpu final.history = 0 := by
      rw [sound.drained continued, Nat.sub_eq_zero_of_le enough]
    rw [owedTo, card_eq_zero, filter_eq_empty_iff] at nothing
    exact Bool.eq_false_iff.mpr (nothing (mem_univ (sgi, source)))

instance (trace : Trace) : (action : Action) → Decidable (trace.Allowed action)
  | .softInt .. => inferInstanceAs (Decidable (_ ∧ _ ∧ _))
  | .readIar _ => inferInstanceAs (Decidable (_ < _))
  | .writeEoir .. => inferInstanceAs (Decidable (_ ∧ _))

/-- The controller of the constructor, with the distributor and the CPUs enabled. -/
def allEnabled (numContexts : Nat) : Pl390 where
  numContexts := numContexts
  enabled := true
  itLines := 128
  cpuEnabled := fun cpu => decide (cpu.val < numContexts)
  cpuPriority := fun _ => 0xff#8
  cpuHighestInt := fun _ => spuriousInt
  cpuSgiPending := fun _ => 0#64
  cpuSgiActive := fun _ => 0#64
  cpuPpiPending := fun _ => 0#32
  cpuPpiActive := fun _ => 0#32
  bankedIntPriority := fun _ _ => 0#8
  intEnabled := fun _ => 0#32
  pendingInt := fun _ => 0#32
  activeInt := fun _ => 0#32
  intPriority := fun _ => 0#8
  cpuTarget := fun _ => 0#8

theorem allEnabled_idle (numContexts : Nat) : Idle (allEnabled numContexts) :=
  ⟨⟨rfl, fun _ => rfl, fun _ _ => (by decide : 0#8 < 0xff#8), fun _ => rfl, fun _ => rfl⟩,
    fun _ => rfl, fun _ => rfl, fun _ => rfl⟩

/-- Two CPUs send the same interrupt to a third, which acknowledges and ends one of them. -/
theorem sgis_delivered_two_senders : ∃ trace,
    Run step Allowed ⟨allEnabled 4, []⟩
      [.softInt 1 ⟨3, 0x04, 0⟩, .softInt 0 ⟨3, 0x04, 0⟩, .readIar 2, .writeEoir 2 ⟨3, 0⟩] trace ∧
    owedTo 2 trace.history = 1 ∧ ∃ iar gic, trace.gic.readIar 2 = .ok (iar, gic) ∧
      ((iar.ackId.val = spuriousInt ∧ ∀ sgi source, owed sgi source 2 trace.history = false) ∨
        ∃ sgi : Fin 16, iar.ackId.val = sgi.val ∧ owed sgi iar.cpuId 2 trace.history = true) := by
  refine Run.exists_checked (fun trace => owedTo 2 trace.history = 1 ∧ 2 < trace.gic.numContexts)
    (by decide +kernel) fun _ run ⟨one, present⟩ => ?_
  exact ⟨one, (sgis_delivered (allEnabled_idle 4) run).2.2.1 2 present⟩

/-- CPU 3 sends an interrupt to CPU 7, and CPU 0 acknowledges one from CPU 4. What CPU 4 sends has
no meaning. An interrupt that is acknowledged twice can be ended only once. -/
theorem sender_mistaken :
    (∃ trace, Run step (fun _ _ => True) ⟨allEnabled 8, []⟩
      [.softInt 3 ⟨0, 0x80, 0⟩, .readIar 0] trace ∧
        trace.history = [.acknowledged 0 4 0, .sent 0 3 [7]]) ∧
      step ⟨allEnabled 8, []⟩ (.softInt 4 ⟨0, 0x01, 0⟩) = .error .undefinedShift ∧
      ∃ trace, Run step (fun _ _ => True) ⟨allEnabled 2, []⟩
        [.softInt 0 ⟨0, 0x02, 0⟩, .readIar 1, .softInt 0 ⟨0, 0x02, 0⟩, .readIar 1,
          .writeEoir 1 ⟨0, 0⟩] trace ∧ trace.step (.writeEoir 1 ⟨0, 0⟩) = .error .panic := by
  refine ⟨?_, eq_error_of_raised (by decide +kernel), ?_⟩
  · exact Run.exists_check (by decide +kernel)
  · exact Run.exists_checked (fun trace => raised (trace.step (.writeEoir 1 ⟨0, 0⟩)) = some .panic)
      (by decide +kernel) fun _ _ checked => eq_error_of_raised checked

end Trace

end Gem5.Dev.Gic
