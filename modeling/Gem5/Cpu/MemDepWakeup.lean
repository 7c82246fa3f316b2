/-
This file follows the memory dependence unit over whole histories: what was inserted and how, of
which instructions the registers are ready, which producer each one found, and what has completed or
was squashed. It proves that an instruction is passed to `addReadyMemInst` once, when its registers
are ready and its producer has completed, and never after its squash, that the hash and the list
hold the instructions in flight, and that no assertion fails.
-/

import Gem5.Cpu.MemDepUnit

namespace Gem5.Cpu.MemDependence

open Library MemDepUnit List

/-- The unit with its history: the instructions that were inserted, those of them that `insert`
took, the stores and the barriers, those whose registers are ready, the producer that each one
found, and those that have completed and that were squashed. -/
structure Trace where
  unit : MemDepUnit
  last : Nat
  inserted : List Nat
  speculative : List Nat
  stores : List Nat
  barriers : List Nat
  registers : List Nat
  producer : Nat → Option Nat
  done : List Nat
  gone : List Nat

namespace Trace

def start : Trace := ⟨.start, 0, [], [], [], [], [], fun _ => none, [], []⟩

/-- What a call adds to the history. -/
def record (trace : Trace) (unit : MemDepUnit) : Call → Trace
  | .insert seqNum isStore predicted readyToIssue => { trace with
      unit, last := seqNum, inserted := seqNum :: trace.inserted
      speculative := seqNum :: trace.speculative
      stores := if isStore then seqNum :: trace.stores else trace.stores
      registers := if readyToIssue then seqNum :: trace.registers else trace.registers
      producer := fun other =>
        if other = seqNum then
          (trace.unit.addEntry seqNum (memType isStore)).findProducer (memType isStore) predicted
        else trace.producer other }
  | .insertNonSpec seqNum isStore => { trace with
      unit, last := seqNum, inserted := seqNum :: trace.inserted
      stores := if isStore then seqNum :: trace.stores else trace.stores }
  | .insertBarrier seqNum _ => { trace with
      unit, last := seqNum, inserted := seqNum :: trace.inserted
      barriers := seqNum :: trace.barriers }
  | .regsReady seqNum => { trace with unit, registers := seqNum :: trace.registers }
  | .nonSpecInstReady _ => { trace with unit }
  | .complete seqNum | .completeBarrier seqNum => { trace with unit, done := seqNum :: trace.done }
  | .squash squashed_num => { trace with
      unit, gone := trace.unit.instList.filter (squashed_num < ·) ++ trace.gone }

def step (trace : Trace) (call : Call) : Except Fault Trace := do
  let unit ← trace.unit.step call
  return trace.record unit call

/-- An instruction that was inserted and has neither completed nor been squashed. -/
def InFlight (trace : Trace) (seqNum : Nat) : Prop :=
  seqNum ∈ trace.inserted ∧ seqNum ∉ trace.done ∧ seqNum ∉ trace.gone

/-- Sequence numbers increase, the predictor names a store that came before, registers become ready
once, a memory instruction completes after it was made ready, and only what is in flight is
named. -/
def Allowed (trace : Trace) : Call → Prop
  | .insert seqNum _ predicted _ =>
    trace.last < seqNum ∧ (predicted = 0 ∨ predicted ∈ trace.stores)
  | .insertNonSpec seqNum _ | .insertBarrier seqNum _ => trace.last < seqNum
  | .regsReady seqNum =>
    seqNum ∈ trace.speculative ∧ seqNum ∉ trace.registers ∧ seqNum ∉ trace.gone
  | .nonSpecInstReady seqNum => trace.InFlight seqNum ∧ seqNum ∉ trace.speculative
  | .complete seqNum =>
    trace.InFlight seqNum ∧ seqNum ∈ trace.unit.ready ∧ seqNum ∉ trace.barriers
  | .completeBarrier seqNum => trace.InFlight seqNum ∧ seqNum ∈ trace.barriers
  | .squash _ => True

instance (trace : Trace) (call : Call) : Decidable (trace.Allowed call) :=
  match call with
  | .insert .. | .regsReady _ => inferInstanceAs (Decidable (_ ∧ _))
  | .insertNonSpec .. | .insertBarrier .. => inferInstanceAs (Decidable (_ < _))
  | .nonSpecInstReady _ | .complete _ | .completeBarrier _ =>
    inferInstanceAs (Decidable ((_ ∧ _ ∧ _) ∧ _))
  | .squash _ => inferInstanceAs (Decidable True)

/-- The producer that an instruction found, if any, has completed. -/
def ProducerDone (trace : Trace) (seqNum : Nat) : Prop :=
  ∀ producing ∈ trace.producer seqNum, producing ∈ trace.done

/-! ### The invariant -/

/-- What the lists of the history and those of the unit say of each other. -/
structure Bounded (trace : Trace) : Prop where
  listed : trace.unit.Listed trace.last
  members : ∀ seqNum, seqNum ∈ trace.unit.instList ↔ trace.InFlight seqNum
  inserted : ∀ seqNum ∈ trace.inserted, seqNum ≤ trace.last
  speculative : ∀ seqNum ∈ trace.speculative, seqNum ∈ trace.inserted
  sources : ∀ seqNum, seqNum ∈ trace.stores ∨ seqNum ∈ trace.barriers →
    seqNum ∈ trace.inserted ∧ (trace.unit.entries seqNum).type ≠ .load
  separate : ∀ seqNum ∈ trace.speculative, seqNum ∉ trace.barriers
  registers : ∀ seqNum ∈ trace.registers, seqNum ∈ trace.inserted
  ready : ∀ seqNum ∈ trace.unit.ready, seqNum ∈ trace.inserted
  done : ∀ seqNum ∈ trace.done, seqNum ∈ trace.inserted
  gone : ∀ seqNum ∈ trace.gone, seqNum ∈ trace.inserted
  squashed : ∀ seqNum ∈ trace.inserted,
    (trace.unit.entries seqNum).squashed = true ↔ seqNum ∈ trace.gone
  loadBarrier : trace.unit.loadBarrier = true → trace.unit.loadBarrierSN ∈ trace.barriers
  storeBarrier : trace.unit.storeBarrier = true → trace.unit.storeBarrierSN ∈ trace.barriers
  finished : ∀ seqNum ∈ trace.done, seqNum ∈ trace.barriers ∨ seqNum ∈ trace.unit.ready

/-- Where an instruction stands between its insertion and the ready list: whether its producer has
completed, whether it is on the producer's list, whether its registers are ready and whether it was
squashed, the two flags of its entry, and how often it was passed. -/
structure View where
  resolved : Bool
  listed : Bool
  registers : Bool
  gone : Bool
  regsReady : Bool
  memDepReady : Bool
  passed : Nat

/-- It is passed once, when its producer has completed and its registers are ready; before that it
is on the producer's list, or has the flag that lets the registers pass it. -/
structure View.Right (view : View) : Prop where
  flag : view.regsReady = view.registers
  passed : view.passed = 0 ∨
    view.passed = 1 ∧ view.registers = true ∧ view.resolved = true
  free : view.memDepReady = true → view.resolved = true
  listed : view.listed = true →
    view.resolved = false ∧ view.passed = 0 ∧ view.memDepReady = false
  released : view.gone = false → view.resolved = true →
    if view.registers then view.passed = 1 else view.memDepReady = true
  waiting : view.gone = false → view.resolved = false → view.listed = true

def view (trace : Trace) (seqNum : Nat) : View where
  resolved := (trace.producer seqNum).all (· ∈ trace.done)
  listed := (trace.producer seqNum).any fun producing =>
    seqNum ∈ (trace.unit.entries producing).dependInsts
  registers := seqNum ∈ trace.registers
  gone := seqNum ∈ trace.gone
  regsReady := (trace.unit.entries seqNum).regsReady
  memDepReady := (trace.unit.entries seqNum).memDepReady
  passed := trace.unit.ready.count seqNum

/-- Only instructions that `insert` took are on the list of a producer, once, and only on that of
their own. -/
structure Waits (trace : Trace) : Prop where
  producers : ∀ seqNum ∈ trace.speculative, ∀ producing ∈ trace.producer seqNum,
    producing ∈ trace.stores ∨ producing ∈ trace.barriers
  dependents : ∀ producing ∈ trace.inserted, (trace.unit.entries producing).dependInsts.Nodup ∧
    ∀ seqNum ∈ (trace.unit.entries producing).dependInsts,
      seqNum ∈ trace.speculative ∧ trace.producer seqNum = some producing
  right : ∀ seqNum ∈ trace.speculative, (trace.view seqNum).Right

structure Sound (trace : Trace) : Prop where
  bounded : trace.Bounded
  waits : trace.Waits

theorem sound_start : start.Sound := by
  refine ⟨⟨⟨?_, ?_, ?_, ?_⟩, ?_, ?_, ?_, ?_, ?_, ?_, ?_, ?_, ?_, ?_, ?_, ?_, ?_⟩, ⟨?_, ?_, ?_⟩⟩
  all_goals simp [start, MemDepUnit.start, InFlight]

variable {trace : Trace} {next : MemDepUnit} {seqNum : Nat}

theorem Bounded.insert (bounded : trace.Bounded) {isStore readyToIssue : Bool} {predicted : Nat}
    (fresh : trace.last < seqNum)
    (inserts : Inserts seqNum (memType isStore)
      ((trace.unit.addEntry seqNum (memType isStore)).findProducer (memType isStore) predicted)
      readyToIssue trace.unit next) :
    (trace.record next (.insert seqNum isStore predicted readyToIssue)).Bounded := by
  have kept := bounded.listed.insert fresh inserts
  obtain ⟨_, _, _, frame⟩ := inserts
  have list : next.instList = trace.unit.instList ++ [seqNum] := by rw [frame]; rfl
  have flags : next.loadBarrier = trace.unit.loadBarrier ∧
      next.loadBarrierSN = trace.unit.loadBarrierSN ∧
      next.storeBarrier = trace.unit.storeBarrier ∧
      next.storeBarrierSN = trace.unit.storeBarrierSN := by
    rw [frame]
    exact ⟨rfl, rfl, rfl, rfl⟩
  cases bounded
  constructor
  case listed => exact kept
  all_goals simp only [record, InFlight] at *
  all_goals grind [memType]

theorem View.Right.of_same {other : Trace} (right : (trace.view seqNum).Right)
    (producer : other.producer seqNum = trace.producer seqNum)
    (done : ∀ producing ∈ trace.producer seqNum, producing ∈ other.done ↔ producing ∈ trace.done)
    (lists : ∀ producing ∈ trace.producer seqNum,
      seqNum ∈ (other.unit.entries producing).dependInsts ↔
        seqNum ∈ (trace.unit.entries producing).dependInsts)
    (registers : seqNum ∈ other.registers ↔ seqNum ∈ trace.registers)
    (gone : seqNum ∈ other.gone ↔ seqNum ∈ trace.gone)
    (regsReady : (other.unit.entries seqNum).regsReady = (trace.unit.entries seqNum).regsReady)
    (memDepReady : (other.unit.entries seqNum).memDepReady =
      (trace.unit.entries seqNum).memDepReady)
    (passed : other.unit.ready.count seqNum = trace.unit.ready.count seqNum) :
    (other.view seqNum).Right := by
  have same : other.view seqNum = trace.view seqNum := by
    simp only [view, producer, registers, gone, regsReady, memDepReady, passed]
    cases found : trace.producer seqNum with
    | none => rfl
    | some producing => simp [done producing found, lists producing found]
  rwa [same]

theorem View.Right.regsReady {view : View} (right : view.Right) (unready : view.registers = false) :
    View.Right { view with
      registers := true, regsReady := true
      passed := view.passed + if view.memDepReady then 1 else 0 } := by
  obtain ⟨flag, passed, free, listed, released, waiting⟩ := right
  constructor <;> grind

/-- The producer completes: what was on its list is passed if its registers are ready, and is free
otherwise. -/
theorem View.Right.complete {view : View} (right : view.Right) (listed : view.gone = false →
      view.listed = true) (pending : view.resolved = false) :
    View.Right { view with
      resolved := true, listed := false
      passed := view.passed + if view.listed && (view.regsReady && !view.gone) then 1 else 0
      memDepReady := view.memDepReady || (view.listed && !(view.regsReady && !view.gone)) } := by
  obtain ⟨flag, passed, free, listed, released, waiting⟩ := right
  constructor <;> grind

theorem View.Right.squash {view : View} (right : view.Right) :
    View.Right { view with gone := true } := by
  obtain ⟨flag, passed, free, listed, released, waiting⟩ := right
  constructor <;> grind

section

variable (sound : trace.Sound)
include sound

theorem Sound.insert {isStore readyToIssue : Bool} {predicted : Nat}
    (fresh : trace.last < seqNum) (known : predicted = 0 ∨ predicted ∈ trace.stores)
    (inserts : Inserts seqNum (memType isStore)
      ((trace.unit.addEntry seqNum (memType isStore)).findProducer (memType isStore) predicted)
      readyToIssue trace.unit next) :
    (trace.record next (.insert seqNum isStore predicted readyToIssue)).Sound := by
  refine ⟨sound.bounded.insert fresh inserts, ?_⟩
  obtain ⟨producers, _, right⟩ := sound.waits
  have new : seqNum ∉ trace.inserted := fun member =>
    absurd (sound.bounded.inserted seqNum member) (Nat.not_le_of_gt fresh)
  have notReady : seqNum ∉ trace.unit.ready := fun member => new (sound.bounded.ready seqNum member)
  have source : ∀ producing ∈ (trace.unit.addEntry seqNum (memType isStore)).findProducer
      (memType isStore) predicted, (producing ∈ trace.stores ∨ producing ∈ trace.barriers) ∧
        producing ∈ trace.inserted ∧ producing ∉ trace.done := by
    have hash := sound.bounded.listed.hash
    have members := sound.bounded.members
    have load := sound.bounded.loadBarrier
    have store := sound.bounded.storeBarrier
    have sources := sound.bounded.sources
    simp only [findProducer, addEntry, InFlight] at members ⊢
    grind
  have speculative := sound.bounded.speculative
  have notRegisters : seqNum ∉ trace.registers :=
    fun member => new (sound.bounded.registers seqNum member)
  obtain ⟨own, others, now, -⟩ := inserts
  simp only [record]
  generalize (trace.unit.addEntry seqNum (memType isStore)).findProducer (memType isStore)
    predicted = producer at *
  have fresh_list : (next.entries seqNum).dependInsts = [] := by
    have apart : producer ≠ some seqNum := fun found => new (source seqNum found).2.1
    rw [own]
    exact if_neg apart
  have lists : ∀ producing ∈ trace.inserted, (next.entries producing).dependInsts =
      (trace.unit.entries producing).dependInsts ++
        if producer = some producing then [seqNum] else [] := by
    intro producing member
    rw [others producing fun same => new (same ▸ member)]
    split <;> simp
  constructor
  · grind
  · intro producing member
    rcases mem_cons.mp member with rfl | earlier
    · rw [fresh_list]
      exact ⟨nodup_nil, forall_mem_nil _⟩
    · rw [lists producing earlier]
      grind
  · intro other member
    by_cases same : other = seqNum
    · subst same
      have counted : next.ready.count other = if producer.isNone && readyToIssue then 1 else 0 := by
        rw [now, count_append, count_eq_zero_of_not_mem notReady]
        split <;> simp
      have flags : (next.entries other).regsReady = readyToIssue ∧
          (next.entries other).memDepReady = producer.isNone := by
        rw [own]
        exact ⟨rfl, rfl⟩
      cases producer with
      | none =>
        cases readyToIssue <;> constructor <;> simp [view, flags, counted, notRegisters]
      | some producing =>
        obtain ⟨-, inserted, running⟩ := source producing rfl
        have listed := lists producing inserted
        cases readyToIssue <;> constructor <;>
          simp [view, flags, counted, notRegisters, running, listed]
    · have old : other ∈ trace.speculative := (mem_cons.mp member).resolve_left same
      refine (right other old).of_same (if_neg same) (fun _ _ => Iff.rfl) ?_ ?_ Iff.rfl ?_ ?_ ?_
      · intro producing found
        have inserted : producing ∈ trace.inserted := by
          rcases producers other old producing found with store | barrier
          · exact (sound.bounded.sources producing (.inl store)).1
          · exact (sound.bounded.sources producing (.inr barrier)).1
        rw [lists producing inserted]
        split <;> simp [same]
      · grind
      · rw [others other same]
        split <;> rfl
      · rw [others other same]
        split <;> rfl
      · rw [now, count_append]
        split <;> simp [Ne.symm same]

theorem Sound.add (fresh : trace.last < seqNum) (type : InstType)
    {stores barriers : List Nat}
    (entries : next.entries = (trace.unit.addEntry seqNum type).entries)
    (listed : next.Listed seqNum)
    (list : next.instList = trace.unit.instList ++ [seqNum]) (ready : next.ready = trace.unit.ready)
    (sources : ∀ other, other ∈ stores ∨ other ∈ barriers →
      other ∈ trace.stores ∨ other ∈ trace.barriers ∨ other = seqNum ∧ type ≠ .load)
    (keptStores : ∀ other ∈ trace.stores, other ∈ stores)
    (keptBarriers : ∀ other, other ∈ trace.barriers ∨ other ∈ barriers →
      other ∈ barriers ∧ (other ∈ trace.barriers ∨ other = seqNum))
    (load : next.loadBarrier = true → next.loadBarrierSN ∈ barriers)
    (store : next.storeBarrier = true → next.storeBarrierSN ∈ barriers) :
    Sound { trace with
      unit := next, last := seqNum, inserted := seqNum :: trace.inserted, stores, barriers } := by
  have new : seqNum ∉ trace.inserted := fun member =>
    absurd (sound.bounded.inserted seqNum member) (Nat.not_le_of_gt fresh)
  have others : ∀ other ∈ trace.inserted, next.entries other = trace.unit.entries other := by
    intro other member
    rw [entries]
    exact if_neg fun same : other = seqNum => new (same ▸ member)
  have own : next.entries seqNum = ⟨type, [], false, false, false⟩ := by
    rw [entries]
    exact if_pos rfl
  obtain ⟨producers, _, right⟩ := sound.waits
  refine ⟨?_, ?_, ?_, ?_⟩
  · cases sound.bounded
    constructor
    case listed => exact listed
    all_goals simp only [InFlight] at *
    all_goals grind
  · grind
  · grind
  · intro other member
    have inserted := sound.bounded.speculative other member
    refine (right other member).of_same rfl (fun _ _ => Iff.rfl) ?_ Iff.rfl Iff.rfl ?_ ?_ ?_
    · intro producing found
      have source := sound.bounded.sources producing (producers other member producing found)
      rw [others producing source.1]
    · rw [others other inserted]
    · rw [others other inserted]
    · rw [ready]

theorem Sound.regsReady (member : seqNum ∈ trace.speculative)
    (unready : seqNum ∉ trace.registers) (live : seqNum ∉ trace.gone) :
    ∃ next, trace.unit.regsReady seqNum = .ok next ∧
      (trace.record next (.regsReady seqNum)).Sound ∧
      ∀ other ∈ trace.gone, next.ready.count other = trace.unit.ready.count other := by
  obtain ⟨producers, _, right⟩ := sound.waits
  have before := right seqNum member
  have unpassed : trace.unit.ready.count seqNum = 0 := by
    rcases before.passed with none | ⟨-, ready, -⟩
    · exact none
    · exact absurd (of_decide_eq_true ready) unready
  have waits : seqNum ∉ trace.unit.ready := count_eq_zero.mp unpassed
  have inserted := sound.bounded.speculative seqNum member
  -- What was not passed and is no barrier has not completed.
  have inFlight : trace.InFlight seqNum := ⟨inserted, fun done =>
    (sound.bounded.finished seqNum done).elim (sound.bounded.separate seqNum member) waits, live⟩
  refine ⟨_, regsReady_spec sound.bounded.listed ((sound.bounded.members seqNum).mpr inFlight),
    ⟨?_, producers, ?_, ?_⟩, ?_⟩
  · obtain ⟨sorted, bounds, hash, _⟩ := sound.bounded.listed
    cases sound.bounded
    refine ⟨⟨sorted, bounds, hash, ?_⟩, ?_, ?_, ?_, ?_, ?_, ?_, ?_, ?_, ?_, ?_, ?_, ?_, ?_⟩
    all_goals simp only [record, InFlight] at *
    all_goals grind
  · simp only [record]
    grind
  · intro other found
    by_cases same : other = seqNum
    · subst same
      have now := before.regsReady (decide_eq_false unready)
      convert now using 1
      simp only [view, record, View.mk.injEq]
      refine ⟨trivial, ?_, ?_, trivial, ?_, ?_, ?_⟩
      · cases trace.producer other <;> grind
      all_goals grind
    · refine (right other found).of_same rfl (fun _ _ => Iff.rfl) ?_ ?_ Iff.rfl ?_ ?_ ?_
      all_goals simp only [record]
      all_goals grind
  · intro other found
    have apart : other ≠ seqNum := fun same => live (same ▸ found)
    split <;> simp [count_append, Ne.symm apart]

/-- An instruction that `insert` did not take is passed. -/
theorem Sound.nonSpecInstReady (inFlight : trace.InFlight seqNum)
    (other : seqNum ∉ trace.speculative) :
    ∃ next, trace.unit.nonSpecInstReady seqNum = .ok next ∧
      (trace.record next (.nonSpecInstReady seqNum)).Sound ∧
      ∀ other ∈ trace.gone, next.ready.count other = trace.unit.ready.count other := by
  have present := (sound.bounded.members seqNum).mpr inFlight
  have hash := (sound.bounded.listed.hash seqNum).mpr present
  have valid : ¬ (trace.unit.entries seqNum).squashed = true := by
    simp [sound.bounded.listed.live seqNum present]
  have moved : trace.unit.nonSpecInstReady seqNum =
      .ok { trace.unit with ready := trace.unit.ready ++ [seqNum] } :=
    (if_pos hash).trans (if_neg valid)
  obtain ⟨producers, dependents, right⟩ := sound.waits
  refine ⟨_, moved, ⟨?_, producers, dependents, fun found member => ?_⟩, fun gone member => ?_⟩
  · have bounded := sound.bounded
    refine { bounded with listed := { bounded.listed with }, ready := ?_, finished := ?_ }
    · simp only [record]
      grind [bounded.ready, inFlight.1]
    · simp only [record]
      grind [bounded.finished]
  · refine (right found member).of_same rfl (fun _ _ => Iff.rfl) (fun _ _ => Iff.rfl) Iff.rfl
      Iff.rfl rfl rfl ?_
    have apart : found ≠ seqNum := fun same => other (same ▸ member)
    simp [record, count_append, Ne.symm apart]
  · have apart : gone ≠ seqNum := fun same => inFlight.2.2 (same ▸ member)
    simp [count_append, Ne.symm apart]

theorem Sound.complete (inFlight : trace.InFlight seqNum)
    (finished : seqNum ∈ trace.barriers ∨ seqNum ∈ trace.unit.ready)
    (completes : Completes seqNum trace.unit next)
    (load : next.loadBarrier = true → trace.unit.loadBarrier = true)
    (store : next.storeBarrier = true → trace.unit.storeBarrier = true) :
    (trace.record next (.complete seqNum)).Sound ∧
      ∀ other ∈ trace.gone, next.ready.count other = trace.unit.ready.count other := by
  have kept := sound.bounded.listed.complete completes
  obtain ⟨producers, dependents, right⟩ := sound.waits
  obtain ⟨distinct, woken⟩ : (trace.unit.woken seqNum).Nodup ∧ ∀ other ∈ trace.unit.woken seqNum,
      other ∈ trace.speculative ∧ trace.producer other = some seqNum := by
    rw [MemDepUnit.woken]
    split
    · exact ⟨nodup_nil, forall_mem_nil _⟩
    · exact dependents seqNum inFlight.1
  have counted : ∀ other, next.ready.count other = trace.unit.ready.count other +
      if other ∈ trace.unit.woken seqNum ∧ trace.unit.eligible other = true then 1 else 0 := by
    intro other
    rw [completes.ready, count_append]
    congr 1
    rw [(distinct.filter _).count]
    simp only [mem_filter]
  have squashed : ∀ other ∈ trace.speculative,
      (trace.unit.entries other).squashed = decide (other ∈ trace.gone) := by
    intro other member
    rw [Bool.eq_iff_iff, decide_eq_true_iff]
    exact sound.bounded.squashed other (sound.bounded.speculative other member)
  refine ⟨⟨?_, producers, ?_, ?_⟩, ?_⟩
  · have distinct : trace.unit.instList.Nodup := sound.bounded.listed.sorted.imp Nat.ne_of_lt
    have members' : ∀ other, other ∈ next.instList ↔
        other ≠ seqNum ∧ other ∈ trace.unit.instList := by
      intro other
      rw [completes.list, distinct.mem_erase_iff]
    have loadSN := completes.loadBarrierSN
    have storeSN := completes.storeBarrierSN
    cases sound.bounded
    obtain ⟨_, -, _, -⟩ := completes
    constructor
    case listed => exact kept
    all_goals simp only [record, InFlight] at *
    all_goals grind
  · intro producing member
    simp only [record] at member ⊢
    rw [completes.dependInsts]
    split
    · exact ⟨nodup_nil, forall_mem_nil _⟩
    · exact dependents producing member
  · intro other member
    by_cases own : trace.producer other = some seqNum
    · have source : (trace.unit.entries seqNum).type ≠ .load :=
        (sound.bounded.sources seqNum (producers other member seqNum own)).2
      have list : trace.unit.woken seqNum = (trace.unit.entries seqNum).dependInsts := if_neg source
      have before := right other member
      have pending : (trace.view other).resolved = false := by
        simp [view, own, inFlight.2.1]
      have now := before.complete (fun live => before.waiting live pending) pending
      convert now using 1
      have flag := completes.memDepReady other
      have valid := squashed other member
      simp only [view, record, View.mk.injEq, own, completes.regsReady, completes.dependInsts,
        counted, list, eligible, Option.any_some, Option.all_some] at flag ⊢
      refine ⟨?_, ?_, rfl, rfl, trivial, ?_, ?_⟩
      · simp
      · simp [source]
      · rw [Bool.eq_iff_iff, flag, valid]
        grind
      · rw [valid]
        simp
    · have unlisted : other ∉ trace.unit.woken seqNum := fun listed => own (woken other listed).2
      refine (right other member).of_same rfl ?_ ?_ Iff.rfl Iff.rfl (completes.regsReady other)
        ?_ ?_
      · intro producing found
        have apart : producing ≠ seqNum := fun same => own (same ▸ found)
        simp [record, apart]
      · intro producing found
        have apart : producing ≠ seqNum := fun same => own (same ▸ found)
        simp only [record]
        rw [completes.dependInsts, if_neg fun both => apart both.1]
      · rw [Bool.eq_iff_iff]
        exact (completes.memDepReady other).trans (or_iff_left fun both => unlisted both.1)
      · simp only [record]
        rw [counted, if_neg fun both => unlisted both.1]
        rfl
  · intro other member
    rw [counted, if_neg, Nat.add_zero]
    rintro ⟨listed, eligible⟩
    simp [MemDepUnit.eligible, squashed other (woken other listed).1, member] at eligible

theorem Sound.squash {squashed_num : Nat} (squashes : Squashes squashed_num trace.unit next) :
    (trace.record next (.squash squashed_num)).Sound := by
  have kept := sound.bounded.listed.squash squashes
  obtain ⟨producers, dependents, right⟩ := sound.waits
  have fields : ∀ other, (next.entries other).type = (trace.unit.entries other).type ∧
      (next.entries other).dependInsts = (trace.unit.entries other).dependInsts ∧
      (next.entries other).regsReady = (trace.unit.entries other).regsReady ∧
      (next.entries other).memDepReady = (trace.unit.entries other).memDepReady := by
    intro other
    rw [squashes.entries]
    split <;> exact ⟨rfl, rfl, rfl, rfl⟩
  refine ⟨?_, producers, ?_, ?_⟩
  · cases sound.bounded
    obtain ⟨_, -, _⟩ := squashes
    constructor
    case listed => exact kept
    all_goals simp only [record, InFlight] at *
    all_goals grind
  · intro producing member
    simp only [record] at member ⊢
    rw [(fields producing).2.1]
    exact dependents producing member
  · intro other member
    by_cases now : other ∈ trace.unit.instList.filter (squashed_num < ·)
    · have before := (right other member).squash
      convert before using 1
      simp only [view, record, fields, squashes.ready, mem_append, now, true_or, decide_true]
      rfl
    · refine (right other member).of_same rfl (fun _ _ => Iff.rfl) (fun producing _ => ?_) Iff.rfl
        ?_ (fields other).2.2.1 (fields other).2.2.2 ?_
      · simp only [record, (fields producing).2.1]
      · simp only [record, mem_append, now, false_or]
      · simp only [record, squashes.ready]

end

/-! ### Whole histories -/

theorem Sound.taken (sound : trace.Sound) {call : Call} (allowed : trace.Allowed call) :
    ∃ next, trace.step call = .ok next ∧ next.Sound ∧
      ∀ other ∈ trace.gone, next.unit.ready.count other = trace.unit.ready.count other := by
  have bounded := sound.bounded
  have stale : ∀ other ∈ trace.gone, ∀ seqNum, trace.last < seqNum → other ≠ seqNum := by
    rintro other member seqNum fresh rfl
    exact absurd (bounded.inserted other (bounded.gone other member)) (Nat.not_le_of_gt fresh)
  cases call with
  | insert seqNum isStore predicted readyToIssue =>
    obtain ⟨_, taken, inserts⟩ := insert_spec trace.unit seqNum (memType isStore) predicted
      readyToIssue
    refine ⟨_, congrArg (Except.map _) taken, sound.insert allowed.1 allowed.2 inserts, ?_⟩
    intro other member
    have apart := stale other member seqNum allowed.1
    simp only [record, inserts.ready]
    split <;> simp [count_append, Ne.symm apart]
  | insertNonSpec _ isStore =>
    refine ⟨_, rfl, sound.add allowed (memType isStore) rfl (bounded.listed.add allowed _) rfl rfl
      ?_ ?_ ?_ bounded.loadBarrier bounded.storeBarrier, fun _ _ => rfl⟩
    all_goals grind [memType]
  | insertBarrier _ isMemBarrier =>
    have listed := bounded.listed.add allowed (barrierType isMemBarrier)
    cases isMemBarrier with
    | false =>
      refine ⟨_, rfl, sound.add allowed .writeBarrier rfl { listed with } rfl rfl ?_ ?_ ?_ ?_ ?_,
        fun _ _ => rfl⟩
      · grind
      · exact fun _ => id
      · grind
      · exact fun set => mem_cons_of_mem _ (bounded.loadBarrier set)
      · exact fun _ => mem_cons_self
    | true =>
      refine ⟨_, rfl, sound.add allowed .memBarrier rfl { listed with } rfl rfl ?_ ?_ ?_ ?_ ?_,
        fun _ _ => rfl⟩
      · grind
      · exact fun _ => id
      · grind
      · exact fun _ => mem_cons_self
      · exact fun _ => mem_cons_self
  | regsReady =>
    obtain ⟨_, taken, kept, rest⟩ := sound.regsReady allowed.1 allowed.2.1 allowed.2.2
    exact ⟨_, congrArg (Except.map _) taken, kept, rest⟩
  | nonSpecInstReady =>
    obtain ⟨_, taken, kept, rest⟩ := sound.nonSpecInstReady allowed.1 allowed.2
    exact ⟨_, congrArg (Except.map _) taken, kept, rest⟩
  | complete seqNum =>
    obtain ⟨inFlight, ready, -⟩ := allowed
    have present := (bounded.listed.hash seqNum).mpr ((bounded.members seqNum).mpr inFlight)
    obtain ⟨_, taken, completes, load, store⟩ := complete_spec present
    obtain ⟨kept, rest⟩ := sound.complete inFlight (.inr ready) completes (load ▸ id) (store ▸ id)
    exact ⟨_, congrArg (Except.map _) taken, kept, rest⟩
  | completeBarrier seqNum =>
    obtain ⟨inFlight, barrier⟩ := allowed
    have present := (bounded.listed.hash seqNum).mpr ((bounded.members seqNum).mpr inFlight)
    obtain ⟨_, taken, completes, load, store⟩ := completeBarrier_spec present
    obtain ⟨kept, rest⟩ := sound.complete inFlight (.inl barrier) completes
      (fun set => (load.mp set).1) fun set => (store.mp set).1
    exact ⟨_, congrArg (Except.map _) taken, kept, rest⟩
  | squash squashed_num =>
    obtain ⟨_, taken, squashes⟩ := squash_spec bounded.listed squashed_num
    exact ⟨_, congrArg (Except.map _) taken, sound.squash squashes,
      fun other _ => congrArg (count other) squashes.ready⟩

theorem Sound.of_run {calls : List Call} (run : Run step Allowed start calls trace) :
    trace.Sound := by
  refine run.invariant_of_total Sound (fun sound meets => ?_) sound_start
  obtain ⟨next, reached, kept, -⟩ := sound.taken meets
  exact ⟨next, reached, kept⟩

/-- An instruction that `insert` took is passed to `addReadyMemInst` at most once, only when its
registers are ready and its producer has completed, and by then unless it was squashed; the hash and
the list hold the instructions in flight; no call fails and none passes a squashed instruction. -/
theorem wakes_once {calls : List Call} (run : Run step Allowed start calls trace) :
    (∀ seqNum ∈ trace.speculative,
      trace.unit.ready.count seqNum ≤ 1 ∧
      (seqNum ∈ trace.unit.ready → seqNum ∈ trace.registers ∧ trace.ProducerDone seqNum) ∧
      (seqNum ∉ trace.gone → seqNum ∈ trace.registers → trace.ProducerDone seqNum →
        seqNum ∈ trace.unit.ready)) ∧
    (∀ seqNum, (trace.unit.memDepHash seqNum = true ↔ seqNum ∈ trace.unit.instList) ∧
      (seqNum ∈ trace.unit.instList ↔ trace.InFlight seqNum)) ∧
    ∀ call, trace.Allowed call → ∃ next, trace.step call = .ok next ∧
      ∀ other ∈ trace.gone, next.unit.ready.count other = trace.unit.ready.count other := by
  have sound := Sound.of_run run
  refine ⟨fun seqNum member => ?_, fun seqNum => ⟨sound.bounded.listed.hash seqNum,
    sound.bounded.members seqNum⟩, fun call allowed => ?_⟩
  · have right := sound.waits.right seqNum member
    have done : (trace.view seqNum).resolved = true ↔ trace.ProducerDone seqNum := by
      rw [ProducerDone, view]
      cases trace.producer seqNum <;> simp
    have passed := right.passed
    rw [done] at passed
    refine ⟨?_, fun ready => ?_, fun live registers resolved => ?_⟩
    · have counted : (trace.view seqNum).passed = trace.unit.ready.count seqNum := rfl
      omega
    · rcases passed with none | ⟨-, registers, resolved⟩
      · exact absurd ready (count_eq_zero.mp none)
      · exact ⟨of_decide_eq_true registers, resolved⟩
    · have ready : (trace.view seqNum).registers = true := decide_eq_true registers
      have one := right.released (decide_eq_false live) (done.mpr resolved)
      rw [if_pos ready] at one
      exact count_pos_iff.mp (Nat.lt_of_lt_of_eq Nat.zero_lt_one one.symm)
  · obtain ⟨next, taken, -, rest⟩ := sound.taken allowed
    exact ⟨next, taken, rest⟩

/-- A load behind a store: its registers are ready first, and it is passed with the store. -/
theorem wakes_once_behind_store : ∃ trace, Run step Allowed start
    [.insert 1 true 0 false, .insert 2 false 1 true, .regsReady 1, .complete 1] trace ∧
    trace.unit.ready.count 2 ≤ 1 ∧ 2 ∈ trace.unit.ready := by
  refine Run.exists_checked (fun trace => 2 ∈ trace.speculative ∧ 2 ∉ trace.gone ∧
      2 ∈ trace.registers ∧ trace.producer 2 = some 1 ∧ 1 ∈ trace.done)
    (by decide +kernel) fun _ run ⟨member, live, registers, producer, done⟩ => ?_
  obtain ⟨once, -, passed⟩ := (wakes_once run).1 2 member
  refine ⟨once, passed live registers ?_⟩
  rw [ProducerDone, producer]
  rintro _ ⟨⟩
  exact done

end Trace

end Gem5.Cpu.MemDependence
