/-
This file models the memory dependence unit of the O3 CPU (`cpu/o3/mem_dep_unit_impl.hh`) for one
thread. An instruction that is inserted depends on the barrier in flight or on the store that the
predictor names, if the unit still has it; it is passed to `addReadyMemInst` when its registers are
ready and its producer has completed. Entries outlive the hash, since the dependent list of a
producer refers to them.

It says what each operation does, field by field, and that the list of instructions stays in order
and agrees with the hash.
-/

import Gem5.Library.Run
import Mathlib.Data.List.Nodup

namespace Gem5.Cpu.MemDependence

open Library List

inductive Fault where
  | assertion
  deriving DecidableEq

inductive InstType where
  | load
  | store
  | memBarrier
  | writeBarrier
  deriving DecidableEq

structure MemDepEntry where
  type : InstType
  dependInsts : List Nat
  regsReady : Bool
  memDepReady : Bool
  squashed : Bool

/-- An instruction is known by its sequence number. `entries` has every entry that was made, those
that left the hash included; `ready` lists what was passed to `addReadyMemInst`. -/
structure MemDepUnit where
  entries : Nat → MemDepEntry
  memDepHash : Nat → Bool
  instList : List Nat
  loadBarrier : Bool
  loadBarrierSN : Nat
  storeBarrier : Bool
  storeBarrierSN : Nat
  ready : List Nat

namespace MemDepUnit

def start : MemDepUnit :=
  ⟨fun _ => ⟨.load, [], false, false, false⟩, fun _ => false, [], false, 0, false, 0, []⟩

def setEntry (unit : MemDepUnit) (seqNum : Nat) (entry : MemDepEntry) : MemDepUnit :=
  { unit with entries := fun other => if other = seqNum then entry else unit.entries other }

def addEntry (unit : MemDepUnit) (seqNum : Nat) (type : InstType) : MemDepUnit :=
  { unit with
    entries := fun other =>
      if other = seqNum then ⟨type, [], false, false, false⟩ else unit.entries other
    memDepHash := fun other => other == seqNum || unit.memDepHash other
    instList := unit.instList ++ [seqNum] }

def moveToReady (unit : MemDepUnit) (seqNum : Nat) : Except Fault MemDepUnit :=
  if (unit.entries seqNum).squashed then .error .assertion
  else .ok { unit with ready := unit.ready ++ [seqNum] }

/-- The entry that a load or store depends on: the barrier in flight or the store that the predictor
names, if it is in the hash. -/
def findProducer (unit : MemDepUnit) (type : InstType) (predicted : Nat) : Option Nat :=
  let producing_store :=
    if type = .load ∧ unit.loadBarrier then unit.loadBarrierSN
    else if type = .store ∧ unit.storeBarrier then unit.storeBarrierSN
    else predicted
  if producing_store ≠ 0 ∧ unit.memDepHash producing_store then some producing_store else none

def insert (unit : MemDepUnit) (seqNum : Nat) (type : InstType) (predicted : Nat)
    (readyToIssue : Bool) : Except Fault MemDepUnit :=
  let unit := unit.addEntry seqNum type
  match unit.findProducer type predicted with
  | none =>
    let unit := unit.setEntry seqNum
      { unit.entries seqNum with memDepReady := true, regsReady := readyToIssue }
    if readyToIssue then unit.moveToReady seqNum else .ok unit
  | some producing_store =>
    let unit := unit.setEntry seqNum { unit.entries seqNum with regsReady := readyToIssue }
    let store_entry := unit.entries producing_store
    .ok (unit.setEntry producing_store
      { store_entry with dependInsts := store_entry.dependInsts ++ [seqNum] })

def insertNonSpec (unit : MemDepUnit) (seqNum : Nat) (type : InstType) : MemDepUnit :=
  unit.addEntry seqNum type

def insertBarrier (unit : MemDepUnit) (seqNum : Nat) (type : InstType) : MemDepUnit :=
  let unit := match type with
    | .memBarrier => { unit with
        loadBarrier := true, loadBarrierSN := seqNum
        storeBarrier := true, storeBarrierSN := seqNum }
    | .writeBarrier => { unit with storeBarrier := true, storeBarrierSN := seqNum }
    | _ => unit
  unit.addEntry seqNum type

def regsReady (unit : MemDepUnit) (seqNum : Nat) : Except Fault MemDepUnit :=
  if unit.memDepHash seqNum then
    let unit := unit.setEntry seqNum { unit.entries seqNum with regsReady := true }
    if (unit.entries seqNum).memDepReady then unit.moveToReady seqNum else .ok unit
  else .error .assertion

def nonSpecInstReady (unit : MemDepUnit) (seqNum : Nat) : Except Fault MemDepUnit :=
  if unit.memDepHash seqNum then unit.moveToReady seqNum else .error .assertion

def completed (unit : MemDepUnit) (seqNum : Nat) : Except Fault MemDepUnit :=
  if unit.memDepHash seqNum then
    .ok { unit with
      instList := unit.instList.erase seqNum
      memDepHash := fun other => other != seqNum && unit.memDepHash other }
  else .error .assertion

/-- A dependent that goes to the ready list when its producer completes. -/
def eligible (unit : MemDepUnit) (seqNum : Nat) : Bool :=
  (unit.entries seqNum).regsReady && !(unit.entries seqNum).squashed

def wakeLoop : List Nat → MemDepUnit → Except Fault MemDepUnit
  | [], unit => .ok unit
  | woken :: rest, unit => do
    let unit ←
      if unit.eligible woken then unit.moveToReady woken
      else .ok (unit.setEntry woken { unit.entries woken with memDepReady := true })
    wakeLoop rest unit

def wakeDependents (unit : MemDepUnit) (seqNum : Nat) : Except Fault MemDepUnit :=
  if (unit.entries seqNum).type = .load then .ok unit
  else if unit.memDepHash seqNum then do
    let unit ← wakeLoop (unit.entries seqNum).dependInsts unit
    return unit.setEntry seqNum { unit.entries seqNum with dependInsts := [] }
  else .error .assertion

def completeBarrier (unit : MemDepUnit) (seqNum : Nat) : Except Fault MemDepUnit := do
  let unit ← unit.wakeDependents seqNum
  let unit ← unit.completed seqNum
  return match (unit.entries seqNum).type with
    | .memBarrier => { unit with
        loadBarrier := unit.loadBarrier && unit.loadBarrierSN != seqNum
        storeBarrier := unit.storeBarrier && unit.storeBarrierSN != seqNum }
    | .writeBarrier => { unit with
        storeBarrier := unit.storeBarrier && unit.storeBarrierSN != seqNum }
    | _ => unit

/-- The loop of `squash` over the list from its end. -/
def squashLoop (squashed_num : Nat) : List Nat → MemDepUnit → Except Fault MemDepUnit
  | [], unit => .ok unit
  | seqNum :: older, unit =>
    if seqNum ≤ squashed_num then .ok unit
    else if unit.memDepHash seqNum then
      squashLoop squashed_num older { unit.setEntry seqNum
          { unit.entries seqNum with squashed := true } with
        loadBarrier := unit.loadBarrier && unit.loadBarrierSN != seqNum
        storeBarrier := unit.storeBarrier && unit.storeBarrierSN != seqNum
        memDepHash := fun other => other != seqNum && unit.memDepHash other
        instList := older.reverse }
    else .error .assertion

def squash (unit : MemDepUnit) (squashed_num : Nat) : Except Fault MemDepUnit :=
  squashLoop squashed_num unit.instList.reverse unit

/-! ### What the operations do -/

theorem wakeLoop_eq (dependents : List Nat) (unit : MemDepUnit) :
    wakeLoop dependents unit = .ok { unit with
      entries := fun seqNum =>
        if seqNum ∈ dependents ∧ unit.eligible seqNum = false then
          { unit.entries seqNum with memDepReady := true } else unit.entries seqNum
      ready := unit.ready ++ dependents.filter unit.eligible } := by
  induction dependents generalizing unit with
  | nil => simp [wakeLoop]
  | cons woken _ hypothesis =>
    rw [wakeLoop]
    by_cases passes : unit.eligible woken = true
    · have valid : ¬ (unit.entries woken).squashed = true := by
        simp only [eligible, Bool.and_eq_true, Bool.not_eq_true'] at passes
        simp [passes.2]
      rw [if_pos passes, moveToReady, if_neg valid, ok_bind]
      dsimp only
      rw [hypothesis]
      have same : ({ unit with ready := unit.ready ++ [woken] } : MemDepUnit).eligible =
        unit.eligible := rfl
      simp only [same, filter_cons, passes, if_true, append_assoc, cons_append,
        nil_append, mem_cons]
      congr 2
      funext seqNum
      grind
    · rw [if_neg passes, ok_bind]
      dsimp only
      rw [hypothesis]
      have same : (unit.setEntry woken { unit.entries woken with memDepReady := true }).eligible =
          unit.eligible := by
        funext seqNum
        simp only [eligible, setEntry]
        grind
      simp only [same, filter_cons, passes, mem_cons]
      congr 2
      funext seqNum
      simp only [setEntry]
      grind

/-- The list is in order and the hash has the same instructions, none of them squashed. -/
structure Listed (unit : MemDepUnit) (last : Nat) : Prop where
  sorted : unit.instList.Pairwise (· < ·)
  bounded : ∀ seqNum ∈ unit.instList, 0 < seqNum ∧ seqNum ≤ last
  hash : ∀ seqNum, unit.memDepHash seqNum = true ↔ seqNum ∈ unit.instList
  live : ∀ seqNum ∈ unit.instList, (unit.entries seqNum).squashed = false

/-- What a squash leaves: the instructions up to a number, and the barriers among them. -/
structure Squashes (squashed_num : Nat) (unit next : MemDepUnit) : Prop where
  entries : ∀ seqNum, next.entries seqNum =
    if seqNum ∈ unit.instList ∧ squashed_num < seqNum then
      { unit.entries seqNum with squashed := true } else unit.entries seqNum
  hash : ∀ seqNum, next.memDepHash seqNum = true ↔
    unit.memDepHash seqNum = true ∧ ¬ (seqNum ∈ unit.instList ∧ squashed_num < seqNum)
  list : next.instList = unit.instList.filter (· ≤ squashed_num)
  loadBarrier : next.loadBarrier = true ↔ unit.loadBarrier = true ∧
    ¬ (unit.loadBarrierSN ∈ unit.instList ∧ squashed_num < unit.loadBarrierSN)
  storeBarrier : next.storeBarrier = true ↔ unit.storeBarrier = true ∧
    ¬ (unit.storeBarrierSN ∈ unit.instList ∧ squashed_num < unit.storeBarrierSN)
  loadBarrierSN : next.loadBarrierSN = unit.loadBarrierSN
  storeBarrierSN : next.storeBarrierSN = unit.storeBarrierSN
  ready : next.ready = unit.ready

theorem squashLoop_spec (squashed_num : Nat) (list : List Nat) {unit : MemDepUnit}
    (reversed : unit.instList = list.reverse) (sorted : unit.instList.Pairwise (· < ·))
    (hash : ∀ seqNum ∈ unit.instList, unit.memDepHash seqNum = true) :
    ∃ next, squashLoop squashed_num list unit = .ok next ∧ Squashes squashed_num unit next := by
  induction list generalizing unit with
  | nil =>
    refine ⟨unit, rfl, ?_⟩
    constructor <;> simp [reversed]
  | cons last older hypothesis =>
    rw [reverse_cons] at reversed
    rw [reversed, pairwise_append] at sorted
    obtain ⟨ordered, -, before⟩ := sorted
    have below : ∀ seqNum ∈ older.reverse, seqNum < last :=
      fun seqNum member => before seqNum member last mem_cons_self
    have present : unit.memDepHash last = true := by
      refine hash last ?_
      rw [reversed]
      exact mem_append_right _ mem_cons_self
    rw [squashLoop]
    by_cases kept : last ≤ squashed_num
    · rw [if_pos kept]
      have all : ∀ seqNum ∈ unit.instList, seqNum ≤ squashed_num := by
        rw [reversed]
        grind
      have list : unit.instList.filter (· ≤ squashed_num) = unit.instList := by
        rw [filter_eq_self]
        exact fun seqNum member => decide_eq_true (all seqNum member)
      refine ⟨unit, rfl, ?_⟩
      constructor <;> grind
    · rw [if_neg kept, if_pos present]
      obtain ⟨next, looped, entries, inHash, list, load, store, loadSN, storeSN, ready⟩ :=
        @hypothesis { unit.setEntry last { unit.entries last with squashed := true } with
          loadBarrier := unit.loadBarrier && unit.loadBarrierSN != last
          storeBarrier := unit.storeBarrier && unit.storeBarrierSN != last
          memDepHash := fun other => other != last && unit.memDepHash other
          instList := older.reverse } rfl ordered (by grind)
      dsimp only [setEntry] at entries inHash list load store loadSN storeSN ready
      have members : ∀ seqNum, seqNum ∈ unit.instList ↔ seqNum ∈ older.reverse ∨ seqNum = last := by
        rw [reversed]
        simp
      refine ⟨next, looped, ⟨?_, ?_, ?_, ?_, ?_, loadSN, storeSN, ready⟩⟩
      · intro seqNum
        rw [entries]
        by_cases same : seqNum = last
        · have earlier : last ∉ older.reverse := fun member => Nat.lt_irrefl _ (below last member)
          simp only [same, members, earlier, Nat.lt_of_not_le kept]
          simp
        · simp [members, same]
      · intro seqNum
        rw [inHash, members]
        grind
      · rw [list, reversed, filter_append]
        simp [Nat.lt_of_not_le kept]
      · rw [load, members]
        grind
      · rw [store, members]
        grind

theorem squash_spec {unit : MemDepUnit} {last : Nat} (listed : unit.Listed last)
    (squashed_num : Nat) :
    ∃ next, unit.squash squashed_num = .ok next ∧ Squashes squashed_num unit next :=
  squashLoop_spec squashed_num _ (reverse_reverse _).symm listed.sorted
    fun seqNum member => (listed.hash seqNum).mpr member

/-- What the insertion of a load or store adds: an entry, and a dependent of its producer. -/
structure Inserts (seqNum : Nat) (type : InstType) (producer : Option Nat) (readyToIssue : Bool)
    (unit next : MemDepUnit) : Prop where
  own : next.entries seqNum = ⟨type, if producer = some seqNum then [seqNum] else [], readyToIssue,
    producer.isNone, false⟩
  others : ∀ other, other ≠ seqNum → next.entries other =
    if producer = some other then { unit.entries other with
      dependInsts := (unit.entries other).dependInsts ++ [seqNum] } else unit.entries other
  ready : next.ready = unit.ready ++ if producer.isNone && readyToIssue then [seqNum] else []
  frame : next = { unit.addEntry seqNum type with entries := next.entries, ready := next.ready }

theorem insert_spec (unit : MemDepUnit) (seqNum : Nat) (type : InstType) (predicted : Nat)
    (readyToIssue : Bool) :
    ∃ next, unit.insert seqNum type predicted readyToIssue = .ok next ∧
      Inserts seqNum type ((unit.addEntry seqNum type).findProducer type predicted) readyToIssue
        unit next := by
  rw [insert]
  cases found : (unit.addEntry seqNum type).findProducer type predicted with
  | none =>
    cases readyToIssue with
    | false =>
      refine ⟨_, rfl, ?_⟩
      constructor <;> simp +contextual [setEntry, addEntry]
    | true =>
      refine ⟨_, by rw [if_pos rfl, moveToReady, if_neg (by simp [setEntry, addEntry])], ?_⟩
      constructor <;> simp +contextual [setEntry, addEntry]
  | some =>
    refine ⟨_, rfl, ?_⟩
    constructor
    · simp only [setEntry, addEntry]
      grind
    · simp only [setEntry, addEntry]
      grind
    · simp [setEntry, addEntry]
    · simp [setEntry, addEntry]

/-- The dependents that the completion of an instruction reaches. -/
def woken (unit : MemDepUnit) (seqNum : Nat) : List Nat :=
  if (unit.entries seqNum).type = .load then [] else (unit.entries seqNum).dependInsts

/-- The IQ completes a memory instruction by `wakeDependents` and `completed`. -/
def complete (unit : MemDepUnit) (seqNum : Nat) : Except Fault MemDepUnit := do
  let unit ← unit.wakeDependents seqNum
  unit.completed seqNum

structure Completes (seqNum : Nat) (unit next : MemDepUnit) : Prop where
  type : ∀ other, (next.entries other).type = (unit.entries other).type
  regsReady : ∀ other, (next.entries other).regsReady = (unit.entries other).regsReady
  squashed : ∀ other, (next.entries other).squashed = (unit.entries other).squashed
  memDepReady : ∀ other, (next.entries other).memDepReady = true ↔
    (unit.entries other).memDepReady = true ∨
      other ∈ unit.woken seqNum ∧ unit.eligible other = false
  dependInsts : ∀ other, (next.entries other).dependInsts =
    if other = seqNum ∧ (unit.entries seqNum).type ≠ .load then []
    else (unit.entries other).dependInsts
  ready : next.ready = unit.ready ++ (unit.woken seqNum).filter unit.eligible
  hash : ∀ other, next.memDepHash other = true ↔ other ≠ seqNum ∧ unit.memDepHash other = true
  list : next.instList = unit.instList.erase seqNum
  loadBarrierSN : next.loadBarrierSN = unit.loadBarrierSN
  storeBarrierSN : next.storeBarrierSN = unit.storeBarrierSN

theorem complete_spec {unit : MemDepUnit} {seqNum : Nat} (present : unit.memDepHash seqNum = true) :
    ∃ next, unit.complete seqNum = .ok next ∧ Completes seqNum unit next ∧
      next.loadBarrier = unit.loadBarrier ∧ next.storeBarrier = unit.storeBarrier := by
  rw [complete, wakeDependents]
  by_cases load : (unit.entries seqNum).type = .load
  · rw [if_pos load, ok_bind, completed, if_pos present]
    refine ⟨_, rfl, ?_, rfl, rfl⟩
    constructor <;> simp [woken, load]
  · rw [if_neg load, if_pos present, wakeLoop_eq]
    refine ⟨_, if_pos present, ?_, rfl, rfl⟩
    constructor
    all_goals simp only [setEntry, woken, if_neg load]
    all_goals grind

theorem completeBarrier_spec {unit : MemDepUnit} {seqNum : Nat}
    (present : unit.memDepHash seqNum = true) :
    ∃ next, unit.completeBarrier seqNum = .ok next ∧ Completes seqNum unit next ∧
      (next.loadBarrier = true ↔ unit.loadBarrier = true ∧
        ¬ ((unit.entries seqNum).type = .memBarrier ∧ unit.loadBarrierSN = seqNum)) ∧
      (next.storeBarrier = true ↔ unit.storeBarrier = true ∧
        ¬ (((unit.entries seqNum).type = .memBarrier ∨ (unit.entries seqNum).type = .writeBarrier) ∧
          unit.storeBarrierSN = seqNum)) := by
  obtain ⟨_, done, completes, load, store⟩ := complete_spec present
  have split : unit.completeBarrier seqNum = (unit.complete seqNum).bind fun unit =>
      .ok (match (unit.entries seqNum).type with
        | .memBarrier => { unit with
            loadBarrier := unit.loadBarrier && unit.loadBarrierSN != seqNum
            storeBarrier := unit.storeBarrier && unit.storeBarrierSN != seqNum }
        | .writeBarrier => { unit with
            storeBarrier := unit.storeBarrier && unit.storeBarrierSN != seqNum }
        | _ => unit) := by
    rw [completeBarrier, complete]
    cases unit.wakeDependents seqNum <;> rfl
  have same := completes.type seqNum
  rw [split, done]
  refine ⟨_, rfl, ?_⟩
  cases type : (unit.entries seqNum).type <;> rw [type] at same <;> simp only [same] <;>
    refine ⟨{ completes with }, ?_, ?_⟩ <;>
    simp [load, store, completes.loadBarrierSN, completes.storeBarrierSN]

/-! ### Calls -/

inductive Call where
  | insert (seqNum : Nat) (isStore : Bool) (predicted : Nat) (readyToIssue : Bool)
  | insertNonSpec (seqNum : Nat) (isStore : Bool)
  | insertBarrier (seqNum : Nat) (isMemBarrier : Bool)
  | regsReady (seqNum : Nat)
  | nonSpecInstReady (seqNum : Nat)
  | complete (seqNum : Nat)
  | completeBarrier (seqNum : Nat)
  | squash (squashed_num : Nat)

def memType (isStore : Bool) : InstType := if isStore then .store else .load

def barrierType (isMemBarrier : Bool) : InstType :=
  if isMemBarrier then .memBarrier else .writeBarrier

def step (unit : MemDepUnit) : Call → Except Fault MemDepUnit
  | .insert seqNum isStore predicted readyToIssue =>
    unit.insert seqNum (memType isStore) predicted readyToIssue
  | .insertNonSpec seqNum isStore => .ok (unit.insertNonSpec seqNum (memType isStore))
  | .insertBarrier seqNum isMemBarrier =>
    .ok (unit.insertBarrier seqNum (barrierType isMemBarrier))
  | .regsReady seqNum => unit.regsReady seqNum
  | .nonSpecInstReady seqNum => unit.nonSpecInstReady seqNum
  | .complete seqNum => unit.complete seqNum
  | .completeBarrier seqNum => unit.completeBarrier seqNum
  | .squash squashed_num => unit.squash squashed_num

theorem regsReady_spec {unit : MemDepUnit} {seqNum last : Nat} (listed : unit.Listed last)
    (present : seqNum ∈ unit.instList) :
    unit.regsReady seqNum = .ok { unit with
      entries := fun other => if other = seqNum then
        { unit.entries seqNum with regsReady := true } else unit.entries other
      ready := unit.ready ++ if (unit.entries seqNum).memDepReady then [seqNum] else [] } := by
  rw [regsReady, if_pos ((listed.hash seqNum).mpr present)]
  have live := listed.live seqNum present
  cases resolved : (unit.entries seqNum).memDepReady <;>
    simp [setEntry, moveToReady, resolved, live]

variable {unit next : MemDepUnit} {last seqNum : Nat}

section

variable (listed : unit.Listed last)
include listed

theorem Listed.add (fresh : last < seqNum) (type : InstType) :
    (unit.addEntry seqNum type).Listed seqNum := by
  obtain ⟨sorted, _⟩ := listed
  refine ⟨?_, ?_, ?_, ?_⟩
  · refine pairwise_append.mpr ⟨sorted, pairwise_singleton _ _, ?_⟩
    grind
  · simp only [addEntry]
    grind
  · simp only [addEntry]
    grind
  · simp only [addEntry]
    grind

theorem Listed.insert {type : InstType} {producer : Option Nat} {readyToIssue : Bool}
    (fresh : last < seqNum)
    (inserts : Inserts seqNum type producer readyToIssue unit next) : next.Listed seqNum := by
  obtain ⟨sorted, bounded, hash, live⟩ := listed.add fresh type
  obtain ⟨own, others, -, frame⟩ := inserts
  have list : next.instList = (unit.addEntry seqNum type).instList := by rw [frame]
  refine ⟨by rw [list]; exact sorted, by rw [list]; exact bounded, ?_, ?_⟩
  · rw [frame]
    exact hash
  · rw [list]
    intro other member
    have before := live other member
    by_cases same : other = seqNum
    · rw [same, own]
    · rw [others other same]
      simp only [addEntry, if_neg same] at before
      split <;> exact before

theorem Listed.complete (completes : Completes seqNum unit next) : next.Listed last := by
  obtain ⟨sorted, bounded, hash, live⟩ := listed
  have distinct : unit.instList.Nodup := sorted.imp Nat.ne_of_lt
  have sub := erase_subset (a := seqNum) (l := unit.instList)
  refine ⟨?_, ?_, ?_, ?_⟩
  · rw [completes.list]
    exact sorted.sublist erase_sublist
  · rw [completes.list]
    exact fun other member => bounded other (sub member)
  · intro other
    rw [completes.hash, completes.list, distinct.mem_erase_iff, hash]
  · rw [completes.list]
    intro other member
    rw [completes.squashed]
    exact live other (sub member)

theorem Listed.squash {squashed_num : Nat} (squashes : Squashes squashed_num unit next) :
    next.Listed last := by
  obtain ⟨sorted, _, hash, live⟩ := listed
  refine ⟨?_, ?_, ?_, ?_⟩
  · rw [squashes.list]
    exact sorted.filter _
  · rw [squashes.list]
    grind
  · intro other
    rw [squashes.hash, squashes.list, hash]
    grind
  · rw [squashes.list]
    intro other member
    rw [squashes.entries, if_neg (by grind)]
    exact live other (mem_filter.mp member).1

end

end MemDepUnit

end Gem5.Cpu.MemDependence
