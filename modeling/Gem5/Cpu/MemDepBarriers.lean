/-
This file is about the memory barriers in the memory dependence unit. A load waits for the memory
barriers that are in flight when it is inserted, a store for the write barriers too; the unit
remembers only the youngest one of each kind, which is enough as long as barriers complete in order
and leave together.

A squash that removes the youngest barrier and keeps an older one clears the flag, and what is
inserted next does not wait for the older one. The file shows that such squashes are the only fault:
without them nothing is passed to `addReadyMemInst` before its barriers are gone, and after any of
them a store can be.
-/

import Gem5.Cpu.MemDepUnit

namespace Gem5.Cpu.MemDependence

open Library MemDepUnit List

/-- The unit with the barriers in flight, those that are memory barriers, and for each instruction
the barriers that were in flight when it was inserted and that it has to wait for. -/
structure Fences where
  unit : MemDepUnit
  last : Nat
  barriers : List Nat
  memBarriers : List Nat
  blockers : Nat → List Nat

namespace Fences

def start : Fences := ⟨.start, 0, [], [], fun _ => []⟩

def record (fences : Fences) (unit : MemDepUnit) : Call → Fences
  | .insert seqNum isStore _ _ => { fences with
      unit, last := seqNum
      blockers := fun other =>
        if other = seqNum then if isStore then fences.barriers else fences.memBarriers
        else fences.blockers other }
  | .insertNonSpec seqNum _ => { fences with unit, last := seqNum }
  | .insertBarrier seqNum isMemBarrier => { fences with
      unit, last := seqNum, barriers := seqNum :: fences.barriers
      memBarriers := if isMemBarrier then seqNum :: fences.memBarriers else fences.memBarriers }
  | .regsReady _ | .nonSpecInstReady _ | .complete _ => { fences with unit }
  | .completeBarrier seqNum => { fences with
      unit, barriers := fences.barriers.filter (· ≠ seqNum)
      memBarriers := fences.memBarriers.filter (· ≠ seqNum) }
  | .squash squashed_num => { fences with
      unit, barriers := fences.barriers.filter (· ≤ squashed_num)
      memBarriers := fences.memBarriers.filter (· ≤ squashed_num) }

def step (fences : Fences) (call : Call) : Except Fault Fences := do
  let unit ← fences.unit.step call
  return fences.record unit call

/-- Sequence numbers increase, only instructions in the unit are named, and barriers complete in
program order. -/
def Possible (fences : Fences) : Call → Prop
  | .insert seqNum _ _ _ | .insertBarrier seqNum _ => fences.last < seqNum
  | .regsReady seqNum => seqNum ∈ fences.unit.instList
  | .complete seqNum => seqNum ∈ fences.unit.instList ∧ seqNum ∉ fences.barriers
  | .completeBarrier seqNum =>
    seqNum ∈ fences.barriers ∧ ∀ other ∈ fences.barriers, seqNum ≤ other
  | .squash _ => True
  | .insertNonSpec _ _ | .nonSpecInstReady _ => False

/-- A squash keeps all the barriers in flight or removes them all. -/
def Whole (fences : Fences) (squashed_num : Nat) : Prop :=
  (∀ seqNum ∈ fences.barriers, seqNum ≤ squashed_num) ∨
    ∀ seqNum ∈ fences.barriers, squashed_num < seqNum
deriving Decidable

/-- The number that a call squashes down to. -/
def squashes : Call → Option Nat
  | .squash squashed_num => some squashed_num
  | _ => none

def Allowed (fences : Fences) (call : Call) : Prop :=
  fences.Possible call ∧ ∀ squashed_num ∈ squashes call, fences.Whole squashed_num

instance (fences : Fences) (call : Call) : Decidable (fences.Possible call) :=
  match call with
  | .insert .. | .insertBarrier .. => inferInstanceAs (Decidable (_ < _))
  | .regsReady _ => inferInstanceAs (Decidable (_ ∈ _))
  | .complete _ | .completeBarrier _ => inferInstanceAs (Decidable (_ ∧ _))
  | .squash _ => inferInstanceAs (Decidable True)
  | .insertNonSpec .. | .nonSpecInstReady _ => inferInstanceAs (Decidable False)

instance (fences : Fences) (call : Call) : Decidable (fences.Allowed call) :=
  inferInstanceAs (Decidable (_ ∧ ∀ squashed_num ∈ squashes call, _))

/-- What was passed waits for no barrier that is in flight. -/
def Ordered (fences : Fences) : Prop :=
  ∀ seqNum ∈ fences.unit.ready, ∀ barrier ∈ fences.blockers seqNum, barrier ∉ fences.barriers

/-! ### The invariant -/

/-- The flag of a kind of barrier is set while one is in flight, with the number of the youngest. -/
def Youngest (flag : Bool) (seqNum : Nat) (barriers : List Nat) : Prop :=
  if flag then seqNum ∈ barriers ∧ ∀ other ∈ barriers, other ≤ seqNum else barriers = []

structure Sound (fences : Fences) : Prop where
  listed : fences.unit.Listed fences.last
  memory : ∀ seqNum ∈ fences.memBarriers, seqNum ∈ fences.barriers ∧
    (fences.unit.entries seqNum).type = .memBarrier
  present : ∀ seqNum ∈ fences.barriers, seqNum ∈ fences.unit.instList ∧
    ((fences.unit.entries seqNum).type = .memBarrier ∨
      (fences.unit.entries seqNum).type = .writeBarrier)
  load : Youngest fences.unit.loadBarrier fences.unit.loadBarrierSN fences.memBarriers
  store : Youngest fences.unit.storeBarrier fences.unit.storeBarrierSN fences.barriers
  bounded : ∀ seqNum ∈ fences.unit.ready, seqNum ≤ fences.last
  blockers : ∀ seqNum, ∀ barrier ∈ fences.blockers seqNum, barrier ≤ fences.last
  dependents : ∀ producing, ∀ seqNum ∈ (fences.unit.entries producing).dependInsts,
    seqNum ≤ fences.last ∧ ∀ barrier ∈ fences.blockers seqNum, barrier ≤ producing ∧
      (producing ∈ fences.barriers ∨ producing ∉ fences.unit.instList)
  free : ∀ seqNum, (fences.unit.entries seqNum).memDepReady = true →
    ∀ barrier ∈ fences.blockers seqNum, barrier ∉ fences.barriers
  ordered : fences.Ordered

theorem sound_start : start.Sound := by
  refine ⟨⟨?_, ?_, ?_, ?_⟩, ?_, ?_, ?_, ?_, ?_, ?_, ?_, ?_, ?_⟩
  all_goals simp [start, MemDepUnit.start, Youngest, Ordered]

variable {fences : Fences} {next : MemDepUnit} {seqNum : Nat}

/-- A load or store that has barriers to wait for depends on the youngest of them. -/
theorem Sound.producer (sound : fences.Sound) (seqNum : Nat) (isStore : Bool) (predicted : Nat) :
    let blockers := if isStore then fences.barriers else fences.memBarriers
    let producer := (fences.unit.addEntry seqNum (memType isStore)).findProducer
      (memType isStore) predicted
    blockers = [] ∨ ∃ youngest ∈ fences.barriers, producer = some youngest ∧
      ∀ barrier ∈ blockers, barrier ≤ youngest := by
  have load := sound.load
  have store := sound.store
  have memory := sound.memory
  have positive : ∀ barrier ∈ fences.barriers, barrier ≠ 0 ∧
      fences.unit.memDepHash barrier = true := by
    intro barrier member
    have present := (sound.present barrier member).1
    exact ⟨Nat.ne_of_gt (sound.listed.bounded barrier present).1,
      (sound.listed.hash barrier).mpr present⟩
  simp only [Youngest] at load store
  cases isStore <;> simp only [findProducer, addEntry, memType] <;> grind

section

variable {type : InstType} {producer : Option Nat} {readyToIssue : Bool} {unit : MemDepUnit}

section

variable (inserts : Inserts seqNum type producer readyToIssue unit next)
include inserts

theorem mem_dependInsts_of_inserts {producing dependent : Nat}
    (member : dependent ∈ (next.entries producing).dependInsts) :
    dependent = seqNum ∧ producer = some producing ∨
      producing ≠ seqNum ∧ dependent ∈ (unit.entries producing).dependInsts := by
  by_cases same : producing = seqNum
  · rw [same, inserts.own] at member
    grind
  · rw [inserts.others producing same] at member
    grind

theorem memDepReady_of_inserts {other : Nat} (flag : (next.entries other).memDepReady = true) :
    other = seqNum ∧ producer = none ∨
      other ≠ seqNum ∧ (unit.entries other).memDepReady = true := by
  by_cases same : other = seqNum
  · rw [same, inserts.own] at flag
    exact .inl ⟨same, Option.isNone_iff_eq_none.mp flag⟩
  · rw [inserts.others other same] at flag
    split at flag <;> exact .inr ⟨same, flag⟩

end

end

section

variable (sound : fences.Sound)
include sound

theorem Sound.insert (fresh : fences.last < seqNum)
    {isStore readyToIssue : Bool} {predicted : Nat}
    (inserts : Inserts seqNum (memType isStore)
      ((fences.unit.addEntry seqNum (memType isStore)).findProducer (memType isStore) predicted)
      readyToIssue fences.unit next) :
    (fences.record next (.insert seqNum isStore predicted readyToIssue)).Sound := by
  have producer := sound.producer seqNum isStore predicted
  have kept := sound.listed.insert fresh inserts
  obtain ⟨listed, _, _, load, store, bounded, _, _, free, ordered⟩ := sound
  have lists := @mem_dependInsts_of_inserts _ _ _ _ _ _ inserts
  have resolved := @memDepReady_of_inserts _ _ _ _ _ _ inserts
  obtain ⟨_, _, ready, frame⟩ := inserts
  have list : next.instList = fences.unit.instList ++ [seqNum] := by rw [frame]; rfl
  have flags : next.loadBarrier = fences.unit.loadBarrier ∧
      next.loadBarrierSN = fences.unit.loadBarrierSN ∧
      next.storeBarrier = fences.unit.storeBarrier ∧
      next.storeBarrierSN = fences.unit.storeBarrierSN := by
    rw [frame]
    exact ⟨rfl, rfl, rfl, rfl⟩
  have limits := listed.bounded
  simp only [record]
  generalize (fences.unit.addEntry seqNum (memType isStore)).findProducer (memType isStore)
    predicted = found at *
  refine ⟨kept, ?_, ?_, ?_, ?_, ?_, ?_, ?_, ?_, ?_⟩
  · grind
  · grind
  · rw [flags.1, flags.2.1]
    exact load
  · rw [flags.2.2.1, flags.2.2.2]
    exact store
  · grind
  · grind
  · intro producing dependent member
    rcases lists member with ⟨rfl, now⟩ | _
    · refine ⟨Nat.le_refl _, fun barrier blocks => ?_⟩
      dsimp only at blocks
      rw [if_pos rfl] at blocks
      rcases producer with none | ⟨_, inFlight, same, all⟩
      · rw [none] at blocks
        exact absurd blocks not_mem_nil
      · cases now.symm.trans same
        exact ⟨all barrier blocks, .inl inFlight⟩
    · grind
  · intro other flag barrier blocks
    dsimp only at blocks
    rcases resolved flag with ⟨rfl, none⟩ | _
    · rw [if_pos rfl] at blocks
      rcases producer with free | ⟨_, _, same, -⟩
      · rw [free] at blocks
        exact absurd blocks not_mem_nil
      · exact absurd (none.symm.trans same) nofun
    · grind
  · intro other member barrier blocks
    dsimp only at member blocks
    rw [ready, mem_append] at member
    rcases member with before | now
    · rw [if_neg (Nat.ne_of_lt (Nat.lt_of_le_of_lt (bounded other before) fresh))] at blocks
      exact ordered other before barrier blocks
    · have passed : other = seqNum ∧ found = none := by grind
      rw [if_pos passed.1] at blocks
      rcases producer with free | ⟨_, _, same, -⟩
      · rw [free] at blocks
        exact absurd blocks not_mem_nil
      · exact absurd (passed.2.symm.trans same) nofun

theorem Sound.insertBarrier (fresh : fences.last < seqNum) (isMemBarrier : Bool) :
    (fences.record (fences.unit.insertBarrier seqNum (barrierType isMemBarrier))
      (.insertBarrier seqNum isMemBarrier)).Sound := by
  obtain ⟨listed, _, _, load, store, _, _, _, _, ordered⟩ := sound
  have kept := listed.add fresh (barrierType isMemBarrier)
  have limits := listed.bounded
  simp only [Youngest, Ordered] at load store ordered
  cases isMemBarrier
  all_goals
    simp only [record, barrierType, MemDepUnit.insertBarrier]
    refine ⟨{ kept with }, ?_, ?_, ?_, ?_, ?_, ?_, ?_, ?_, ?_⟩
    all_goals simp only [addEntry, Youngest, Ordered]
    all_goals grind

theorem Sound.regsReady (present : seqNum ∈ fences.unit.instList) :
    ∃ next, fences.unit.regsReady seqNum = .ok next ∧
      (fences.record next (.regsReady seqNum)).Sound := by
  refine ⟨_, regsReady_spec sound.listed present, ?_⟩
  obtain ⟨listed, _, _, load, store, _, blockers, _, _, ordered⟩ := sound
  obtain ⟨sorted, limits, hash, _⟩ := listed
  refine ⟨⟨sorted, limits, hash, ?_⟩, ?_, ?_, load, store, ?_, blockers, ?_, ?_, ?_⟩
  all_goals simp only [record, Ordered] at ordered ⊢
  all_goals grind

theorem Sound.complete (completes : Completes seqNum fences.unit next)
    (last : ∀ barrier ∈ fences.barriers, seqNum ≤ barrier ∨ seqNum ∉ fences.barriers)
    (load : Youngest next.loadBarrier next.loadBarrierSN (fences.memBarriers.filter (· ≠ seqNum)))
    (store : Youngest next.storeBarrier next.storeBarrierSN (fences.barriers.filter (· ≠ seqNum)))
    (present : seqNum ∈ fences.unit.instList) :
    Sound { fences with
      unit := next, barriers := fences.barriers.filter (· ≠ seqNum)
      memBarriers := fences.memBarriers.filter (· ≠ seqNum) } := by
  have kept := sound.listed.complete completes
  have distinct : fences.unit.instList.Nodup := sound.listed.sorted.imp Nat.ne_of_lt
  have members : ∀ other, other ∈ next.instList ↔
      other ≠ seqNum ∧ other ∈ fences.unit.instList := by
    intro other
    rw [completes.list, distinct.mem_erase_iff]
  obtain ⟨-, _, _, -, -, _, blockers, _, _, ordered⟩ := sound
  have woken : ∀ other ∈ fences.unit.woken seqNum, other ≤ fences.last ∧
      ∀ barrier ∈ fences.blockers other, barrier ∉ fences.barriers.filter (· ≠ seqNum) := by
    intro other member
    have listed : other ∈ (fences.unit.entries seqNum).dependInsts := by
      rw [MemDepUnit.woken] at member
      split at member
      · exact absurd member not_mem_nil
      · exact member
    grind
  obtain ⟨_, -, -, _, _, _, -⟩ := completes
  refine ⟨kept, ?_, ?_, load, store, ?_, blockers, ?_, ?_, ?_⟩
  all_goals simp only [Ordered] at ordered ⊢
  all_goals grind

end

theorem Youngest.complete {flag now : Bool} {number : Nat} {barriers : List Nat}
    (youngest : Youngest flag number barriers) (oldest : ∀ barrier ∈ barriers, seqNum ≤ barrier)
    (cleared : now = true ↔ flag = true ∧ number ≠ seqNum) :
    Youngest now number (barriers.filter (· ≠ seqNum)) := by
  rw [Youngest] at youngest ⊢
  by_cases last : flag = true ∧ number = seqNum
  · have none : ¬ now = true := fun set => (cleared.mp set).2 last.2
    rw [if_pos last.1] at youngest
    rw [if_neg none, filter_eq_nil_iff]
    intro barrier member
    have same := Nat.le_antisymm (youngest.2 barrier member) (last.2 ▸ oldest barrier member)
    simpa using same.trans last.2
  · grind

theorem Youngest.squash {flag now : Bool} {number squashed_num : Nat} {barriers list : List Nat}
    (youngest : Youngest flag number barriers)
    (whole : (∀ barrier ∈ barriers, barrier ≤ squashed_num) ∨
      ∀ barrier ∈ barriers, squashed_num < barrier)
    (present : ∀ barrier ∈ barriers, barrier ∈ list)
    (cleared : now = true ↔ flag = true ∧ ¬ (number ∈ list ∧ squashed_num < number)) :
    Youngest now number (barriers.filter (· ≤ squashed_num)) := by
  rw [Youngest] at youngest ⊢
  rcases whole with all | none
  · have same : barriers.filter (· ≤ squashed_num) = barriers := by
      rw [filter_eq_self]
      exact fun barrier member => decide_eq_true (all barrier member)
    rw [same]
    grind
  · have empty : barriers.filter (· ≤ squashed_num) = [] := by
      rw [filter_eq_nil_iff]
      exact fun barrier member => by simpa using none barrier member
    grind

theorem Sound.squash (sound : fences.Sound) {squashed_num : Nat}
    (squashes : Squashes squashed_num fences.unit next) (whole : fences.Whole squashed_num) :
    (fences.record next (.squash squashed_num)).Sound := by
  have kept := sound.listed.squash squashes
  obtain ⟨-, memory, inFlight, load, store, _, blockers, _, _, ordered⟩ := sound
  have fields : ∀ other, (next.entries other).type = (fences.unit.entries other).type ∧
      (next.entries other).dependInsts = (fences.unit.entries other).dependInsts ∧
      (next.entries other).memDepReady = (fences.unit.entries other).memDepReady := by
    intro other
    rw [squashes.entries]
    split <;> exact ⟨rfl, rfl, rfl⟩
  obtain ⟨-, -, _, flag, storeFlag, loadSN, storeSN, _⟩ := squashes
  have memWhole : (∀ barrier ∈ fences.memBarriers, barrier ≤ squashed_num) ∨
      ∀ barrier ∈ fences.memBarriers, squashed_num < barrier :=
    whole.imp (fun all barrier member => all barrier (memory barrier member).1)
      fun none barrier member => none barrier (memory barrier member).1
  refine ⟨kept, ?_, ?_, ?_, ?_, ?_, blockers, ?_, ?_, ?_⟩
  · simp only [record]
    grind
  · simp only [record]
    grind
  · simp only [record, loadSN]
    exact load.squash memWhole
      (fun barrier member => (inFlight barrier (memory barrier member).1).1) flag
  · simp only [record, storeSN]
    exact store.squash whole (fun barrier member => (inFlight barrier member).1) storeFlag
  all_goals simp only [record, Ordered] at ordered ⊢
  all_goals grind

/-! ### Whole histories -/

theorem Sound.taken (sound : fences.Sound) {call : Call} (allowed : fences.Allowed call) :
    ∃ next, fences.step call = .ok next ∧ next.Sound := by
  obtain ⟨possible, whole⟩ := allowed
  have hash := sound.listed.hash
  have load := sound.load
  have store := sound.store
  have memory := sound.memory
  have inFlight := sound.present
  cases call with
  | insert seqNum isStore predicted readyToIssue =>
    obtain ⟨_, taken, inserts⟩ := insert_spec fences.unit seqNum (memType isStore) predicted
      readyToIssue
    exact ⟨_, congrArg (Except.map _) taken, sound.insert possible inserts⟩
  | insertNonSpec => exact possible.elim
  | insertBarrier _ isMemBarrier => exact ⟨_, rfl, sound.insertBarrier possible isMemBarrier⟩
  | regsReady =>
    obtain ⟨_, taken, kept⟩ := sound.regsReady possible
    exact ⟨_, congrArg (Except.map _) taken, kept⟩
  | nonSpecInstReady => exact possible.elim
  | complete seqNum =>
    obtain ⟨present, apart⟩ := possible
    obtain ⟨_, taken, completes, same, sameStore⟩ := complete_spec ((hash seqNum).mpr present)
    have all : fences.barriers.filter (· ≠ seqNum) = fences.barriers := by
      rw [filter_eq_self]
      grind
    have memAll : fences.memBarriers.filter (· ≠ seqNum) = fences.memBarriers := by
      rw [filter_eq_self]
      grind
    have kept := sound.complete completes (fun _ _ => .inr apart)
      (by rwa [memAll, same, completes.loadBarrierSN])
      (by rwa [all, sameStore, completes.storeBarrierSN]) present
    rw [all, memAll] at kept
    exact ⟨_, congrArg (Except.map _) taken, kept⟩
  | completeBarrier seqNum =>
    obtain ⟨member, oldest⟩ := possible
    obtain ⟨present, _⟩ := inFlight seqNum member
    obtain ⟨_, taken, completes, _, _⟩ := completeBarrier_spec ((hash seqNum).mpr present)
    refine ⟨_, congrArg (Except.map _) taken, sound.complete completes
      (fun barrier other => .inl (oldest barrier other)) ?_ ?_ present⟩
    · rw [completes.loadBarrierSN]
      refine load.complete (fun barrier other => oldest barrier (memory barrier other).1) ?_
      rw [Youngest] at load
      grind
    · rw [completes.storeBarrierSN]
      exact store.complete oldest (by grind)
  | squash squashed_num =>
    obtain ⟨_, taken, squashes⟩ := squash_spec sound.listed squashed_num
    exact ⟨_, congrArg (Except.map _) taken, sound.squash squashes (whole squashed_num rfl)⟩

theorem Sound.after (sound : fences.Sound) {call : Call} {following : Fences}
    (allowed : fences.Allowed call) (taken : fences.step call = .ok following) :
    following.Sound := by
  obtain ⟨_, reached, kept⟩ := sound.taken allowed
  cases reached.symm.trans taken
  exact kept

theorem Sound.of_run {calls : List Call} (run : Run step Allowed start calls fences) :
    fences.Sound :=
  run.invariant Sound (fun sound => sound.after) sound_start

theorem insert_after_squash (sound : fences.Sound) {squashed_num : Nat}
    (split : ¬ fences.Whole squashed_num) :
    ∃ next, Run step Possible fences
        [.squash squashed_num, .insert (fences.last + 1) true 0 true] next ∧ ¬ next.Ordered := by
  obtain _ : ∃ barrier ∈ fences.barriers, squashed_num < barrier := by
    grind [Whole]
  obtain ⟨older, kept, below⟩ : ∃ barrier ∈ fences.barriers, barrier ≤ squashed_num := by
    grind [Whole]
  obtain ⟨middle, squashed, squashes⟩ := squash_spec sound.listed squashed_num
  have store := sound.store
  rw [Youngest] at store
  have cleared : middle.storeBarrier = false := by
    have flag := squashes.storeBarrier
    have present := sound.present
    grind
  obtain ⟨_, taken, inserts⟩ := insert_spec middle (fences.last + 1) .store 0 true
  have alone : (middle.addEntry (fences.last + 1) .store).findProducer .store 0 = none := by
    simp [findProducer, addEntry, cleared]
  rw [alone] at inserts
  refine ⟨_, .cons trivial (congrArg (Except.map _) squashed) (.cons (Nat.lt_succ_self _)
    (congrArg (Except.map _) taken) (.nil _)), fun ordered => ?_⟩
  refine ordered (fences.last + 1) ?_ older ?_ ?_
  · simp [record, inserts.ready]
  · simp [record, kept, below]
  · simp [record, kept, below]

/-- As long as every squash keeps all the barriers in flight or removes them all, nothing is passed
before its barriers are gone; and a squash is such a one exactly if no load or store that is
inserted right after it can be passed too early. -/
theorem barriers_hold_iff {calls : List Call} (run : Run step Allowed start calls fences)
    (squashed_num : Nat) :
    fences.Ordered ∧
    (fences.Whole squashed_num ↔ ∀ seqNum isStore predicted readyToIssue next,
      Run step Possible fences
        [.squash squashed_num, .insert seqNum isStore predicted readyToIssue] next →
      next.Ordered) := by
  have sound := Sound.of_run run
  refine ⟨sound.ordered, fun whole seqNum isStore predicted readyToIssue next after => ?_,
    fun early => ?_⟩
  · cases after with
    | cons _ squashed continued =>
      cases continued with
      | cons fresh inserted finished =>
        cases finished
        have allowed : fences.Allowed (.squash squashed_num) :=
          ⟨trivial, by rintro _ ⟨⟩; exact whole⟩
        have middle := sound.after allowed squashed
        exact (middle.after ⟨fresh, nofun⟩ inserted).ordered
  · by_contra split
    obtain ⟨_, after, late⟩ := insert_after_squash sound split
    exact late (early _ _ _ _ _ after)

/-- A load behind a memory barrier waits for it. -/
theorem barriers_hold_iff_one_barrier : ∃ fences, Run step Allowed start
    [.insertBarrier 1 true, .insert 2 false 0 true, .completeBarrier 1] fences ∧
    2 ∈ fences.unit.ready ∧ 1 ∈ fences.blockers 2 ∧ 1 ∉ fences.barriers := by
  refine Run.exists_checked (fun fences => 2 ∈ fences.unit.ready ∧ 1 ∈ fences.blockers 2)
    (by decide +kernel) fun _ run ⟨passed, blocks⟩ => ?_
  exact ⟨passed, blocks, (barriers_hold_iff run 0).1 2 passed 1 blocks⟩

/-- Two memory barriers are in flight, the younger is squashed, and a load is passed while the older
one is still in flight. -/
theorem load_passes_barrier : ∃ fences, Run step Possible start
    [.insertBarrier 1 true, .insertBarrier 2 true, .squash 1, .insert 3 false 0 true] fences ∧
    decide (3 ∈ fences.unit.ready ∧ 1 ∈ fences.blockers 3 ∧ 1 ∈ fences.barriers) = true :=
  Run.exists_check (by decide +kernel)

end Fences

end Gem5.Cpu.MemDependence
