/-
This file models the queue of miss status registers: the list of free registers,
the list of allocated ones and the list of those that are ready to be sent, with
the iterators the registers store and the two counters. Every run keeps the three
lists, the counters and the flags of the registers in step.
-/

import Gem5.Library.NodeList
import Gem5.Mem.Mshr
import Mathlib.Data.List.Perm.Subperm
import Mathlib.Data.List.Range

namespace Gem5.Mem

open Library List Mshr Function

/-! ### The queue -/

/-- The assertions of the queue and of its registers, and the use of an iterator of a node that
has been erased. -/
inductive MshrQueueFault where
  | register (fault : MshrFault)
  | noFreeEntry
  | targetsLeftOver
  | noPlace
  | dangling
  | notListed
  | notInService
  | noTargets
deriving DecidableEq, Repr

/-- The queue. A register is known by its index. -/
structure MshrQueue where
  numEntries : Nat
  numReserve : Nat
  registers : Nat → Mshr
  allocatedList : NodeList Nat
  readyList : NodeList Nat
  freeList : List Nat
  drainManager : Bool
  allocated : Int
  inServiceEntries : Int

namespace MshrQueue

def create (numEntries reserve : Nat) : MshrQueue where
  numEntries := numEntries + reserve - 1
  numReserve := reserve
  registers := fun _ => .new
  allocatedList := .empty
  readyList := .empty
  freeList := range (numEntries + reserve - 1)
  drainManager := false
  allocated := 0
  inServiceEntries := 0

def isFull (queue : MshrQueue) : Bool :=
  decide ((queue.numEntries : Int) - queue.numReserve < queue.allocated)

def setRegister (queue : MshrQueue) (index : Nat) (mshr : Mshr) : MshrQueue :=
  { queue with registers := update queue.registers index mshr }

def onRegister (queue : MshrQueue) (index : Nat) (call : Mshr → Except MshrFault Mshr) :
    Except MshrQueueFault MshrQueue :=
  match call (queue.registers index) with
  | .ok mshr => .ok (queue.setRegister index mshr)
  | .error fault => .error (.register fault)

/-- Where a register goes on the list of those that are ready. -/
def readyPosition (queue : MshrQueue) (index : Nat) : Except MshrQueueFault Nat :=
  match queue.readyList.values.getLast? with
  | none => .ok queue.readyList.values.length
  | some last =>
    if (queue.registers last).readyTime ≤ (queue.registers index).readyTime then
      .ok queue.readyList.values.length
    else
      match queue.readyList.values.findIdx? fun other =>
        decide ((queue.registers index).readyTime < (queue.registers other).readyTime) with
      | some position => .ok position
      | none => .error .noPlace

/-- The register is inserted and its iterator stored. -/
def insertReady (queue : MshrQueue) (index position : Nat) : MshrQueue :=
  { queue.setRegister index
      { queue.registers index with readyIter := queue.readyList.fresh } with
    readyList := queue.readyList.insert position index }

def addToReadyList (queue : MshrQueue) (index : Nat) : Except MshrQueueFault MshrQueue := do
  let position ← queue.readyPosition index
  return queue.insertReady index position

/-- The register is inserted at the end of the allocated ones and its iterator stored. -/
def insertAllocated (queue : MshrQueue) (index : Nat) (mshr : Mshr) : MshrQueue :=
  { queue.setRegister index { mshr with allocIter := queue.allocatedList.fresh } with
    allocatedList := queue.allocatedList.insert queue.allocatedList.values.length index }

def allocate (queue : MshrQueue) (pkt : Packet) (whenReady order : Nat) :
    Except MshrQueueFault MshrQueue :=
  match queue.freeList with
  | [] => .error .noFreeEntry
  | index :: rest =>
    if (queue.registers index).getNumTargets ≠ 0 then .error .targetsLeftOver
    else match (queue.registers index).allocate pkt whenReady order with
      | .error fault => .error (.register fault)
      | .ok mshr =>
        { queue.insertAllocated index mshr with
          freeList := rest, allocated := queue.allocated + 1 }.addToReadyList index

/-- The register is no longer ready. -/
def eraseReady (queue : MshrQueue) (index : Nat) : Except MshrQueueFault MshrQueue :=
  match queue.readyList.erase (queue.registers index).readyIter with
  | none => .error .dangling
  | some list => .ok { queue with readyList := list }

def signalDrained (queue : MshrQueue) : MshrQueue :=
  if queue.drainManager && decide (queue.allocated = 0) then { queue with drainManager := false }
  else queue

/-- The register leaves the ready ones or those in service. -/
def leave (queue : MshrQueue) (index : Nat) : Except MshrQueueFault MshrQueue :=
  if (queue.registers index).inService then
    .ok { queue with inServiceEntries := queue.inServiceEntries - 1 }
  else queue.eraseReady index

def deallocateOne (queue : MshrQueue) (index : Nat) : Except MshrQueueFault MshrQueue :=
  match queue.allocatedList.erase (queue.registers index).allocIter with
  | none => .error .dangling
  | some list => do
    let left ← { queue with
      allocatedList := list
      freeList := index :: queue.freeList
      allocated := queue.allocated - 1 }.leave index
    let freed ← left.onRegister index Mshr.deallocate
    return freed.signalDrained

def moveToFront (queue : MshrQueue) (index : Nat) : Except MshrQueueFault MshrQueue :=
  if (queue.registers index).inService then .ok queue
  else if queue.readyList.get? (queue.registers index).readyIter = some index then do
    let erased ← queue.eraseReady index
    return erased.insertReady index 0
  else .error .notListed

def markInService (queue : MshrQueue) (index : Nat) (pendingDirtyResp : Bool) :
    Except MshrQueueFault MshrQueue :=
  match (queue.registers index).markInService pendingDirtyResp with
  | .error fault => .error (.register fault)
  | .ok (mshr, true) => (queue.setRegister index mshr).deallocateOne index
  | .ok (mshr, false) => do
    let erased ← (queue.setRegister index mshr).eraseReady index
    return { erased with inServiceEntries := erased.inServiceEntries + 1 }

def markPending (queue : MshrQueue) (index : Nat) : Except MshrQueueFault MshrQueue :=
  if (queue.registers index).inService then
    { queue.setRegister index { queue.registers index with inService := false } with
      inServiceEntries := queue.inServiceEntries - 1 }.addToReadyList index
  else .error .notInService

/-- The deferred targets are promoted and, if there are any, the request is to be sent again. -/
def promote (queue : MshrQueue) (index curTick : Nat) : Except MshrQueueFault MshrQueue :=
  match (queue.registers index).promoteDeferredTargets curTick with
  | .error fault => .error (.register fault)
  | .ok (mshr, true) => (queue.setRegister index mshr).markPending index
  | .ok (mshr, false) => .ok (queue.setRegister index mshr)

/-- A register without targets takes its deferred ones or is freed. -/
def refill (queue : MshrQueue) (index curTick : Nat) : Except MshrQueueFault MshrQueue :=
  if (queue.registers index).hasTargets then .ok queue
  else match (queue.registers index).promoteDeferredTargets curTick with
    | .error fault => .error (.register fault)
    | .ok (mshr, true) => .ok (queue.setRegister index mshr)
    | .ok (mshr, false) => (queue.setRegister index mshr).deallocateOne index

/-- The answer is whether the queue is no longer full. -/
def forceDeallocateTarget (queue : MshrQueue) (index curTick : Nat) :
    Except MshrQueueFault (MshrQueue × Bool) :=
  if (queue.registers index).hasTargets then do
    let popped ← queue.onRegister index Mshr.popTarget
    let refilled ← popped.refill index curTick
    return (refilled, queue.isFull && !refilled.isFull)
  else .error .noTargets

end MshrQueue

/-! ### Runs of the queue -/

/-- What is called of the queue and, between the calls, of its registers. -/
inductive MshrCall where
  | allocate (pkt : Packet) (whenReady order : Nat)
  | markInService (index : Nat) (pendingDirtyResp : Bool)
  | promote (index curTick : Nat)
  | moveToFront (index : Nat)
  | deallocate (index : Nat)
  | forceDeallocateTarget (index curTick : Nat)
  | allocateTarget (index : Nat) (pkt : Packet) (whenReady order : Nat)
  | handleSnoop (index : Nat) (pkt : Packet) (order curTick : Nat)
  | handleFill (index : Nat) (pkt : Packet)
  | popTarget (index : Nat)
  | setForward (index : Nat) (isForward : Bool)
  | markDownstreamPending (index : Nat)
  | clearDownstreamPending (index : Nat)
deriving DecidableEq, Repr

namespace MshrQueue

def step (queue : MshrQueue) : MshrCall → Except MshrQueueFault MshrQueue
  | .allocate pkt whenReady order => queue.allocate pkt whenReady order
  | .markInService index pendingDirtyResp => queue.markInService index pendingDirtyResp
  | .promote index curTick => queue.promote index curTick
  | .moveToFront index => queue.moveToFront index
  | .deallocate index => queue.deallocateOne index
  | .forceDeallocateTarget index curTick => do
    let result ← queue.forceDeallocateTarget index curTick
    return result.1
  | .allocateTarget index pkt whenReady order =>
    queue.onRegister index fun mshr => mshr.allocateTarget pkt whenReady order
  | .handleSnoop index pkt order curTick =>
    queue.onRegister index fun mshr => do
      let result ← mshr.handleSnoop pkt order curTick
      return result.1
  | .handleFill index pkt => queue.onRegister index fun mshr => mshr.handleFill pkt
  | .popTarget index => queue.onRegister index Mshr.popTarget
  | .setForward index isForward =>
    .ok (queue.setRegister index { queue.registers index with isForward := isForward })
  | .markDownstreamPending index => queue.onRegister index Mshr.markDownstreamPending
  | .clearDownstreamPending index => queue.onRegister index Mshr.clearDownstreamPending

/-- Only allocated registers are used. -/
def Allowed (queue : MshrQueue) : MshrCall → Prop
  | .allocate _ _ _ => True
  | .markInService index _ | .promote index _ | .moveToFront index | .deallocate index
  | .forceDeallocateTarget index _ | .allocateTarget index _ _ _ | .handleSnoop index _ _ _
  | .handleFill index _ | .popTarget index | .setForward index _ | .markDownstreamPending index
  | .clearDownstreamPending index => index ∈ queue.allocatedList.values

instance (queue : MshrQueue) : (call : MshrCall) → Decidable (queue.Allowed call)
  | .allocate .. => inferInstanceAs (Decidable True)
  | .markInService .. | .promote .. | .moveToFront _ | .deallocate _ | .forceDeallocateTarget ..
  | .allocateTarget .. | .handleSnoop .. | .handleFill .. | .popTarget _ | .setForward ..
  | .markDownstreamPending _ | .clearDownstreamPending _ => inferInstanceAs (Decidable (_ ∈ _))

/-! ### The lists, the counters and the flags -/

/-- The lists hold what they should, but for registers that have still to be put on the ready list;
every register stores the iterators of its nodes, and an allocated register with deferred targets
is in service. -/
structure Listed (queue : MshrQueue) (pending : List Nat) : Prop where
  partition : (queue.freeList ++ queue.allocatedList.values).Perm (range queue.numEntries)
  allocIter : queue.allocatedList.Tracks fun index => (queue.registers index).allocIter
  readyIter : queue.readyList.Tracks fun index => (queue.registers index).readyIter
  once : (pending ++ queue.readyList.values).Nodup
  ready : ∀ index, index ∈ pending ++ queue.readyList.values ↔
    index ∈ queue.allocatedList.values ∧ (queue.registers index).inService = false
  allocated : queue.allocated = queue.allocatedList.values.length
  inService : queue.inServiceEntries + (pending ++ queue.readyList.values).length =
    queue.allocatedList.values.length
  deferred : ∀ index ∈ queue.allocatedList.values, index ∉ pending →
    (queue.registers index).deferredTargets.targets ≠ [] →
      (queue.registers index).inService = true

abbrev Registered (queue : MshrQueue) : Prop := queue.Listed []

/-- The faults a call may end in: none of them is the end of the ready list, an iterator that is
not valid or a register that is not at its iterator. -/
def Asserted (fault : MshrQueueFault) : Prop :=
  fault ≠ .noPlace ∧ fault ≠ .dangling ∧ fault ≠ .notListed

theorem registered_create (numEntries reserve : Nat) : (create numEntries reserve).Registered := by
  refine ⟨?_, NodeList.tracks_empty, NodeList.tracks_empty, .nil, fun index => ?_, rfl, rfl,
    fun index member => ?_⟩
  · show (range (numEntries + reserve - 1) ++ []).Perm _
    rw [append_nil]
    exact .refl _
  · simp [create, NodeList.empty, NodeList.values]
  · cases member

variable {queue : MshrQueue} {index : Nat} {mshr : Mshr}

@[simp]
theorem setRegister_self : (queue.setRegister index mshr).registers index = mshr :=
  update_self ..

theorem setRegister_of_ne {other : Nat} (different : other ≠ index) :
    (queue.setRegister index mshr).registers other = queue.registers other :=
  update_of_ne different ..

theorem update_field {Field : Type} (field : Mshr → Field) {registers : Nat → Mshr}
    (same : field mshr = field (registers index)) (other : Nat) :
    field (update registers index mshr other) = field (registers other) := by
  by_cases isIndex : other = index
  · rw [isIndex, update_self, same]
  · rw [update_of_ne isIndex]

/-- A change of a register that leaves the lists alone. -/
theorem Registered.setRegister (registered : queue.Registered)
    (sameService : mshr.inService = (queue.registers index).inService)
    (sameAlloc : mshr.allocIter = (queue.registers index).allocIter)
    (sameReady : mshr.readyIter = (queue.registers index).readyIter)
    (deferred : mshr.deferredTargets.targets ≠ [] → mshr.inService = true) :
    (queue.setRegister index mshr).Registered where
  partition := registered.partition
  allocIter := registered.allocIter.congr fun other _ =>
    update_field Mshr.allocIter sameAlloc other
  readyIter := registered.readyIter.congr fun other _ =>
    update_field Mshr.readyIter sameReady other
  once := registered.once
  ready other := by
    have service : ((queue.setRegister index mshr).registers other).inService =
        (queue.registers other).inService := update_field Mshr.inService sameService other
    rw [service]
    exact registered.ready other
  allocated := registered.allocated
  inService := registered.inService
  deferred other listed := by
    by_cases isIndex : other = index
    · rw [isIndex, setRegister_self]
      exact fun _ => deferred
    · rw [setRegister_of_ne isIndex]
      exact registered.deferred other listed

theorem Registered.settled (registered : queue.Registered)
    (listed : index ∈ queue.allocatedList.values)
    (free : (queue.registers index).inService = false) :
    (queue.registers index).deferredTargets.targets = [] := by
  by_contra waits
  rw [registered.deferred index listed not_mem_nil waits] at free
  cases free

theorem Registered.onRegister (registered : queue.Registered)
    (listed : index ∈ queue.allocatedList.values) {call : Mshr → Except MshrFault Mshr}
    (keeps : ∀ next, call (queue.registers index) = .ok next →
      next.inService = (queue.registers index).inService ∧
      next.allocIter = (queue.registers index).allocIter ∧
      next.readyIter = (queue.registers index).readyIter ∧
      (next.deferredTargets.targets ≠ [] → (queue.registers index).deferredTargets.targets ≠ [] ∨
        (queue.registers index).inService = true)) :
    Ensures Asserted (fun next => next.Registered ∧ next.allocatedList = queue.allocatedList)
      (queue.onRegister index call) := by
  rw [MshrQueue.onRegister]
  cases called : call (queue.registers index) with
  | error => exact ⟨by simp, by simp, by simp⟩
  | ok next =>
    obtain ⟨service, alloc, ready, deferred⟩ := keeps next called
    refine ⟨registered.setRegister service alloc ready fun waits => ?_, rfl⟩
    rw [service]
    rcases deferred waits with waited | served
    · exact registered.deferred index listed not_mem_nil waited
    · exact served

/-! ### The ready list -/

/-- There is a place for every register. -/
theorem readyPosition_ok (queue : MshrQueue) (index : Nat) :
    ∃ position, queue.readyPosition index = .ok position := by
  rw [readyPosition]
  split
  · exact ⟨_, rfl⟩
  · rename_i last ends
    split
    · exact ⟨_, rfl⟩
    · rename_i later
      split
      · exact ⟨_, rfl⟩
      · rename_i none
        have early := findIdx?_eq_none_iff.mp none last (mem_of_getLast? ends)
        exact absurd (Nat.lt_of_not_le later) (of_decide_eq_false early)

section

variable (pending : queue.Listed [index])
include pending

theorem Listed.insertReady (settled : (queue.registers index).deferredTargets.targets = [])
    (position : Nat) : (queue.insertReady index position).Registered := by
  have absent : index ∉ queue.readyList.values := (nodup_cons.mp pending.once).1
  have perm := queue.readyList.insert_perm position index
  have service (other : Nat) : ((queue.insertReady index position).registers other).inService =
      (queue.registers other).inService := update_field Mshr.inService (by rfl) other
  refine ⟨pending.partition, ?_, ?_, perm.nodup_iff.mpr pending.once, fun other => ?_,
    pending.allocated, ?_, fun other member _ => ?_⟩
  · exact pending.allocIter.congr fun other _ => update_field Mshr.allocIter (by rfl) other
  · refine pending.readyIter.insert position absent ?_ fun old member => ?_
    · exact congrArg Mshr.readyIter setRegister_self
    · exact congrArg Mshr.readyIter (setRegister_of_ne (ne_of_mem_of_not_mem member absent))
  · rw [service]
    exact perm.mem_iff.trans (pending.ready other)
  · refine Eq.trans ?_ pending.inService
    exact congrArg (fun length : Nat => queue.inServiceEntries + (length : Int)) perm.length_eq
  · have targets : ((queue.insertReady index position).registers other).deferredTargets =
        (queue.registers other).deferredTargets := update_field Mshr.deferredTargets (by rfl) other
    rw [targets, service]
    by_cases isIndex : other = index
    · subst isIndex
      exact fun waits => absurd settled waits
    · exact pending.deferred other member (mt mem_singleton.mp isIndex)

theorem Listed.addToReadyList (settled : (queue.registers index).deferredTargets.targets = []) :
    Ensures Asserted Registered (queue.addToReadyList index) := by
  obtain ⟨position, found⟩ := queue.readyPosition_ok index
  rw [MshrQueue.addToReadyList, found, ok_bind]
  exact pending.insertReady settled position

theorem Listed.ready_of_ne {other : Nat} (different : other ≠ index) :
    other ∈ queue.readyList.values ↔
      other ∈ queue.allocatedList.values ∧ (queue.registers other).inService = false := by
  rw [← pending.ready other, singleton_append, mem_cons, or_iff_right different]

/-- The register is put in service. -/
theorem Listed.serve (sameAlloc : mshr.allocIter = (queue.registers index).allocIter)
    (sameReady : mshr.readyIter = (queue.registers index).readyIter)
    (served : mshr.inService = true) :
    ({ queue.setRegister index mshr with
      inServiceEntries := queue.inServiceEntries + 1 } : MshrQueue).Registered := by
  have absent : index ∉ queue.readyList.values := (nodup_cons.mp pending.once).1
  refine ⟨pending.partition, ?_, ?_, pending.once.of_cons, fun other => ?_, pending.allocated, ?_,
    fun other member _ => ?_⟩
  · exact pending.allocIter.congr fun other _ => update_field Mshr.allocIter sameAlloc other
  · exact pending.readyIter.congr fun other _ => update_field Mshr.readyIter sameReady other
  · by_cases isIndex : other = index
    · subst isIndex
      simp only [setRegister_self, served]
      exact iff_of_false absent nofun
    · simp only [setRegister_of_ne isIndex]
      exact pending.ready_of_ne isIndex
  · have counted := pending.inService
    rw [singleton_append, length_cons] at counted
    exact (by omega : queue.inServiceEntries + 1 + (queue.readyList.values.length : Int) =
      queue.allocatedList.values.length)
  · by_cases isIndex : other = index
    · subst isIndex
      simp [served]
    · simp only [setRegister_of_ne isIndex]
      exact pending.deferred other member (mt mem_singleton.mp isIndex)

/-- The register is freed. -/
theorem Listed.free : ∃ list, queue.allocatedList.erase (queue.registers index).allocIter =
      some list ∧ ∀ mshr, ({ queue.setRegister index mshr with
        allocatedList := list
        freeList := index :: queue.freeList
        allocated := queue.allocated - 1 } : MshrQueue).Registered := by
  obtain ⟨absent, once⟩ : index ∉ queue.readyList.values ∧ _ := nodup_cons.mp pending.once
  have listed := ((pending.ready index).mp mem_cons_self).1
  obtain ⟨list, erased, perm, tracks⟩ := pending.allocIter.erase listed
  have distinct := nodup_cons.mp (perm.nodup_iff.mp pending.allocIter.nodup)
  have length := perm.length_eq
  rw [length_cons] at length
  have unlike {other : Nat} (member : other ∈ list.values) : other ≠ index :=
    ne_of_mem_of_not_mem member distinct.1
  refine ⟨list, erased, fun mshr => ⟨?_, ?_, ?_, once, fun other => ?_, ?_, ?_,
    fun other member _ => ?_⟩⟩
  · exact perm_middle.symm.trans ((perm.append_left queue.freeList).symm.trans pending.partition)
  · exact tracks.congr fun other member =>
      congrArg Mshr.allocIter (setRegister_of_ne (unlike member))
  · exact pending.readyIter.congr fun other member =>
      congrArg Mshr.readyIter (setRegister_of_ne (ne_of_mem_of_not_mem member absent))
  · by_cases isIndex : other = index
    · subst isIndex
      exact iff_of_false absent fun both => distinct.1 both.1
    · simp only [setRegister_of_ne isIndex]
      refine (pending.ready_of_ne isIndex).trans ?_
      rw [perm.mem_iff, mem_cons, or_iff_right isIndex]
  · have all := pending.allocated
    exact (by omega : queue.allocated - 1 = (list.values.length : Int))
  · have counted := pending.inService
    rw [singleton_append, length_cons] at counted
    exact (by omega : queue.inServiceEntries + (queue.readyList.values.length : Int) =
      list.values.length)
  · have different := unlike member
    simp only [setRegister_of_ne different]
    exact pending.deferred other (perm.mem_iff.mpr (mem_cons_of_mem _ member))
      (mt mem_singleton.mp different)

end

theorem Registered.signalDrained (registered : queue.Registered) :
    queue.signalDrained.Registered := by
  unfold MshrQueue.signalDrained
  split
  · exact { registered with }
  · exact registered

section

variable (registered : queue.Registered)
include registered

theorem Registered.eraseReady (member : index ∈ queue.readyList.values) :
    ∃ list, queue.readyList.erase (queue.registers index).readyIter = some list ∧
      ({ queue with readyList := list } : MshrQueue).Listed [index] := by
  obtain ⟨list, erased, perm, tracks⟩ := registered.readyIter.erase member
  refine ⟨list, erased, registered.partition, registered.allocIter, tracks,
    perm.nodup_iff.mp registered.once, fun other => ?_, registered.allocated, ?_,
    fun other listed _ => registered.deferred other listed not_mem_nil⟩
  · exact perm.mem_iff.symm.trans (registered.ready other)
  · rw [← registered.inService, nil_append, perm.length_eq]
    rfl

theorem Registered.allocate (pkt : Packet) (whenReady order : Nat) :
    Ensures Asserted Registered (queue.allocate pkt whenReady order) := by
  rw [MshrQueue.allocate]
  split
  · exact ⟨by simp, by simp, by simp⟩
  · rename_i index rest free
    split
    · exact ⟨by simp, by simp, by simp⟩
    · rename_i noTargets
      split
      · exact ⟨by simp, by simp, by simp⟩
      · rename_i mshr allocated
        have partition := registered.partition
        rw [free] at partition
        have absent : index ∉ queue.allocatedList.values := by
          have distinct := partition.nodup_iff.mpr nodup_range
          exact fun member => (nodup_append.mp distinct).2.2 index mem_cons_self
            index member rfl
        have notReady : index ∉ queue.readyList.values := fun member =>
          absent ((registered.ready index).mp member).1
        have perm := queue.allocatedList.insert_perm queue.allocatedList.values.length index
        have length := perm.length_eq
        rw [length_cons] at length
        obtain ⟨unserved, _, _, sameDeferred, _⟩ := allocate_cases allocated
        have settled : mshr.deferredTargets.targets = [] := by
          rw [Mshr.getNumTargets, not_not] at noTargets
          rw [sameDeferred]
          exact eq_nil_of_length_eq_zero (Nat.eq_zero_of_add_eq_zero noTargets).2
        have own : (queue.insertAllocated index mshr).registers index = _ := setRegister_self
        have others {other : Nat} (different : other ≠ index) :
            (queue.insertAllocated index mshr).registers other = queue.registers other :=
          setRegister_of_ne different
        refine Listed.addToReadyList ⟨?_, ?_, ?_, nodup_cons.mpr ⟨notReady, registered.once⟩,
          fun other => ?_, ?_, ?_, fun other member apart => ?_⟩ (own ▸ settled)
        · exact ((perm.append_left rest).trans perm_middle).trans partition
        · exact registered.allocIter.insert _ absent (congrArg Mshr.allocIter own)
            fun old member => congrArg Mshr.allocIter (others (ne_of_mem_of_not_mem member absent))
        · exact registered.readyIter.congr fun other member =>
            congrArg Mshr.readyIter (others (ne_of_mem_of_not_mem member notReady))
        · refine mem_cons.trans (Iff.trans ?_ (and_congr_left' (perm.mem_iff.trans mem_cons).symm))
          by_cases isIndex : other = index
          · subst isIndex
            simp only [own]
            simp [unserved]
          · simp only [others isIndex]
            rw [or_iff_right isIndex, or_iff_right isIndex]
            exact registered.ready other
        · have all := registered.allocated
          refine Eq.trans ?_ (congrArg Nat.cast length.symm)
          exact (by omega : queue.allocated + 1 =
            ((queue.allocatedList.values.length + 1 : Nat) : Int))
        · have counted := registered.inService
          rw [nil_append] at counted
          refine Eq.trans ?_ (congrArg Nat.cast length.symm)
          exact (by omega : queue.inServiceEntries +
            ((queue.readyList.values.length + 1 : Nat) : Int) =
            ((queue.allocatedList.values.length + 1 : Nat) : Int))
        · have different := mt mem_singleton.mpr apart
          simp only [others different]
          exact registered.deferred other
            ((mem_cons.mp (perm.mem_iff.mp member)).resolve_left different) not_mem_nil

section

variable (listed : index ∈ queue.allocatedList.values)
include listed

/-- The register is taken out of service. -/
theorem Registered.withdraw (served : (queue.registers index).inService = true) :
    ({ queue.setRegister index { queue.registers index with inService := false } with
      inServiceEntries := queue.inServiceEntries - 1 } : MshrQueue).Listed [index] := by
  have absent : index ∉ queue.readyList.values := fun member => by
    rw [((registered.ready index).mp member).2] at served
    cases served
  refine ⟨registered.partition, ?_, ?_, nodup_cons.mpr ⟨absent, registered.once⟩, fun other => ?_,
    registered.allocated, ?_, fun other member apart => ?_⟩
  · exact registered.allocIter.congr fun other _ => update_field Mshr.allocIter (by rfl) other
  · exact registered.readyIter.congr fun other _ => update_field Mshr.readyIter (by rfl) other
  · rw [singleton_append, mem_cons]
    by_cases isIndex : other = index
    · subst isIndex
      simp only [setRegister_self]
      exact iff_of_true (.inl trivial) ⟨listed, trivial⟩
    · simp only [setRegister_of_ne isIndex]
      rw [or_iff_right isIndex]
      exact registered.ready other
  · have counted := registered.inService
    rw [nil_append] at counted
    exact (by omega : queue.inServiceEntries - 1 + ((queue.readyList.values.length + 1 : Nat) : Int)
      = queue.allocatedList.values.length)
  · simp only [setRegister_of_ne (mt mem_singleton.mpr apart)]
    exact registered.deferred other member not_mem_nil

theorem Registered.moveToFront : Ensures Asserted Registered (queue.moveToFront index) := by
  rw [MshrQueue.moveToFront]
  split
  · exact registered
  · rename_i served
    have free := Bool.eq_false_iff.mpr served
    have member := (registered.ready index).mpr ⟨listed, free⟩
    obtain ⟨list, erased, pending⟩ := registered.eraseReady member
    rw [if_pos (registered.readyIter.get?_eq member), MshrQueue.eraseReady, erased]
    exact pending.insertReady (registered.settled listed free) 0

theorem Registered.markPending (settled : (queue.registers index).deferredTargets.targets = []) :
    Ensures Asserted Registered (queue.markPending index) := by
  rw [MshrQueue.markPending]
  split
  · rename_i served
    exact (registered.withdraw listed served).addToReadyList (by simp [settled])
  · exact ⟨by simp, by simp, by simp⟩

theorem Registered.deallocateOne : Ensures Asserted Registered (queue.deallocateOne index) := by
  rw [MshrQueue.deallocateOne]
  by_cases served : (queue.registers index).inService = true
  · obtain ⟨list, erased, freed⟩ := (registered.withdraw listed served).free
    simp only [MshrQueue.setRegister, update_self, update_idem] at erased freed
    rw [erased]
    dsimp only
    rw [leave, if_pos served, ok_bind, MshrQueue.onRegister]
    split
    · exact (freed _).signalDrained
    · exact ⟨by simp, by simp, by simp⟩
  · have free := Bool.eq_false_iff.mpr served
    obtain ⟨ready, erasedReady, pending⟩ :=
      registered.eraseReady ((registered.ready index).mpr ⟨listed, free⟩)
    obtain ⟨list, erased, freed⟩ := pending.free
    rw [erased]
    dsimp only
    rw [leave, if_neg served, MshrQueue.eraseReady, erasedReady, ok_bind, MshrQueue.onRegister]
    split
    · exact (freed _).signalDrained
    · exact ⟨by simp, by simp, by simp⟩

theorem Registered.markInService (pendingDirtyResp : Bool) :
    Ensures Asserted Registered (queue.markInService index pendingDirtyResp) := by
  rw [MshrQueue.markInService]
  split
  · exact ⟨by simp, by simp, by simp⟩
  · rename_i mshr marked
    obtain ⟨_, released | kept⟩ := markInService_cases marked
    · obtain ⟨_, _, _, rfl⟩ := popTarget_cases released.2.2
      refine (registered.setRegister (by rfl) (by rfl) (by rfl) ?_).deallocateOne listed
      exact registered.deferred index listed not_mem_nil
    · cases kept.1
  · rename_i mshr marked
    obtain ⟨free, released | kept⟩ := markInService_cases marked
    · cases released.1
    · obtain ⟨ready, erased, pending⟩ :=
        registered.eraseReady ((registered.ready index).mpr ⟨listed, free⟩)
      have sameReady : mshr.readyIter = (queue.registers index).readyIter := by rw [kept.2]
      have sameList : (queue.setRegister index mshr).readyList = queue.readyList := rfl
      rw [MshrQueue.eraseReady, setRegister_self, sameReady, sameList, erased]
      exact pending.serve (by rw [kept.2]) sameReady (by rw [kept.2])

theorem Registered.promoteDeferredTargets {curTick : Nat} {moved : Bool}
    (promoted : (queue.registers index).promoteDeferredTargets curTick = .ok (mshr, moved)) :
    (queue.setRegister index mshr).Registered ∧ mshr.deferredTargets.targets = [] := by
  obtain ⟨empty, ⟨_, rfl, none⟩ | ⟨_, _, _, rfl⟩⟩ :=
    promoteDeferredTargets_cases promoted
  · exact ⟨registered.setRegister rfl rfl rfl (registered.deferred index listed not_mem_nil), none⟩
  · exact ⟨registered.setRegister rfl rfl rfl fun waits => absurd empty waits,
      empty⟩

theorem Registered.promote (curTick : Nat) :
    Ensures Asserted Registered (queue.promote index curTick) := by
  rw [MshrQueue.promote]
  split
  · exact ⟨by simp, by simp, by simp⟩
  · rename_i mshr promoted
    obtain ⟨next, empty⟩ := registered.promoteDeferredTargets listed promoted
    refine next.markPending listed ?_
    rw [setRegister_self]
    exact empty
  · rename_i mshr promoted
    exact (registered.promoteDeferredTargets listed promoted).1

theorem Registered.refill (curTick : Nat) :
    Ensures Asserted Registered (queue.refill index curTick) := by
  rw [MshrQueue.refill]
  split
  · exact registered
  · split
    · exact ⟨by simp, by simp, by simp⟩
    · rename_i mshr promoted
      exact (registered.promoteDeferredTargets listed promoted).1
    · rename_i mshr promoted
      exact (registered.promoteDeferredTargets listed promoted).1.deallocateOne listed

end

end

/-! ### Every call -/

variable {call : MshrCall} {calls : List MshrCall}

section

variable (registered : queue.Registered)
include registered

theorem Registered.popTarget (listed : index ∈ queue.allocatedList.values) :
    Ensures Asserted (fun next => next.Registered ∧ next.allocatedList = queue.allocatedList)
      (queue.onRegister index Mshr.popTarget) := by
  refine registered.onRegister listed fun next popped => ?_
  obtain ⟨_, _, _, rfl⟩ := popTarget_cases popped
  exact ⟨rfl, rfl, rfl, .inl⟩

theorem Registered.forceDeallocateTarget (listed : index ∈ queue.allocatedList.values)
    (curTick : Nat) :
    Ensures Asserted (fun result => result.1.Registered)
      (queue.forceDeallocateTarget index curTick) := by
  rw [MshrQueue.forceDeallocateTarget]
  split
  · refine (registered.popTarget listed).bind fun popped ⟨registeredPopped, sameList⟩ => ?_
    exact (registeredPopped.refill (sameList ▸ listed) curTick).bind fun _ holds => holds
  · exact ⟨by simp, by simp, by simp⟩

theorem Registered.step (allowed : queue.Allowed call) :
    Ensures Asserted Registered (queue.step call) := by
  cases call with
  | allocate pkt whenReady order => exact registered.allocate pkt whenReady order
  | markInService _ pendingDirtyResp => exact registered.markInService allowed pendingDirtyResp
  | promote _ curTick => exact registered.promote allowed curTick
  | moveToFront => exact registered.moveToFront allowed
  | deallocate => exact registered.deallocateOne allowed
  | forceDeallocateTarget _ curTick =>
    exact (registered.forceDeallocateTarget allowed curTick).bind fun _ holds => holds
  | allocateTarget =>
    rw [MshrQueue.step]
    refine (registered.onRegister allowed fun next added => ?_).mono fun _ holds => holds.1
    rcases allocateTarget_cases added with ⟨_, defers, _, _, rfl⟩ | ⟨_, rfl⟩
    · exact ⟨rfl, rfl, rfl, fun _ => .inr (Bool.and_eq_true_iff.mp defers).1⟩
    · exact ⟨rfl, rfl, rfl, .inl⟩
  | handleSnoop index pkt order curTick =>
    rw [MshrQueue.step]
    refine (registered.onRegister allowed fun next taken => ?_).mono fun _ holds => holds.1
    obtain ⟨_, _, _, handled, snooped⟩ :=
      handleSnoop_spec (queue.registers index) pkt order curTick
    rw [handled] at taken
    cases taken
    exact ⟨snooped.inService, snooped.allocIter, snooped.readyIter, fun waits =>
      .inl (mt snooped.deferredEmpty.mpr waits)⟩
  | handleFill =>
    rw [MshrQueue.step]
    refine (registered.onRegister allowed fun next filled => ?_).mono fun _ holds => holds.1
    rcases handleFill_cases filled with rfl | rfl
    · exact ⟨rfl, rfl, rfl, .inl⟩
    · exact ⟨rfl, rfl, rfl, fun waits => absurd rfl waits⟩
  | popTarget => exact (registered.popTarget allowed).mono fun _ holds => holds.1
  | setForward index =>
    exact registered.setRegister rfl rfl rfl (registered.deferred index allowed not_mem_nil)
  | markDownstreamPending =>
    rw [MshrQueue.step]
    refine (registered.onRegister allowed fun next taken => ?_).mono fun _ holds => holds.1
    rw [Mshr.markDownstreamPending] at taken
    split at taken
    · cases taken
    · cases taken
      exact ⟨rfl, rfl, rfl, .inl⟩
  | clearDownstreamPending =>
    rw [MshrQueue.step]
    refine (registered.onRegister allowed fun next taken => ?_).mono fun _ holds => holds.1
    rw [Mshr.clearDownstreamPending] at taken
    split at taken
    · cases taken
      exact ⟨rfl, rfl, rfl, .inl⟩
    · cases taken

end

/-- Every register is free or allocated and never both, the ready list holds the allocated registers
that are not in service, each once, the counters count, and an allocated register with deferred
targets is in service. -/
structure InStep (queue : MshrQueue) : Prop where
  once : (queue.freeList ++ queue.allocatedList.values).Nodup
  either : ∀ index, index < queue.numEntries ↔
    index ∈ queue.freeList ∨ index ∈ queue.allocatedList.values
  readyOnce : queue.readyList.values.Nodup
  ready : ∀ index, index ∈ queue.readyList.values ↔
    index ∈ queue.allocatedList.values ∧ (queue.registers index).inService = false
  allocated : queue.allocated = queue.allocatedList.values.length
  inService : queue.inServiceEntries =
    (queue.allocatedList.values.filter fun index => (queue.registers index).inService).length
  deferred : ∀ index ∈ queue.allocatedList.values,
    (queue.registers index).deferredTargets.targets ≠ [] →
      (queue.registers index).inService = true

theorem Registered.inStep (registered : queue.Registered) : queue.InStep := by
  refine ⟨registered.partition.nodup_iff.mpr nodup_range, fun index => ?_,
    registered.readyIter.nodup, registered.ready, registered.allocated, ?_,
    fun index listed => registered.deferred index listed not_mem_nil⟩
  · rw [← mem_range, ← registered.partition.mem_iff, mem_append]
  · have idle : queue.readyList.values.Perm
        (queue.allocatedList.values.filter fun index => !(queue.registers index).inService) := by
      refine (perm_ext_iff_of_nodup registered.readyIter.nodup
        (registered.allocIter.nodup.filter _)).mpr fun index => ?_
      rw [mem_filter, Bool.not_eq_true']
      exact registered.ready index
    have split := length_eq_length_filter_add (l := queue.allocatedList.values)
      fun index => (queue.registers index).inService
    have length := idle.length_eq
    have counted := registered.inService
    rw [nil_append] at counted
    omega

/-- Every run of calls that meet their assertions keeps the lists, the counters and the flags in
step; the next call does not reach the end of the ready list and uses no iterator that is not
valid. -/
theorem lists_in_step {numEntries reserve : Nat}
    (run : Run step Allowed (create numEntries reserve) calls queue) :
    queue.InStep ∧ ∀ call, queue.Allowed call → Raises Asserted (queue.step call) := by
  have registered : queue.Registered := run.invariant Registered
    (fun registered allowed taken => (registered.step allowed).of_ok taken)
    (registered_create numEntries reserve)
  exact ⟨registered.inStep, fun call allowed => (registered.step allowed).raises⟩

/-- Two misses to one register, the second put off and sent again. -/
theorem lists_in_step_deferred :
    ∃ queue, Run step Allowed (create 2 1)
        [.allocate (.plain 0 .readReq) 5 0, .allocate (.plain 1 .readReq) 3 1, .moveToFront 0,
          .markInService 0 false, .allocateTarget 0 (.plain 2 .writeReq) 7 2, .popTarget 0,
          .promote 0 9, .markInService 1 false] queue ∧
      queue.readyList.values = [0] ∧ queue.inServiceEntries = 1 ∧ queue.InStep ∧
      ∀ call, queue.Allowed call → Raises Asserted (queue.step call) := by
  exact Run.exists_checked (fun queue =>
      queue.readyList.values = [0] ∧ queue.inServiceEntries = 1)
    (by decide +kernel) fun _ run ends => ⟨ends.1, ends.2, lists_in_step run⟩

/-- A register whose deferred target sets no flag can be deallocated: it is free, not in service and
keeps the target. -/
theorem deferred_target_in_free_register :
    ∃ queue, Run step Allowed (create 1 1)
        [.allocate (.plain 0 .readReq) 5 0, .markInService 0 false,
          .handleSnoop 0 (.plain 1 .readExReq) 1 6, .allocateTarget 0 (.plain 2 .readReq) 7 2,
          .popTarget 0, .popTarget 0, .deallocate 0] queue ∧
      queue.freeList = [0] ∧ (queue.registers 0).deferredTargets.targets ≠ [] ∧
      (queue.registers 0).inService = false := by
  exact Run.exists_check (by decide +kernel)

end MshrQueue

end Gem5.Mem
