/-
This file models the global events of parallel mode (`sim/global_event.cc`). A
global event is a set of barrier events, one for each queue; its `schedule`
holds a mutex and puts them on the asynchronous queues one after another, while
the threads of the queues service events, schedule events of their own and
drain their asynchronous queues at any time. Each queue is a lane: the calls of
`schedule` are numbered as they take the mutex, and every queue services them
by one order, by timestamp and priority and among equal ones the later call
first.
-/

import Gem5.Library.Lane
import Gem5.Sim.Refinement
import Mathlib.Data.Fintype.Prod
import Mathlib.Data.Fintype.Sum

namespace Gem5.Sim

open Base Library List Function Machine

/-- The events: `barrierEvent[i]` of each global event, and the other ones. -/
abbrev EventPtr (Global Local : Type) (numMainEventQueues : Nat) : Type :=
  (Global × Fin numMainEventQueues) ⊕ Local

/-- The simulator in parallel mode. `globalQMutex` is held by a call of `schedule(when)` on a
global event, which is about to go on with a queue. The other fields are the history: the number
of calls that are over, the call each barrier event was last scheduled by, the timestamp and
priority of each call, and the calls whose barrier events each queue has processed. -/
structure Simulator (Global Local : Type) (numMainEventQueues : Nat) (Order : Type) where
  system : System (EventPtr Global Local numMainEventQueues) Order
  globalQMutex : Option (Global × Tick × QueueId)
  calls : Nat
  call : Global × Fin numMainEventQueues → Nat
  key : Nat → Tick ×ₗ Priority
  processed : QueueId → List Nat

/-- A step of a thread: of the queues, or of `BaseGlobalEvent::schedule(when)`, which takes the
mutex, schedules the barrier event of the next queue, or releases the mutex. -/
inductive GlobalAction (Global Local : Type) (numMainEventQueues : Nat) where
  | queue (action : Action (EventPtr Global Local numMainEventQueues))
  | lock (event : Global) (when : Tick)
  | scheduleBarrier (cur : QueueId)
  | unlock

section Code

variable {Global Local Order : Type} [DecidableEq Global] [DecidableEq Local]
  {numMainEventQueues : Nat}

namespace Simulator

/-- The history after `serviceOne` on a queue: a barrier event that is not squashed is
processed. -/
def record (pending : Pending (EventPtr Global Local numMainEventQueues) Order) (cur : QueueId)
    (simulator : Simulator Global Local numMainEventQueues Order) : QueueId → List Nat :=
  match pending.front simulator.system.machine.order cur with
  | some (.inl barrier) =>
    if (simulator.system.machine.events (.inl barrier)).squashed = false then
      update simulator.processed cur
        (simulator.processed cur ++ [simulator.call barrier])
    else simulator.processed
  | _ => simulator.processed

/-- One step. The priorities are those the global events were constructed with. -/
def step (pending : Pending (EventPtr Global Local numMainEventQueues) Order)
    (priority : Global → Priority) (simulator : Simulator Global Local numMainEventQueues Order) :
    GlobalAction Global Local numMainEventQueues →
      Except Fault (Simulator Global Local numMainEventQueues Order)
  | .queue action => do
    let system ← simulator.system.step pending action
    let processed := match action with
      | .serviceOne cur => simulator.record pending cur
      | _ => simulator.processed
    return { simulator with system, processed }
  | .lock event when => do
    require (simulator.globalQMutex = none) .outOfTurn
    return { simulator with
      globalQMutex := some (event, when, 0)
      key := update simulator.key simulator.calls (toLex (when, priority event)) }
  | .scheduleBarrier cur =>
    match simulator.globalQMutex with
    | none => .error .outOfTurn
    | some (event, when, i) =>
      if bound : i < numMainEventQueues then do
        let machine ← simulator.system.machine.schedule pending cur i
          (.inl (event, ⟨i, bound⟩)) when true
        return { simulator with
          system := { simulator.system with machine }
          globalQMutex := some (event, when, i + 1)
          call := update simulator.call (event, ⟨i, bound⟩) simulator.calls }
      else .error .outOfTurn
  | .unlock =>
    match simulator.globalQMutex with
    | none => .error .outOfTurn
    | some (_, _, i) => do
      require (i = numMainEventQueues) .outOfTurn
      return { simulator with globalQMutex := none, calls := simulator.calls + 1 }

/-- Barrier events are scheduled by their global events only, `serviceEvents` is not called, and
a queue drains its asynchronous queue before the ticks of the events there. -/
def Allowed (simulator : Simulator Global Local numMainEventQueues Order) :
    GlobalAction Global Local numMainEventQueues → Prop
  | .queue (.schedule _ _ event _ _) => event.isRight = true
  | .queue (.reschedule _ _ event _ _) => event.isRight = true
  | .queue (.handleAsyncInsertions cur) =>
    ∀ event ∈ simulator.system.machine.asyncQueue cur,
      simulator.system.machine.curTick cur < (simulator.system.machine.events event).when
  | .queue (.serviceEvents _ _) => False
  | .queue (.serviceEventsReturn _) => False
  | _ => True

instance (simulator : Simulator Global Local numMainEventQueues Order)
    (action : GlobalAction Global Local numMainEventQueues) :
    Decidable (simulator.Allowed action) :=
  match action with
  | .queue (.schedule ..) | .queue (.reschedule ..) => inferInstanceAs (Decidable (_ = true))
  | .queue (.handleAsyncInsertions _) => inferInstanceAs (Decidable (∀ event ∈ _, _ < _))
  | .queue (.serviceEvents ..) | .queue (.serviceEventsReturn _) => .isFalse id
  | .queue (.deschedule ..) | .queue (.squash _) | .queue (.serviceOne _)
  | .queue (.processReturn _) | .lock .. | .scheduleBarrier _ | .unlock => .isTrue trivial

/-- Parallel mode with empty queues. -/
def initial (events : EventPtr Global Local numMainEventQueues → Event) (order : Order)
    (curTick : QueueId → Tick) : Simulator Global Local numMainEventQueues Order where
  system :=
    { machine := { events, order, curTick, asyncQueue := fun _ => [], inParallelMode := true }
      control := fun _ => { running := none, serving := none } }
  globalQMutex := none
  calls := 0
  call := fun _ => 0
  key := fun _ => toLex (0, 0)
  processed := fun _ => []

end Simulator

end Code

/-! ### Listed events are not past -/

section Due

variable {Ptr : Type} [DecidableEq Ptr] {machine next : ListMachine Ptr} {this : QueueId}
  {arrives : Ptr → Prop}

/-- No listed event is in the past. -/
def ListedDue (machine : ListMachine Ptr) : Prop :=
  ∀ queue, ∀ event ∈ machine.order queue, machine.curTick queue ≤ (machine.events event).when

theorem Change.listedDue (change : Change this arrives machine next) (placed : Placed machine)
    (due : ListedDue machine) : ListedDue next := by
  intro queue member listed
  have unscheduledKept {event : Ptr} {value : Event}
      (unscheduled : (machine.events event).scheduled = false)
      (old : member ∈ machine.order queue) :
      (machine.setEvent event value).events member = machine.events member := by
    refine setEvent_events_of_ne ?_ _
    rintro rfl
    exact placed.fresh unscheduled queue old
  have flagsKept {event : Ptr} {flags : Flags 16} :
      ((machine.setEvent event { machine.events event with flags }).events member).when =
        (machine.events member).when := by
    by_cases equal : member = event
    · subst equal
      rw [setEvent_events]
    · rw [setEvent_events_of_ne equal]
  cases change with
  | @insert _ _ _ unscheduled _ _ _ notPast =>
    rcases mem_insertList listed with ⟨rfl, rfl⟩ | old
    · rw [insertList_events, setEvent_events]
      exact notPast
    · rw [insertList_events, unscheduledKept unscheduled old]
      exact due queue member old
  | @asyncInsert _ _ _ _ unscheduled =>
    exact (due queue member listed).trans_eq
      (congrArg Event.when (unscheduledKept unscheduled listed).symm)
  | erase =>
    exact (due queue member ((eraseList_sublist queue).subset listed)).trans_eq
      flagsKept.symm
  | write =>
    exact (due queue member listed).trans_eq flagsKept.symm

theorem Changes.listedDue (changes : Changes this arrives machine next) (placed : Placed machine)
    (due : ListedDue machine) : ListedDue next := by
  induction changes with
  | refl => exact due
  | tail earlier last hypothesis =>
    exact last.listedDue (placed.changes earlier) hypothesis

end Due

/-! ### The queues as lanes -/

section Lanes

variable {Global Local : Type} [DecidableEq Global] [DecidableEq Local] {numMainEventQueues : Nat}
  {machine next : ListMachine (EventPtr Global Local numMainEventQueues)}

/-- The number of an event: the call that scheduled it, if it is a barrier event. -/
def number (call : Global × Fin numMainEventQueues → Nat) :
    EventPtr Global Local numMainEventQueues → Option Nat
  | .inl barrier => some (call barrier)
  | .inr _ => none

/-- The lane of a queue: the calls processed, those in the list and those that wait. -/
def lane (call : Global × Fin numMainEventQueues → Nat) (processed : QueueId → List Nat)
    (machine : ListMachine (EventPtr Global Local numMainEventQueues)) (queue : QueueId) :
    Lane where
  delivered := processed queue
  list := (machine.order queue).filterMap (number call)
  waiting := (machine.asyncQueue queue).filterMap (number call)

/-- A barrier event has the priority of its global event, and the key of its call while it is
scheduled. -/
def OfCall (priority : Global → Priority) (key : Nat → Tick ×ₗ Priority)
    (call : Global × Fin numMainEventQueues → Nat) (bound : QueueId → Nat)
    (barrier : Global × Fin numMainEventQueues) (event : Event) : Prop :=
  event.priority = priority barrier.1 ∧ (event.scheduled = true →
    event.key = key (call barrier) ∧ ∃ queue, call barrier < bound queue)

/-- What holds of the queues and the history: no listed event is in the past, the barrier events
are of their calls, the calls processed are past, and every lane is in order. -/
structure Agreed (priority : Global → Priority) (key : Nat → Tick ×ₗ Priority)
    (call : Global × Fin numMainEventQueues → Nat) (processed : QueueId → List Nat)
    (bound : QueueId → Nat) (machine : ListMachine (EventPtr Global Local numMainEventQueues)) :
    Prop where
  placed : Placed machine
  parallel : machine.inParallelMode = true
  due : ListedDue machine
  barriers : ∀ barrier,
    OfCall priority key call bound barrier (machine.events (.inl barrier))
  past : ∀ queue, ∀ item ∈ processed queue, (ofLex (key item)).1 ≤ machine.curTick queue
  lanes : ∀ queue, Lane.Ordered key (bound queue) (lane call processed machine queue)

variable {priority : Global → Priority} {key : Nat → Tick ×ₗ Priority}
  {call : Global × Fin numMainEventQueues → Nat} {processed : QueueId → List Nat}
  {bound : QueueId → Nat} {this : QueueId}
  {event : EventPtr Global Local numMainEventQueues}
  {arrives : EventPtr Global Local numMainEventQueues → Prop}

theorem flags_keep_barriers {flags : Flags 16}
    (barriers : ∀ barrier,
      OfCall priority key call bound barrier (machine.events (.inl barrier)))
    (scheduled : flags.isSet EventFlag.scheduled = true → (machine.events event).scheduled = true)
    (barrier : Global × Fin numMainEventQueues) : OfCall priority key call bound barrier
      ((machine.setEvent event { machine.events event with flags }).events (.inl barrier)) := by
  by_cases equal : .inl barrier = event
  · subst equal
    rw [setEvent_events]
    exact ⟨(barriers barrier).1, fun set => (barriers barrier).2 (scheduled set)⟩
  · rw [setEvent_events_of_ne equal]
    exact barriers barrier

omit [DecidableEq Global] [DecidableEq Local] in
theorem lane_insertList (other : Local) (queue : QueueId) :
    lane call processed (machine.insertList this (.inr other)) queue =
      lane call processed machine queue := by
  by_cases own : queue = this
  · subst own
    simp only [lane, Machine.insertList, update_self]
    rw [filterMap_orderedInsert_none rfl]
  · simp only [lane, Machine.insertList, update_of_ne own]

omit [DecidableEq Global] [DecidableEq Local] in
theorem lane_asyncInsert (other : Local) (queue : QueueId) :
    lane call processed (machine.asyncInsert this (.inr other)) queue =
      lane call processed machine queue := by
  by_cases own : queue = this
  · subst own
    simp only [lane, Machine.asyncInsert, update_self, filterMap_append,
      filterMap_cons_none (rfl : number call (.inr other) = none), filterMap_nil, append_nil]
  · simp only [lane, Machine.asyncInsert, update_of_ne own]

section

variable (agreed : Agreed priority key call processed bound machine)
include agreed

section

variable (localOnly : ∀ event, arrives event → event.isRight = true)
include localOnly

/-- Changes that schedule no barrier event keep the lanes in order. -/
theorem Agreed.change (change : Change this arrives machine next) :
    Agreed priority key call processed bound next := by
  have placed := agreed.placed.change change
  have due := change.listedDue agreed.placed agreed.due
  obtain ⟨_, inParallel, _, barriers, past, lanes⟩ := agreed
  have kept (other : Local) (value : Event) (barrier : Global × Fin numMainEventQueues) :
      (machine.setEvent (.inr other) value).events (.inl barrier) =
        machine.events (.inl barrier) := setEvent_events_of_ne Sum.inl_ne_inr _
  cases change with
  | @insert event _ allowed =>
    obtain ⟨_, rfl⟩ := Sum.isRight_iff.mp (localOnly event allowed)
    refine ⟨placed, inParallel, due, fun barrier => ?_, past, fun queue => ?_⟩
    · rw [insertList_events, kept]
      exact barriers barrier
    · rw [lane_insertList]
      exact lanes queue
  | @asyncInsert event _ allowed =>
    obtain ⟨_, rfl⟩ := Sum.isRight_iff.mp (localOnly event allowed)
    refine ⟨placed, inParallel, due, fun barrier => ?_, past, fun queue => ?_⟩
    · rw [asyncInsert_events, kept]
      exact barriers barrier
    · rw [lane_asyncInsert]
      exact lanes queue
  | erase _ unscheduled =>
    refine ⟨placed, inParallel, due, flags_keep_barriers barriers fun set => ?_, past,
      fun queue => (lanes queue).sublist ((eraseList_sublist queue).filterMap _)⟩
    cases set.symm.trans unscheduled
  | write same =>
    exact ⟨placed, inParallel, due, flags_keep_barriers barriers fun set => same ▸ set, past,
      lanes⟩

theorem Agreed.changes (changes : Changes this arrives machine next) :
    Agreed priority key call processed bound next := by
  induction changes with
  | refl => exact agreed
  | tail _ last hypothesis => exact hypothesis.change localOnly last

end

end

section

variable (agreed : Agreed priority key call processed bound machine)
omit [DecidableEq Global] [DecidableEq Local]
include agreed

theorem Agreed.key_eq {index : Nat} (inside : event ∈ machine.order this ++ machine.asyncQueue this)
    (numbered : number call event = some index) : (machine.events event).key = key index := by
  cases event with
  | inr => cases numbered
  | inl barrier =>
    cases numbered
    exact ((agreed.barriers barrier).2 (((agreed.placed.filed this).2 _).mp inside).1).1

section

variable (before : ∀ event ∈ machine.asyncQueue this,
  machine.curTick this < (machine.events event).when)
include before

theorem Agreed.processed_before (first : Nat)
    (firstMember : first ∈ (lane call processed machine this).delivered)
    (second : Nat) (secondMember : second ∈ (lane call processed machine this).waiting) :
    key first < key second := by
  obtain ⟨event, waits, numbered⟩ := mem_filterMap.mp secondMember
  rw [← agreed.key_eq (mem_append_right _ waits) numbered]
  exact Prod.Lex.lt_iff.mpr (.inl ((agreed.past this first firstMember).trans_lt
    (before event waits)))

/-- A queue may be drained before the ticks of the events that wait. -/
theorem Agreed.drainList :
    Agreed priority key call processed bound (machine.drainList this) := by
  refine { agreed with
    placed := agreed.placed.drainList this
    due := fun queue member listed => ?_, lanes := fun queue => ?_ }
  · by_cases own : queue = this
    · subst own
      simp only [Machine.drainList, update_self, (foldl_orderedInsert_perm _ _ _).mem_iff] at listed
      rcases mem_append.mp listed with old | waited
      · exact agreed.due queue member old
      · exact le_of_lt (before member waited)
    · simp only [Machine.drainList, update_of_ne own] at listed
      exact agreed.due queue member listed
  · by_cases own : queue = this
    · subst own
      have drained := (agreed.lanes queue).drain (agreed.processed_before before)
      have keys (first : EventPtr Global Local numMainEventQueues)
          (waits : first ∈ machine.asyncQueue queue)
          (second : EventPtr Global Local numMainEventQueues)
          (inside : second ∈ machine.asyncQueue queue ++ machine.order queue)
          (firstIndex secondIndex : Nat) (firstNumber : number call first = some firstIndex)
          (secondNumber : number call second = some secondIndex) :
          keyLe machine.events first second ↔ key firstIndex ≤ key secondIndex := by
        rw [keyLe, agreed.key_eq (mem_append_right _ waits) firstNumber,
          agreed.key_eq (mem_append.mpr (mem_append.mp inside).symm) secondNumber]
      simp only [lane, Machine.drainList, update_self, filterMap_nil]
      rw [filterMap_foldl_orderedInsert (agreed.placed.sorted queue) keys]
      exact drained
    · simp only [lane, Machine.drainList, update_of_ne own]
      exact agreed.lanes queue

end

end

/-- The history after the queue has processed the event. -/
def recordEvent (call : Global × Fin numMainEventQueues → Nat) (processed : QueueId → List Nat)
    (this : QueueId) (event : EventPtr Global Local numMainEventQueues) : QueueId → List Nat :=
  update processed this (processed this ++ (number call event).toList)

section

variable (agreed : Agreed priority key call processed bound machine)
include agreed

theorem Agreed.serve {rest : List (EventPtr Global Local numMainEventQueues)}
    (list : machine.order this = event :: rest) :
    Agreed priority key call (recordEvent call processed this event) bound
      (((machine.eraseList this event).setEvent event
        ((machine.events event).clearFlags EventFlag.scheduled)).setCurTick this
          (machine.events event).when) := by
  have listed : event ∈ machine.order this := list ▸ mem_cons_self
  have change : Change this (fun _ => False) machine ((machine.eraseList this event).setEvent event
      ((machine.events event).clearFlags EventFlag.scheduled)) :=
    .erase listed (Event.scheduled_clear _)
  have erased := agreed.change (fun _ never => never.elim) change
  have order : (machine.eraseList this event).order this = rest := by
    simp only [Machine.eraseList, update_self, list, erase_cons_head]
  refine ⟨erased.placed.setCurTick _ _, erased.parallel, fun queue member inside => ?_,
    erased.barriers, fun queue item recorded => ?_, fun queue => ?_⟩
  · by_cases own : queue = this
    · subst own
      have sorted := agreed.placed.sorted queue
      rw [list] at sorted
      simp only [Machine.setCurTick, update_self]
      refine Event.when_le_of_key_le ?_
      rw [setEvent_key (by rfl)]
      exact rel_of_pairwise_cons sorted (order ▸ inside)
    · simp only [Machine.setCurTick, update_of_ne own]
      exact erased.due queue member inside
  · by_cases own : queue = this
    · subst own
      simp only [Machine.setCurTick, update_self]
      simp only [recordEvent, update_self] at recorded
      rcases mem_append.mp recorded with old | new
      · exact (agreed.past queue item old).trans (agreed.due queue event listed)
      · rw [← agreed.key_eq (mem_append_left _ listed) (Option.mem_toList.mp new)]
        exact le_rfl
    · simp only [Machine.setCurTick, update_of_ne own]
      simp only [recordEvent, update_of_ne own] at recorded
      exact agreed.past queue item recorded
  · by_cases own : queue = this
    · subst own
      have ordered := agreed.lanes queue
      simp only [lane, list] at ordered
      simp only [lane, recordEvent, Machine.setCurTick, update_self, setEvent_order, order]
      cases numbered : number call event with
      | none =>
        rw [filterMap_cons_none numbered] at ordered
        rw [Option.toList_none, append_nil]
        exact ordered
      | some =>
        rw [filterMap_cons_some numbered] at ordered
        exact ordered.deliver
    · simp only [lane, recordEvent, update_of_ne own]
      exact erased.lanes queue

theorem Agreed.arrive {cur : QueueId} {event : Global} {i : Fin numMainEventQueues} {when : Tick}
    (own : key (bound i) = toLex (when, priority event))
    (done : machine.schedule (listPending _) cur i (.inl (event, i)) when true = .ok next) :
    Agreed priority key (update call (event, i) (bound i)) processed
      (update bound i (bound i + 1)) next := by
  have changes : Changes (i : QueueId) (fun _ => True) machine next :=
    schedule_changes trivial done
  have placed := agreed.placed.changes changes
  obtain ⟨_, unscheduled, _, ⟨_, _, rfl⟩ | ⟨synchronous, _⟩⟩ :=
    schedule_cases done
  · have absent := agreed.placed.filed.absent unscheduled
    have numbers (queue : QueueId) (member : EventPtr Global Local numMainEventQueues)
        (inside : member ∈ machine.order queue ++ machine.asyncQueue queue) :
        number (update call (event, i) (bound i)) member = number call member := by
      cases member with
      | inr => rfl
      | inl barrier =>
        have different : barrier ≠ (event, i) := by
          rintro rfl
          exact absent queue inside
        simp only [number, update_of_ne different]
    have listNumbers (queue : QueueId) := filterMap_congr fun member inside =>
      numbers queue member (mem_append_left _ inside)
    have waitingNumbers (queue : QueueId) := filterMap_congr fun member inside =>
      numbers queue member (mem_append_right _ inside)
    refine ⟨placed, agreed.parallel, changes.listedDue agreed.placed agreed.due, fun barrier => ?_,
      agreed.past, fun queue => ?_⟩
    · obtain ⟨same, keys⟩ := agreed.barriers barrier
      by_cases equal : barrier = (event, i)
      · subst equal
        rw [asyncInsert_events, setEvent_events, OfCall, update_self, own, ← same]
        refine ⟨rfl, fun _ => ⟨rfl, i, ?_⟩⟩
        rw [update_self]
        exact Nat.lt_succ_self _
      · rw [asyncInsert_events, setEvent_events_of_ne (by simpa using equal), OfCall,
          update_of_ne equal]
        refine ⟨same, fun scheduled => ?_⟩
        obtain ⟨own, queue, begun⟩ := keys scheduled
        exact ⟨own, queue, begun.trans_le
          (le_update_iff.mpr ⟨Nat.le_succ _, fun _ _ => le_rfl⟩ queue)⟩
    · have ordered := agreed.lanes queue
      by_cases own : queue = i
      · subst own
        simp only [lane, Machine.asyncInsert, Machine.setEvent, update_self,
          filterMap_append, listNumbers, waitingNumbers]
        have last : [(Sum.inl (event, i) : EventPtr Global Local numMainEventQueues)].filterMap
            (number (update call (event, i) (bound i))) = [bound i] := by
          simp [number]
        rw [last]
        exact ordered.arrive
      · simp only [lane, Machine.asyncInsert, Machine.setEvent, update_of_ne own,
          listNumbers, waitingNumbers]
        exact ordered
  · exact absurd ⟨agreed.parallel, .inr rfl⟩ synchronous

end

omit [DecidableEq Global] [DecidableEq Local] in
theorem Agreed.congr {other : Nat → Tick ×ₗ Priority} {larger : QueueId → Nat}
    (agreed : Agreed priority key call processed bound machine)
    (same : ∀ queue item, item < bound queue → other item = key item)
    (grows : ∀ queue, bound queue ≤ larger queue) :
    Agreed priority other call processed larger machine := by
  refine { agreed with
    barriers := fun barrier => ⟨(agreed.barriers barrier).1, fun scheduled => ?_⟩
    past := fun queue item recorded => ?_
    lanes := fun queue => (agreed.lanes queue).congr (same queue) (grows queue) }
  · obtain ⟨own, queue, begun⟩ := (agreed.barriers barrier).2 scheduled
    rw [same queue _ begun]
    exact ⟨own, queue, begun.trans_le (grows queue)⟩
  · rw [same queue item ((agreed.lanes queue).bounded item
      (mem_append_left _ (mem_append_left _ recorded)))]
    exact agreed.past queue item recorded

end Lanes

/-! ### The calls in order -/

section InOrder

variable {Global Local : Type} [DecidableEq Global] [DecidableEq Local] {numMainEventQueues : Nat}
  {Order : Type} {priority : Global → Priority}

/-- The simulator with the list of each queue. -/
abbrev ListSimulator (Global Local : Type) (numMainEventQueues : Nat) : Type :=
  Simulator Global Local numMainEventQueues
    (QueueId → List (EventPtr Global Local numMainEventQueues))

/-- A bound of the calls whose barrier events have reached a queue: the call that holds the mutex
has reached the queues before the next one. -/
def Simulator.bound (simulator : Simulator Global Local numMainEventQueues Order)
    (queue : QueueId) : Nat :=
  match simulator.globalQMutex with
  | some (_, _, i) => if queue < i then simulator.calls + 1 else simulator.calls
  | none => simulator.calls

/-- The queues and the history agree, and the call that holds the mutex has its key. -/
structure InOrder (priority : Global → Priority)
    (simulator : ListSimulator Global Local numMainEventQueues) : Prop where
  agreed : Agreed priority simulator.key simulator.call simulator.processed simulator.bound
    simulator.system.machine
  holder : ∀ event when i, simulator.globalQMutex = some (event, when, i) →
    simulator.key simulator.calls = toLex (when, priority event)

variable {simulator next : ListSimulator Global Local numMainEventQueues} {cur : QueueId}
  {system : ListSystem (EventPtr Global Local numMainEventQueues)}
  {action : Action (EventPtr Global Local numMainEventQueues)}

theorem record_eq {event : EventPtr Global Local numMainEventQueues}
    {rest : List (EventPtr Global Local numMainEventQueues)}
    (list : simulator.system.machine.order cur = event :: rest) :
    simulator.record (listPending _) cur =
      if (simulator.system.machine.events event).squashed = false then
        recordEvent simulator.call simulator.processed cur event
      else simulator.processed := by
  have first : (listPending (EventPtr Global Local numMainEventQueues)).front
      simulator.system.machine.order cur = some event := by
    simp only [listPending, list, head?_cons]
  rw [Simulator.record, first]
  cases event with
  | inl => rfl
  | inr => simp only [recordEvent, number, Option.toList_none, append_nil,
      update_eq_self, ite_self]

section

variable (inOrder : InOrder priority simulator)
include inOrder

theorem InOrder.serviceOne
    (taken : simulator.system.step (listPending _) (.serviceOne cur) = .ok system) :
    Agreed priority simulator.key simulator.call (simulator.record (listPending _) cur)
      simulator.bound system.machine := by
  obtain ⟨_, taken⟩ := require_bind_eq_ok taken
  obtain ⟨_, taken⟩ := require_bind_eq_ok taken
  obtain ⟨⟨machine, event, live⟩, begun, taken⟩ := bind_eq_ok taken
  obtain ⟨⟨_, list⟩, ⟨unsquashed, rfl, rfl⟩ | ⟨squashed, rfl, rfl⟩⟩ :=
    beginService_cases begun
  · cases taken
    rw [record_eq list, if_pos unsquashed]
    exact inOrder.agreed.serve list
  · obtain ⟨reaped, done, rfl⟩ := map_eq_ok taken
    rw [record_eq list, if_neg (by simp only [squashed, Bool.true_eq_false, not_false_eq_true])]
    have dropped : Changes cur (fun _ => False) simulator.system.machine reaped :=
      .head (.erase (list ▸ mem_cons_self)
        ((Event.scheduled_clear_squashed _).trans (Event.scheduled_clear _)))
        (reap_changes done)
    exact inOrder.agreed.changes (fun _ never => never.elim) dropped

theorem InOrder.unrecorded
    (allowed : simulator.Allowed (.queue action)) (other : ∀ cur, action ≠ .serviceOne cur)
    (taken : simulator.system.step (listPending _) action = .ok system) :
    Agreed priority simulator.key simulator.call simulator.processed simulator.bound
      system.machine := by
  have localOnly (event : EventPtr Global Local numMainEventQueues)
      (scheduled : action.schedules event) : event.isRight = true := by
    cases action with
    | schedule => exact scheduled ▸ allowed
    | reschedule => exact scheduled ▸ allowed
    | _ => exact scheduled.elim
  rcases System.step_cases taken with ⟨changes, _⟩ | ⟨cur, rfl, rfl⟩ |
    ⟨cur, when, rfl, _⟩ | ⟨cur, event, machine, rfl, _⟩ | ⟨cur, when, rfl, _⟩
  · obtain ⟨this, own⟩ := action.exists_on
    exact inOrder.agreed.changes localOnly (changes this own)
  · exact inOrder.agreed.drainList allowed
  · exact allowed.elim
  · exact absurd rfl (other cur)
  · exact allowed.elim

theorem InOrder.queue (allowed : simulator.Allowed (.queue action))
    (taken : simulator.step (listPending _) priority (.queue action) = .ok next) :
    InOrder priority next := by
  obtain ⟨_, stepped, rfl⟩ := map_eq_ok taken
  refine ⟨?_, inOrder.holder⟩
  cases action with
  | serviceOne => exact inOrder.serviceOne stepped
  | _ => exact inOrder.unrecorded allowed (fun _ => nofun) stepped

theorem InOrder.lock {event : Global} {when : Tick}
    (taken : simulator.step (listPending _) priority (.lock event when) = .ok next) :
    InOrder priority next := by
  obtain ⟨free, same⟩ := require_bind_eq_ok taken
  cases same
  refine ⟨inOrder.agreed.congr (fun queue item below => ?_) fun queue => ?_,
    fun holder tick i held => ?_⟩
  · rw [Simulator.bound, free] at below
    exact update_of_ne (ne_of_lt below) _ _
  · simp only [Simulator.bound, free, Nat.not_lt_zero, if_false, le_refl]
  · cases held
    exact update_self ..

theorem InOrder.scheduleBarrier
    (taken : simulator.step (listPending _) priority (.scheduleBarrier cur) = .ok next) :
    InOrder priority next := by
  simp only [Simulator.step] at taken
  split at taken
  · cases taken
  · rename_i event when i held
    split at taken
    · rename_i below
      obtain ⟨_, done, rfl⟩ := map_eq_ok taken
      have here : simulator.bound i = simulator.calls := by
        simp only [Simulator.bound, held, lt_irrefl, if_false]
      have arrived := inOrder.agreed.arrive (i := ⟨i, below⟩)
        (by rw [here]; exact inOrder.holder event when i held) done
      have reached : update simulator.bound i (simulator.calls + 1) =
          fun queue => if queue < i + 1 then simulator.calls + 1 else simulator.calls := by
        funext queue
        by_cases own : queue = i
        · subst own
          rw [update_self, if_pos (Nat.lt_succ_self _)]
        · have same : queue < i + 1 ↔ queue < i := Nat.lt_succ_iff_lt_or_eq.trans (or_iff_left own)
          simp only [update_of_ne own, Simulator.bound, held, same]
      simp only [here, reached] at arrived
      refine ⟨arrived, fun holder tick j heldNext => ?_⟩
      · cases heldNext
        exact inOrder.holder event when i held
    · cases taken

theorem InOrder.unlock (taken : simulator.step (listPending _) priority .unlock = .ok next) :
    InOrder priority next := by
  simp only [Simulator.step] at taken
  split at taken
  · cases taken
  · rename_i event when i held
    obtain ⟨_, same⟩ := require_bind_eq_ok taken
    cases same
    refine ⟨inOrder.agreed.congr (fun _ _ _ => rfl) fun queue => ?_, fun _ _ _ free => ?_⟩
    · simp only [Simulator.bound, held]
      split
      · exact le_rfl
      · exact Nat.le_succ _
    · cases free

theorem InOrder.step {action : GlobalAction Global Local numMainEventQueues}
    (allowed : simulator.Allowed action)
    (taken : simulator.step (listPending _) priority action = .ok next) :
    InOrder priority next := by
  cases action with
  | queue => exact inOrder.queue allowed taken
  | lock => exact inOrder.lock taken
  | scheduleBarrier => exact inOrder.scheduleBarrier taken
  | unlock => exact inOrder.unlock taken

end

end InOrder

/-! ### The linked queues -/

section Linked

variable {Global Local : Type} [DecidableEq Global] [DecidableEq Local] [Fintype Global]
  [Fintype Local] {numMainEventQueues : Nat} {priority : Global → Priority}

/-- The simulator with another representation of its queues. -/
def Simulator.withSystem {Order Other : Type}
    (simulator : Simulator Global Local numMainEventQueues Order)
    (system : System (EventPtr Global Local numMainEventQueues) Other) :
    Simulator Global Local numMainEventQueues Other :=
  { simulator with system }

/-- The two simulators are at related queues and have the same history. -/
def Follows
    (code : Simulator Global Local numMainEventQueues
      (Links (EventPtr Global Local numMainEventQueues)))
    (spec : ListSimulator Global Local numMainEventQueues) : Prop :=
  ∃ system, SystemRefines system spec.system ∧ code = spec.withSystem system

variable {code : Simulator Global Local numMainEventQueues
    (Links (EventPtr Global Local numMainEventQueues))}
  {spec : ListSimulator Global Local numMainEventQueues}

omit [DecidableEq Global] [DecidableEq Local] [Fintype Global] [Fintype Local] in
theorem Follows.allowed (follows : Follows code spec)
    {action : GlobalAction Global Local numMainEventQueues} (allowed : code.Allowed action) :
    spec.Allowed action := by
  obtain ⟨_, ⟨_, _, same, _⟩, rfl⟩ := follows
  cases action with
  | queue action =>
    cases action with
    | handleAsyncInsertions =>
      simp only [Simulator.Allowed, Simulator.withSystem, same] at allowed
      exact allowed
    | _ => exact allowed
  | _ => exact allowed

theorem Follows.record_eq (follows : Follows code spec) (cur : QueueId) :
    code.record (linkedPending _) cur = spec.record (listPending _) cur := by
  obtain ⟨_, ⟨_, links, same, ordered⟩, rfl⟩ := follows
  have first : links.head cur = (spec.system.machine.order cur).head? := (ordered cur).head_eq
  simp only [Simulator.record, Simulator.withSystem, same, linkedPending, listPending,
    Machine.withLinks, first]

theorem Follows.step (follows : Follows code spec) (placed : Placed spec.system.machine)
    (action : GlobalAction Global Local numMainEventQueues) :
    Agree Follows (code.step (linkedPending _) priority action)
      (spec.step (listPending _) priority action) := by
  have record := follows.record_eq
  obtain ⟨system, related, rfl⟩ := follows
  cases action with
  | queue action =>
    refine (related.step placed action).bind fun system after refines => ⟨system, refines, ?_⟩
    cases action with
    | serviceOne => simp only [Simulator.withSystem, ← record]
    | _ => rfl
  | lock =>
    exact Agree.require_bind fun _ => ⟨system, related, rfl⟩
  | scheduleBarrier =>
    simp only [Simulator.step, Simulator.withSystem]
    split
    · rfl
    · split
      · exact (related.machine.schedule placed).bind fun machine after refines =>
          ⟨{ system with machine }, ⟨related.control, refines⟩, rfl⟩
      · rfl
  | unlock =>
    simp only [Simulator.step, Simulator.withSystem]
    split
    · rfl
    · exact Agree.require_bind fun _ => ⟨system, related, rfl⟩

/-- In every interleaving of the threads in which each queue drains its asynchronous queue before
the ticks of the events there, a queue processes no call of `schedule` on a global event twice,
and any two queues process the calls they both process in the same order. -/
theorem global_events_agree (priority : Global → Priority)
    (events : EventPtr Global Local numMainEventQueues → Event)
    (unscheduled : ∀ event, (events event).scheduled = false)
    (priorities : ∀ barrier, (events (.inl barrier)).priority = priority barrier.1)
    (curTick : QueueId → Tick)
    (nextBin nextInBin : EventPtr Global Local numMainEventQueues →
      Option (EventPtr Global Local numMainEventQueues))
    (actions : List (GlobalAction Global Local numMainEventQueues))
    (simulator : Simulator Global Local numMainEventQueues
      (Links (EventPtr Global Local numMainEventQueues)))
    (run : Run (Simulator.step (linkedPending _) priority) Simulator.Allowed
      (Simulator.initial events { head := fun _ => none, nextBin, nextInBin } curTick)
      actions simulator) (i j : QueueId) :
    (simulator.processed i).Nodup ∧ ∀ first second,
      [first, second].Sublist (simulator.processed i) →
        first ∈ simulator.processed j → second ∈ simulator.processed j →
          [first, second].Sublist (simulator.processed j) := by
  obtain ⟨spec, ⟨_, _, rfl⟩, inOrder⟩ := run.invariant
    (fun code => ∃ spec, Follows code spec ∧ InOrder priority spec)
    (fun ⟨_, follows, inOrder⟩ allowed taken => by
      obtain ⟨after, stepped, followed⟩ :=
        (follows.step inOrder.agreed.placed _).ok_left taken
      exact ⟨after, followed, inOrder.step (follows.allowed allowed) stepped⟩)
    ⟨Simulator.initial events (fun _ => []) curTick,
      ⟨_, ⟨rfl, _, rfl, ordered_empty _ _ _⟩, rfl⟩, ⟨placed_empty unscheduled, rfl, nofun,
        fun barrier => ⟨priorities barrier, fun scheduled =>
          (nomatch scheduled.symm.trans (unscheduled (.inl barrier)))⟩, nofun,
        fun queue => ⟨.nil, .nil, nofun, nofun⟩⟩, nofun⟩
  have ordered := inOrder.agreed.lanes
  exact ⟨(ordered i).nodup, fun first second => (ordered i).agree (ordered j)⟩

/-- Two global events for the same tick on two queues, one of which drains between the two calls:
both queues process the later call first. -/
theorem global_events_agree_two : ∃ simulator,
    Run (Simulator.step (linkedPending (EventPtr (Fin 2) (Fin 1) 2)) fun _ => 0) Simulator.Allowed
      (Simulator.initial (fun _ => .create 0 0)
        { head := fun _ => none, nextBin := fun _ => none, nextInBin := fun _ => none } fun _ => 0)
      [.lock 0 10, .scheduleBarrier 0, .scheduleBarrier 0, .unlock,
        .queue (.handleAsyncInsertions 0), .queue (.schedule 0 1 (.inr 0) 5 false),
        .lock 1 10, .scheduleBarrier 1, .scheduleBarrier 1, .unlock,
        .queue (.handleAsyncInsertions 1), .queue (.serviceOne 1), .queue (.processReturn 1),
        .queue (.serviceOne 1), .queue (.processReturn 1), .queue (.serviceOne 1),
        .queue (.handleAsyncInsertions 0), .queue (.serviceOne 0), .queue (.processReturn 0),
        .queue (.serviceOne 0)] simulator ∧
      simulator.processed 0 = [1, 0] ∧ [1, 0].Sublist (simulator.processed 1) := by
  refine Run.exists_and rfl fun run => ⟨rfl, ?_⟩
  exact (global_events_agree _ _ (by decide) (by decide) _ _ _ _ _ run 0 1).2 1 0
    (by decide) (by decide) (by decide)

end Linked

end Gem5.Sim
