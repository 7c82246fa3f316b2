/-
This file treats one queue in serial mode. The bins read from the head are the
sorted list of the scheduled events after every run, whatever the callbacks do,
and a run that fails does so by a violated assert or another misuse by the
caller: `remove` never misses a scheduled event.
-/

import Gem5.Sim.Refinement

namespace Gem5.Sim

open Base Library

/-! ### The queue in use -/

section Serial

variable {Ptr : Type} [DecidableEq Ptr] {spec : ListSystem Ptr} {machine next : ListMachine Ptr}
  {this : QueueId} {event : Ptr} {arrives : Ptr → Prop}

/-- In serial mode nothing waits on an asynchronous queue, and with one queue in use every
scheduled event is scheduled there. -/
structure Alone (this : QueueId) (machine : ListMachine Ptr) : Prop where
  serial : machine.inParallelMode = false
  waiting : ∀ queue, machine.asyncQueue queue = []
  here : OfScheduled (fun event => event.queue = some this) machine.events

theorem Alone.change (alone : Alone this machine) (change : Change this arrives machine next) :
    Alone this next := by
  obtain ⟨serial, waiting, here⟩ := alone
  cases change with
  | @insert _ _ _ _ _ _ own =>
    exact ⟨serial, waiting, here.update fun _ => own⟩
  | @asyncInsert _ _ _ parallel =>
    rw [serial] at parallel
    cases parallel
  | @erase _ _ _ unscheduled =>
    refine ⟨serial, waiting, here.update fun scheduled => ?_⟩
    cases scheduled.symm.trans unscheduled
  | @write event _ same =>
    refine ⟨serial, waiting, here.update fun scheduled => ?_⟩
    exact here event (same.symm.trans scheduled)

omit [DecidableEq Ptr] in
theorem Alone.drainList (alone : Alone this machine) (queue : QueueId) :
    Alone this (machine.drainList queue) := by
  refine ⟨alone.serial, fun other => ?_, alone.here⟩
  by_cases own : other = queue
  · subst own
    simp only [Machine.drainList, Function.update_self]
  · simp only [Machine.drainList, Function.update_of_ne own]
    exact alone.waiting other

theorem Alone.changes (alone : Alone this machine) (changes : Changes this arrives machine next) :
    Alone this next := by
  induction changes with
  | refl => exact alone
  | tail _ last hypothesis => exact hypothesis.change last

omit [DecidableEq Ptr] in
theorem Alone.setCurTick (alone : Alone this machine) (queue : QueueId) (newVal : Tick) :
    Alone this (machine.setCurTick queue newVal) :=
  { alone with }

theorem Alone.step {after : ListSystem Ptr} {action : Action Ptr} (alone : Alone this spec.machine)
    (own : action.on this) (taken : spec.step (listPending Ptr) action = .ok after) :
    Alone this after.machine := by
  rcases System.step_cases taken with ⟨changes, _⟩ | ⟨cur, _, rfl⟩ | ⟨cur, when, _, _, rfl⟩ |
    ⟨cur, event, machine, rfl, _, _, begun, rfl⟩ | ⟨cur, when, _, _, _, rfl⟩
  · exact alone.changes (changes this own)
  · exact alone.drainList cur
  · exact alone
  · cases own
    obtain ⟨_, changes, ⟨_, rfl⟩ | ⟨_, rfl⟩⟩ := Machine.beginService_changes (fun _ => False) begun
    · exact (alone.changes changes).setCurTick _ _
    · exact alone.changes changes
  · exact alone.setCurTick _ _

/-! ### Faults -/

/-- A misuse by the caller: all faults but the panic of `remove` and a walk that does not
end. -/
def Fault.Misuse (fault : Fault) : Prop := fault ≠ .eventNotFound ∧ fault ≠ .endless
deriving Decidable

theorem require_raises (condition : Prop) [Decidable condition] {fault : Fault}
    (misuse : fault.Misuse) : Raises Fault.Misuse (require condition fault) := by
  unfold require
  split
  · exact .ok ()
  · rintro _ ⟨⟩
    exact misuse

theorem require_eq_ok {condition : Prop} [Decidable condition] {fault : Fault} {value : Unit}
    (passed : require condition fault = .ok value) : condition := by
  unfold require at passed
  split at passed
  · assumption
  · cases passed

omit [DecidableEq Ptr] in
theorem Alone.listed_iff (alone : Alone this machine) (placed : Placed machine) (event : Ptr) :
    event ∈ machine.order this ↔ (machine.events event).scheduled = true := by
  have filed : event ∈ machine.order this ++ machine.asyncQueue this ↔ _ :=
    (placed.filed this).2 event
  rw [alone.waiting, List.append_nil] at filed
  rw [filed]
  exact and_iff_left_of_imp (alone.here event)

theorem Alone.remove (alone : Alone this machine) (placed : Placed machine)
    (scheduled : (machine.events event).scheduled = true) :
    machine.remove (listPending Ptr) this event = .ok (machine.eraseList this event) := by
  have here := alone.here event scheduled
  have listed := (alone.listed_iff placed event).mpr scheduled
  have nonempty : machine.order this ≠ [] := List.ne_nil_of_mem listed
  simp only [Machine.remove, listPending, nonempty, here, listed, if_true, if_false, ne_eq,
    not_true_eq_false]
  rfl

theorem delete_raises : Raises Fault.Misuse (machine.delete event) :=
  (require_raises _ (by decide)).map

theorem reap_raises : Raises Fault.Misuse (machine.reap event) :=
  .ite (fun _ => delete_raises) fun _ => .ok _

theorem schedule_raises {cur : QueueId} {when : Tick} {global : Bool} :
    Raises Fault.Misuse (machine.schedule (listPending Ptr) cur this event when global) :=
  (require_raises _ (by decide)).bind fun _ _ => (require_raises _ (by decide)).bind fun _ _ =>
    (require_raises _ (by decide)).bind fun _ _ =>
      .ite (fun _ => .ok _) fun _ => .ok _

theorem deschedule_raises {cur : QueueId} (alone : Alone this machine) (placed : Placed machine) :
    Raises Fault.Misuse (machine.deschedule (listPending Ptr) cur this event) := by
  refine (require_raises _ (by decide)).bind fun _ scheduled => ?_
  refine (require_raises _ (by decide)).bind fun _ _ => ?_
  refine (require_raises _ (by decide)).bind fun _ _ => ?_
  have found := alone.remove placed (require_eq_ok scheduled)
  rw [found]
  exact .ite (fun _ => delete_raises) fun _ => .ok _

theorem reschedule_raises {cur : QueueId} {when : Tick} {always : Bool}
    (alone : Alone this machine) (placed : Placed machine) :
    Raises Fault.Misuse (machine.reschedule (listPending Ptr) cur this event when always) := by
  refine (require_raises _ (by decide)).bind fun _ _ => ?_
  refine (require_raises _ (by decide)).bind fun _ _ => ?_
  refine (require_raises _ (by decide)).bind fun _ _ => ?_
  refine (require_raises _ (by decide)).bind fun _ _ => ?_
  refine .ite (fun scheduled => ?_) fun _ => .ok _
  rw [alone.remove placed scheduled]
  exact .ok _

theorem beginService_raises :
    Raises Fault.Misuse (machine.beginService (listPending Ptr) this) := by
  unfold Machine.beginService
  split
  · rintro _ ⟨⟩
    decide
  · exact .ite (fun _ => .ok _) fun _ => .ok _

theorem endService_raises : Raises Fault.Misuse (machine.endService event) :=
  (require_raises _ (by decide)).bind fun _ _ =>
    .ite (fun _ => (require_raises _ (by decide)).map)
      fun _ => reap_raises.map

theorem step_raises {action : Action Ptr} (alone : Alone this spec.machine)
    (placed : Placed spec.machine) (own : action.on this) :
    Raises Fault.Misuse (spec.step (listPending Ptr) action) := by
  have call {result : Except Fault (ListMachine Ptr)} (raises : Raises Fault.Misuse result) :
      Raises Fault.Misuse (spec.call result) := raises.map
  cases action with
  | schedule => exact call schedule_raises
  | deschedule =>
    cases own
    exact call (deschedule_raises alone placed)
  | reschedule =>
    cases own
    exact call (reschedule_raises alone placed)
  | squash => exact call ((require_raises _ (by decide)).map)
  | handleAsyncInsertions =>
    rw [System.step, Machine.handleAsyncInsertions_eq]
    exact call (.ok _)
  | serviceOne =>
    refine (require_raises _ (by decide)).bind fun _ _ => ?_
    refine (require_raises _ (by decide)).bind fun _ _ => ?_
    refine beginService_raises.bind fun _ _ => ?_
    exact .ite (fun _ => .ok _) fun _ => reap_raises.map
  | processReturn =>
    simp only [System.step]
    split
    · rintro _ ⟨⟩
      decide
    · exact endService_raises.map
  | serviceEvents =>
    exact (require_raises _ (by decide)).map
  | serviceEventsReturn =>
    simp only [System.step]
    split
    · exact (require_raises _ (by decide)).map
    · rintro _ ⟨⟩
      decide

end Serial

/-! ### Runs from the empty queue -/

section Runs

variable {Ptr : Type} [DecidableEq Ptr] [Fintype Ptr]

/-- Serial mode before the first call: nothing is scheduled and no thread is in a call. -/
def System.initial {Order : Type} (events : Ptr → Event) (order : Order)
    (curTick : QueueId → Tick) : System Ptr Order where
  machine := { events, order, curTick, asyncQueue := fun _ => [], inParallelMode := false }
  control := fun _ => { running := none, serving := none }

/-- The links before any event is scheduled, as the constructors set them. -/
def Links.empty : Links Ptr where
  head _ := none
  nextBin _ := none
  nextInBin _ := none

/-- What the runs with the bins and with the lists keep: they are at related states, the events
are placed and one queue is in use. -/
structure Tracks (this : QueueId) (code : System Ptr (Links Ptr)) (spec : ListSystem Ptr) :
    Prop where
  refines : SystemRefines code spec
  placed : Placed spec.machine
  alone : Alone this spec.machine

omit [DecidableEq Ptr] [Fintype Ptr] in
theorem tracks_initial (this : QueueId) {events : Ptr → Event} {curTick : QueueId → Tick}
    (unscheduled : ∀ event, (events event).scheduled = false)
    (nextBin nextInBin : Ptr → Option Ptr) :
    Tracks this (System.initial events { head := fun _ => none, nextBin, nextInBin } curTick)
      (System.initial events (fun _ => []) curTick) := by
  refine ⟨⟨rfl, _, rfl, ordered_empty _ _ _⟩, placed_empty unscheduled, rfl, fun _ => rfl,
    fun event scheduled => ?_⟩
  cases scheduled.symm.trans (unscheduled event)

theorem Tracks.step {this : QueueId} {code : System Ptr (Links Ptr)} {spec : ListSystem Ptr}
    {action : Action Ptr} (tracks : Tracks this code spec) (own : action.on this) :
    Agree (Tracks this) (code.step (linkedPending Ptr) action)
      (spec.step (listPending Ptr) action) := by
  have kept := (tracks.refines.step tracks.placed action).and_right fun after taken =>
    And.intro (tracks.placed.step taken) (tracks.alone.step own taken)
  exact kept.mono fun _ _ holds => ⟨holds.1, holds.2.1, holds.2.2⟩

theorem Tracks.run {this : QueueId} {code : System Ptr (Links Ptr)} {spec : ListSystem Ptr}
    {actions : List (Action Ptr)} (tracks : Tracks this code spec)
    (oneQueue : ∀ action ∈ actions, action.on this) :
    Agree (Tracks this) (actions.foldlM (System.step (linkedPending Ptr)) code)
      (actions.foldlM (System.step (listPending Ptr)) spec) := by
  refine foldlM_agree (fun code spec action member tracks => ?_) tracks
  exact tracks.step (oneQueue action member)

/-- For every sequence of calls on one queue in serial mode, callbacks included: the linked
structure holds, read from the head, the abstract list, in which an insertion goes before the
first event that does not sort before the new one, a removal erases the event and `serviceOne`
takes the first. The list is sorted, holds every scheduled event once and nothing else, and a
sequence that fails does so in both, by a misuse and never in a search of `remove`. -/
theorem run_denotes_sorted_list (this : QueueId) (events : Ptr → Event)
    (unscheduled : ∀ event, (events event).scheduled = false) (curTick : QueueId → Tick)
    (nextBin nextInBin : Ptr → Option Ptr) (actions : List (Action Ptr))
    (oneQueue : ∀ action ∈ actions, action.on this) :
    Agree (fun code spec => code.control = spec.control ∧
        code.machine = spec.machine.withLinks code.machine.order ∧
        Denotes code.machine.events code.machine.order this (spec.machine.order this) ∧
        (spec.machine.order this).Pairwise (keyLe code.machine.events) ∧
        (spec.machine.order this).Nodup ∧
        ∀ event, event ∈ spec.machine.order this ↔ (code.machine.events event).scheduled = true)
      (actions.foldlM (System.step (linkedPending Ptr))
        (System.initial events { head := fun _ => none, nextBin, nextInBin } curTick))
      (actions.foldlM (System.step (listPending Ptr))
        (System.initial events (fun _ => []) curTick)) ∧
    ∀ fault, actions.foldlM (System.step (linkedPending Ptr))
        (System.initial events { head := fun _ => none, nextBin, nextInBin } curTick) =
      .error fault → fault.Misuse := by
  have initially : Tracks this
      (System.initial events { head := fun _ => none, nextBin, nextInBin } curTick)
      (System.initial events (fun _ => []) curTick) :=
    tracks_initial this unscheduled nextBin nextInBin
  have agree := initially.run oneQueue
  constructor
  · refine agree.mono fun code spec tracks => ?_
    obtain ⟨⟨control, _, same, ordered⟩, placed, alone⟩ := tracks
    rw [same]
    exact ⟨control, rfl, ordered this, placed.sorted this, (ordered this).nodup,
      alone.listed_iff placed⟩
  · intro fault failed
    -- A run on the queue in use fails only when it is misused.
    refine foldlM_raises (fun spec => Placed spec.machine ∧ Alone this spec.machine) ?_ ?_
      ⟨initially.placed, initially.alone⟩ fault (agree.error_left failed)
    · intro spec action member next holds taken
      exact ⟨holds.1.step taken, holds.2.step (oneQueue action member) taken⟩
    · intro spec action member holds
      exact step_raises holds.2 holds.1 (oneQueue action member)

/-- Three events on one queue: the first is descheduled from under the second, the third is
moved onto the bin of the second and serviced first. -/
theorem run_denotes_sorted_list_three : ∃ code,
    [.schedule 0 0 0 5 false, .schedule 0 0 1 5 false, .schedule 0 0 2 7 false, .deschedule 0 0 0,
        .reschedule 0 0 2 5 false, .serviceOne 0].foldlM (System.step (linkedPending (Fin 3)))
      (System.initial (fun _ => .create 0 0) Links.empty fun _ => 0) = .ok code ∧
      Denotes code.machine.events code.machine.order 0 [1] := by
  have agree := (run_denotes_sorted_list 0 (fun _ : Fin 3 => .create 0 0) (by decide) (fun _ => 0)
    (fun _ => none) (fun _ => none)
    [.schedule 0 0 0 5 false, .schedule 0 0 1 5 false, .schedule 0 0 2 7 false, .deschedule 0 0 0,
      .reschedule 0 0 2 5 false, .serviceOne 0] (by simp [Action.on])).1
  obtain ⟨_, ran, holds⟩ := agree.ok_left rfl
  cases ran
  exact ⟨_, rfl, holds.2.2.1⟩

end Runs

end Gem5.Sim
