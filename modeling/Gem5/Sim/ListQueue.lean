/-
This file says once what a call can do when every queue is a plain list. For
each call there is one lemma that lists the asserts it has passed and the state
it ends in, in terms of a few edits: an event is inserted into a list, erased
from it or put on an asynchronous queue, and its fields are written. Every
invariant of the queues is derived from these edits.
-/

import Gem5.Sim.EventQueue

namespace Gem5.Sim

open Base Library List Function

/-- The simulator with a plain list for each queue. -/
abbrev ListMachine (Ptr : Type) := Machine Ptr (QueueId → List Ptr)

section Cases

variable {Ptr : Type} [DecidableEq Ptr]

theorem require_bind_eq_ok {Result : Type} {condition : Prop} [Decidable condition] {fault : Fault}
    {next : Unit → Except Fault Result} {result : Result}
    (done : require condition fault >>= next = .ok result) : condition ∧ next () = .ok result := by
  unfold require at done
  split at done
  · rename_i holds
    exact ⟨holds, done⟩
  · cases done

namespace Machine

variable {machine next : ListMachine Ptr} {cur this : QueueId} {event : Ptr}

@[simp] theorem setEvent_events (value : Event) :
    (machine.setEvent event value).events event = value := by
  simp only [setEvent, update_self]

@[simp] theorem setEvent_order (value : Event) :
    (machine.setEvent event value).order = machine.order := rfl

theorem setEvent_events_of_ne {other : Ptr} (different : other ≠ event) (value : Event) :
    (machine.setEvent event value).events other = machine.events other := by
  simp only [setEvent, update_of_ne different]

theorem setEvent_setEvent (first second : Event) :
    (machine.setEvent event first).setEvent event second = machine.setEvent event second := by
  rw [setEvent, setEvent, setEvent, update_idem]

theorem setEvent_key {value : Event} (same : value.key = (machine.events event).key) (other : Ptr) :
    ((machine.setEvent event value).events other).key = (machine.events other).key := by
  by_cases equal : other = event
  · rw [equal, setEvent_events, same]
  · rw [setEvent_events_of_ne equal]

def insertList (this : QueueId) (event : Ptr) (machine : ListMachine Ptr) : ListMachine Ptr :=
  { machine with
    order := update machine.order this
      ((machine.order this).orderedInsert (keyLe machine.events) event) }

def eraseList (this : QueueId) (event : Ptr) (machine : ListMachine Ptr) : ListMachine Ptr :=
  { machine with
    order := update machine.order this ((machine.order this).erase event) }

/-- The events of the asynchronous queue are inserted into the list, first come first. -/
def drainList (this : QueueId) (machine : ListMachine Ptr) : ListMachine Ptr :=
  { machine with
    order := update machine.order this
      ((machine.asyncQueue this).foldl
        (fun list event => list.orderedInsert (keyLe machine.events) event) (machine.order this))
    asyncQueue := update machine.asyncQueue this [] }

omit [DecidableEq Ptr] in
@[simp] theorem insertList_events : (machine.insertList this event).events = machine.events := rfl

omit [DecidableEq Ptr] in
@[simp] theorem asyncInsert_events : (machine.asyncInsert this event).events = machine.events := rfl

theorem eraseList_sublist (queue : QueueId) :
    ((machine.eraseList this event).order queue).Sublist (machine.order queue) := by
  by_cases own : queue = this
  · subst own
    simp only [eraseList, update_self]
    exact erase_sublist
  · simp only [eraseList, update_of_ne own]
    exact List.Sublist.refl _

omit [DecidableEq Ptr] in
theorem mem_insertList {queue : QueueId} {member : Ptr}
    (listed : member ∈ (machine.insertList this event).order queue) :
    (member = event ∧ queue = this) ∨ member ∈ machine.order queue := by
  by_cases own : queue = this
  · subst own
    simp only [insertList, update_self, mem_orderedInsert] at listed
    exact listed.imp_left fun equal => ⟨equal, rfl⟩
  · simp only [insertList, update_of_ne own] at listed
    exact .inr listed

theorem insert_eq (this : QueueId) (event : Ptr) (machine : ListMachine Ptr) :
    machine.insert (listPending Ptr) this event = .ok (machine.insertList this event) := rfl

omit [DecidableEq Ptr] in
theorem orderedInsert_congr {events other : Ptr → Event} {event : Ptr} {list : List Ptr}
    (same : ∀ member ∈ event :: list, (other member).key = (events member).key) :
    list.orderedInsert (keyLe other) event = list.orderedInsert (keyLe events) event := by
  induction list with
  | nil => rfl
  | cons first rest hypothesis =>
    have agree : keyLe other event first ↔ keyLe events event first := by
      rw [keyLe, keyLe, same event mem_cons_self, same first (mem_cons_of_mem _ mem_cons_self)]
    have inRest (member : Ptr) (inside : member ∈ event :: rest) :
        (other member).key = (events member).key := by
      rcases mem_cons.mp inside with rfl | later
      · exact same member mem_cons_self
      · exact same member (mem_cons_of_mem _ (mem_cons_of_mem _ later))
    by_cases stops : keyLe events event first
    · rw [orderedInsert_cons_of_le _ _ stops, orderedInsert_cons_of_le _ _ (agree.mpr stops)]
    · rw [orderedInsert_of_not_le _ _ stops,
        orderedInsert_of_not_le _ _ (agree.not.mpr stops), hypothesis inRest]

/-- The flags may be written before the insertion or after it. -/
theorem insertList_setEvent {value : Event} (same : value.key = (machine.events event).key) :
    (machine.insertList this event).setEvent event value =
      (machine.setEvent event value).insertList this event := by
  have order := orderedInsert_congr fun member (_ : member ∈ event :: machine.order this) =>
    setEvent_key same member
  simp only [insertList, setEvent] at order ⊢
  rw [order]

/-! ### What each call does -/

theorem remove_cases (done : machine.remove (listPending Ptr) this event = .ok next) :
    (machine.events event).queue = some this ∧ event ∈ machine.order this ∧
      next = machine.eraseList this event := by
  simp only [remove, listPending] at done
  split at done
  · cases done
  · split at done
    · cases done
    · rename_i _ here
      split at done
      · rename_i listed
        cases done
        exact ⟨not_not.mp here, listed, rfl⟩
      · cases done

theorem delete_cases (done : machine.delete event = .ok next) :
    (machine.events event).scheduled = false ∧
      next = machine.setEvent event { machine.events event with flags := 0 } := by
  obtain ⟨unscheduled, rest⟩ := require_bind_eq_ok done
  cases rest
  exact ⟨unscheduled, rfl⟩

theorem schedule_cases {when : Tick} {global : Bool}
    (done : machine.schedule (listPending Ptr) cur this event when global = .ok next) :
    machine.curTick this ≤ when ∧ (machine.events event).scheduled = false ∧
      (machine.events event).initialized = true ∧
      ((machine.inParallelMode = true ∧ (this ≠ cur ∨ global = true) ∧
          next = (machine.setEvent event (((machine.events event).setWhen when this).setFlags
            EventFlag.scheduled)).asyncInsert this event) ∨
        (¬ (machine.inParallelMode = true ∧ (this ≠ cur ∨ global = true)) ∧
          next = (machine.setEvent event (((machine.events event).setWhen when this).setFlags
            EventFlag.scheduled)).insertList this event)) := by
  obtain ⟨notPast, done⟩ := require_bind_eq_ok done
  obtain ⟨unscheduled, done⟩ := require_bind_eq_ok done
  obtain ⟨initialized, done⟩ := require_bind_eq_ok done
  refine ⟨notPast, unscheduled, initialized, ?_⟩
  simp only [insert_eq] at done
  split at done
  · rename_i asynchronous
    cases done
    refine .inl ⟨asynchronous.1, asynchronous.2, ?_⟩
    simp only [asyncInsert, setEvent, update_self, update_idem]
  · rename_i synchronous
    cases done
    refine .inr ⟨synchronous, ?_⟩
    rw [insertList_events, setEvent_events, insertList_setEvent (by rw [setEvent_events]; rfl),
      setEvent_setEvent]

theorem deschedule_cases (done : machine.deschedule (listPending Ptr) cur this event = .ok next) :
    (machine.events event).scheduled = true ∧ (machine.events event).initialized = true ∧
      (machine.inParallelMode = false ∨ this = cur) ∧
      (machine.events event).queue = some this ∧ event ∈ machine.order this ∧
      ∃ flags : Flags 16, flags.isSet EventFlag.scheduled = false ∧
        next = (machine.eraseList this event).setEvent event
          { machine.events event with flags } := by
  obtain ⟨scheduled, done⟩ := require_bind_eq_ok done
  obtain ⟨initialized, done⟩ := require_bind_eq_ok done
  obtain ⟨owner, done⟩ := require_bind_eq_ok done
  obtain ⟨_, erased, done⟩ := bind_eq_ok done
  obtain ⟨here, listed, rfl⟩ := remove_cases erased
  refine ⟨scheduled, initialized, owner, here, listed, ?_⟩
  simp only [setEvent_events] at done
  split at done
  · obtain ⟨_, rfl⟩ := delete_cases done
    refine ⟨0, by decide, ?_⟩
    simp only [setEvent, update_self, update_idem]
    rfl
  · cases done
    exact ⟨_, Event.scheduled_clear _, rfl⟩

theorem reschedule_cases {when : Tick} {always : Bool}
    (done : machine.reschedule (listPending Ptr) cur this event when always = .ok next) :
    machine.curTick this ≤ when ∧ (always = true ∨ (machine.events event).scheduled = true) ∧
      (machine.events event).initialized = true ∧
      (machine.inParallelMode = false ∨ this = cur) ∧
      ∃ base : ListMachine Ptr,
        (((machine.events event).scheduled = true ∧ (machine.events event).queue = some this ∧
            event ∈ machine.order this ∧ base = machine.eraseList this event) ∨
          ((machine.events event).scheduled = false ∧ base = machine)) ∧
        next = (base.setEvent event ((((machine.events event).setWhen when this).clearFlags
          EventFlag.squashed).setFlags EventFlag.scheduled)).insertList this event := by
  obtain ⟨notPast, done⟩ := require_bind_eq_ok done
  obtain ⟨allowed, done⟩ := require_bind_eq_ok done
  obtain ⟨initialized, done⟩ := require_bind_eq_ok done
  obtain ⟨owner, done⟩ := require_bind_eq_ok done
  refine ⟨notPast, allowed, initialized, owner, ?_⟩
  have moved (base : ListMachine Ptr) (same : base.events = machine.events) :
      ((base.setEvent event ((base.events event).setWhen when this)).insertList this event).setEvent
          event (((((base.setEvent event ((base.events event).setWhen when this)).insertList this
            event).events event).clearFlags EventFlag.squashed).setFlags EventFlag.scheduled) =
        (base.setEvent event ((((machine.events event).setWhen when this).clearFlags
          EventFlag.squashed).setFlags EventFlag.scheduled)).insertList this event := by
    rw [insertList_events, setEvent_events, insertList_setEvent (by rw [setEvent_events]; rfl),
      setEvent_setEvent, same]
  split at done
  · rename_i scheduled
    obtain ⟨_, removed, done⟩ := bind_eq_ok done
    obtain ⟨here, listed, rfl⟩ := remove_cases removed
    cases done
    exact ⟨_, .inl ⟨scheduled, here, listed, rfl⟩, moved _ rfl⟩
  · rename_i unscheduled
    cases done
    exact ⟨_, .inr ⟨by simpa using unscheduled, rfl⟩, moved _ rfl⟩

theorem reap_cases (done : machine.reap event = .ok next) :
    ((machine.events event).autoDelete = true ∧ (machine.events event).scheduled = false ∧
        next = machine.setEvent event { machine.events event with flags := 0 }) ∨
      (¬ ((machine.events event).autoDelete = true ∧ (machine.events event).scheduled = false) ∧
        next = machine) := by
  unfold reap at done
  split at done
  · rename_i dead
    exact .inl ⟨dead.1, dead.2, (delete_cases done).2⟩
  · rename_i kept
    cases done
    exact .inr ⟨kept, rfl⟩

theorem beginService_cases {live : Bool}
    (done : machine.beginService (listPending Ptr) this = .ok (next, event, live)) :
    (∃ rest, machine.order this = event :: rest) ∧
      (((machine.events event).squashed = false ∧ live = true ∧
          next = ((machine.eraseList this event).setEvent event
            ((machine.events event).clearFlags EventFlag.scheduled)).setCurTick this
              (machine.events event).when) ∨
        ((machine.events event).squashed = true ∧ live = false ∧
          next = (machine.eraseList this event).setEvent event
            (((machine.events event).clearFlags EventFlag.scheduled).clearFlags
              EventFlag.squashed))) := by
  unfold beginService at done
  split at done
  · cases done
  · rename_i first found
    cases list : machine.order this with
    | nil =>
      simp only [listPending, list] at found
      cases found
    | cons head rest =>
      simp only [listPending, list, head?_cons, Option.some.injEq] at found
      subst found
      have erased : machine.eraseList this head =
          { machine with order := update machine.order this rest } := by
        rw [eraseList, list, erase_cons_head]
      simp only [listPending, list, tail_cons, setEvent_events, setEvent_order,
        Event.squashed_clear_scheduled] at done
      split at done
      · rename_i live
        cases done
        rw [erased]
        exact ⟨⟨rest, rfl⟩, .inl ⟨live, rfl, rfl⟩⟩
      · rename_i squashed
        cases done
        rw [erased]
        refine ⟨⟨rest, rfl⟩, .inr ⟨by simpa using squashed, rfl, ?_⟩⟩
        simp only [setEvent, update_idem]

theorem endService_cases {exit : Option Ptr} (done : machine.endService event = .ok (next, exit)) :
    (machine.events event).initialized = true ∧
      (((machine.events event).isExitEvent = true ∧ next = machine ∧ exit = some event) ∨
        ((machine.events event).isExitEvent = false ∧ machine.reap event = .ok next ∧
          exit = none)) := by
  obtain ⟨initialized, done⟩ := require_bind_eq_ok done
  refine ⟨initialized, ?_⟩
  split at done
  · rename_i exits
    obtain ⟨_, done⟩ := require_bind_eq_ok done
    cases done
    exact .inl ⟨exits, rfl, rfl⟩
  · rename_i continues
    obtain ⟨_, dead, same⟩ := bind_eq_ok done
    cases same
    exact .inr ⟨by simpa using continues, dead, rfl⟩

theorem handleAsyncInsertions_eq (this : QueueId) (machine : ListMachine Ptr) :
    machine.handleAsyncInsertions (listPending Ptr) this =
      .ok (machine.drainList this) := by
  have inserted (waiting : List Ptr) (order : QueueId → List Ptr) :
      waiting.foldlM (fun machine event => machine.insert (listPending Ptr) this event)
          { machine with order } =
        .ok { machine with
          order := update order this (waiting.foldl
            (fun list event => list.orderedInsert (keyLe machine.events) event)
            (order this)) } := by
    induction waiting generalizing order with
    | nil => simp only [foldlM_nil, foldl_nil, update_eq_self, pure, Except.pure]
    | cons _ _ hypothesis =>
      rw [foldlM_cons, insert_eq]
      refine (hypothesis _).trans ?_
      simp only [update_self, update_idem, foldl_cons]
  rw [handleAsyncInsertions, inserted]
  rfl

end Machine

end Cases

end Gem5.Sim
