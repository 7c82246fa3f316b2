/-
This file proves the placement invariant of the queues. An event is in a queue,
or waits on the asynchronous queue to be inserted there, exactly when it is
scheduled there; it is there once; and every queue is sorted. Every call is a
sequence of changes of a few kinds, and each kind of change keeps the invariant.
-/

import Gem5.Sim.ListQueue

namespace Gem5.Sim

open Base Library List Function Event

/-- The simulator with a plain list for each queue. -/
abbrev ListSystem (Ptr : Type) := System Ptr (QueueId → List Ptr)

section Changes

variable {Ptr : Type} [DecidableEq Ptr]

/-- The kinds of changes the calls on one queue make to the events and the queue. The events
that are scheduled are among those that may arrive. -/
inductive Change (this : QueueId) (arrives : Ptr → Prop) (machine : ListMachine Ptr) :
    ListMachine Ptr → Prop where
  | insert {event : Ptr} {value : Event} (allowed : arrives event)
      (unscheduled : (machine.events event).scheduled = false)
      (scheduled : value.scheduled = true) (initialized : value.initialized = true)
      (here : value.queue = some this) (notPast : machine.curTick this ≤ value.when) :
      Change this arrives machine ((machine.setEvent event value).insertList this event)
  | asyncInsert {event : Ptr} {value : Event} (allowed : arrives event)
      (parallel : machine.inParallelMode = true)
      (unscheduled : (machine.events event).scheduled = false)
      (scheduled : value.scheduled = true) (initialized : value.initialized = true)
      (here : value.queue = some this) (notPast : machine.curTick this ≤ value.when) :
      Change this arrives machine ((machine.setEvent event value).asyncInsert this event)
  | erase {event : Ptr} {flags : Flags 16}
      (listed : event ∈ machine.order this)
      (unscheduled : flags.isSet EventFlag.scheduled = false) :
      Change this arrives machine ((machine.eraseList this event).setEvent event
        { machine.events event with flags })
  | write {event : Ptr} {flags : Flags 16}
      (same : flags.isSet EventFlag.scheduled = (machine.events event).scheduled)
      (initialized : flags.isSet EventFlag.scheduled = true →
        ({ machine.events event with flags } : Event).initialized = true) :
      Change this arrives machine (machine.setEvent event { machine.events event with flags })

/-- A sequence of changes. -/
abbrev Changes (this : QueueId) (arrives : Ptr → Prop) :
    ListMachine Ptr → ListMachine Ptr → Prop :=
  Relation.ReflTransGen (Change this arrives)

namespace Machine

variable {machine next : ListMachine Ptr} {cur this : QueueId} {event : Ptr}
  {arrives : Ptr → Prop}

theorem schedule_changes {when : Tick} {global : Bool} (allowed : arrives event)
    (done : machine.schedule (listPending Ptr) cur this event when global = .ok next) :
    Changes this arrives machine next := by
  obtain ⟨notPast, unscheduled, initialized, ⟨parallel, _, rfl⟩ | ⟨_, rfl⟩⟩ :=
    schedule_cases done
  · exact .single (.asyncInsert allowed parallel unscheduled (scheduled_set _)
      ((initialized_set_scheduled _).trans initialized) rfl notPast)
  · exact .single (.insert allowed unscheduled (scheduled_set _)
      ((initialized_set_scheduled _).trans initialized) rfl notPast)

theorem deschedule_changes (done : machine.deschedule (listPending Ptr) cur this event = .ok next) :
    Changes this arrives machine next := by
  obtain ⟨_, _, _, _, listed, _, unscheduled, rfl⟩ := deschedule_cases done
  exact .single (.erase listed unscheduled)

theorem reschedule_changes {when : Tick} {always : Bool} (allowed : arrives event)
    (done : machine.reschedule (listPending Ptr) cur this event when always = .ok next) :
    Changes this arrives machine next := by
  have ready {value : Event} (initialized : value.initialized = true) :
      (((value.setWhen when this).clearFlags EventFlag.squashed).setFlags
        EventFlag.scheduled).initialized = true := by
    rw [initialized_set_scheduled, initialized_clear_squashed]
    exact initialized
  obtain ⟨notPast, _, initialized, _, _, ⟨_, _, listed, rfl⟩ | ⟨unscheduled, rfl⟩, rfl⟩ :=
    reschedule_cases done
  · let erased := (machine.eraseList this event).setEvent event
      ((machine.events event).clearFlags EventFlag.scheduled)
    have unscheduled : (erased.events event).scheduled = false := by
      rw [setEvent_events]
      exact scheduled_clear _
    have inserted : Change this arrives erased _ := .insert allowed unscheduled (scheduled_set
      (((machine.events event).setWhen when this).clearFlags EventFlag.squashed))
      (ready initialized) rfl notPast
    rw [setEvent_setEvent] at inserted
    exact (Relation.ReflTransGen.single (.erase listed (scheduled_clear _))).tail inserted
  · exact .single (.insert allowed unscheduled (scheduled_set _) (ready initialized) rfl notPast)

theorem squash_changes (done : machine.squash event = .ok next) :
    Changes this arrives machine next := by
  obtain ⟨initialized, done⟩ := require_bind_eq_ok done
  cases done
  exact .single (.write (scheduled_set_squashed _) fun _ =>
    (initialized_set_squashed _).trans initialized)

theorem reap_changes (done : machine.reap event = .ok next) :
    Changes this arrives machine next := by
  obtain ⟨_, unscheduled, rfl⟩ | ⟨_, rfl⟩ := reap_cases done
  · exact .single (.write ((scheduled_zero (machine.events event)).trans unscheduled.symm) nofun)
  · exact .refl

theorem endService_changes {exit : Option Ptr}
    (done : machine.endService event = .ok (next, exit)) : Changes this arrives machine next := by
  obtain ⟨_, ⟨_, rfl, _⟩ | ⟨_, reaped, _⟩⟩ := endService_cases done
  · exact .refl
  · exact reap_changes reaped

theorem beginService_changes (arrives : Ptr → Prop) {live : Bool}
    (done : machine.beginService (listPending Ptr) this = .ok (next, event, live)) :
    ∃ changed, Changes this arrives machine changed ∧
      ((live = true ∧ next = changed.setCurTick this (machine.events event).when) ∨
        (live = false ∧ next = changed)) := by
  obtain ⟨⟨_, list⟩, ⟨_, rfl, rfl⟩ | ⟨_, rfl, rfl⟩⟩ := beginService_cases done
  · exact ⟨_, .single (.erase (list ▸ mem_cons_self) (scheduled_clear _)),
      .inl ⟨rfl, rfl⟩⟩
  · refine ⟨_, .single (.erase (list ▸ mem_cons_self) ?_), .inr ⟨rfl, rfl⟩⟩
    exact (scheduled_clear_squashed _).trans (scheduled_clear _)

end Machine

/-- The call is a call on the queue. -/
def Action.on (this : QueueId) : Action Ptr → Prop
  | .schedule _ queue _ _ _ => queue = this
  | .deschedule _ queue _ => queue = this
  | .reschedule _ queue _ _ _ => queue = this
  | .squash _ => True
  | .handleAsyncInsertions cur => cur = this
  | .serviceOne cur => cur = this
  | .processReturn cur => cur = this
  | .serviceEvents cur _ => cur = this
  | .serviceEventsReturn cur => cur = this

def Action.schedules (event : Ptr) : Action Ptr → Prop
  | .schedule _ _ scheduled _ _ => scheduled = event
  | .reschedule _ _ scheduled _ _ => scheduled = event
  | _ => False

omit [DecidableEq Ptr] in
theorem Action.exists_on (action : Action Ptr) : ∃ this, action.on this := by
  cases action with
  | squash => exact ⟨0, trivial⟩
  | _ => exact ⟨_, rfl⟩

theorem System.step_cases {system after : ListSystem Ptr} {action : Action Ptr}
    (taken : system.step (listPending Ptr) action = .ok after) :
    ((∀ this, action.on this →
          Changes this (fun event => action.schedules event) system.machine after.machine) ∧
        ∀ queue, (after.control queue).serving = (system.control queue).serving ∧
          ((after.control queue).running = none ∨ after.control queue = system.control queue)) ∨
      (∃ cur, action = .handleAsyncInsertions cur ∧
        after = { system with machine := system.machine.drainList cur }) ∨
      (∃ cur when, action = .serviceEvents cur when ∧
        system.control cur = { running := none, serving := none } ∧
        after = system.setControl cur { running := none, serving := some when }) ∨
      (∃ cur event machine, action = .serviceOne cur ∧ (system.control cur).running = none ∧
        (∀ when ∈ (system.control cur).serving,
          system.loops (listPending Ptr) cur when = true) ∧
        system.machine.beginService (listPending Ptr) cur = .ok (machine, event, true) ∧
        after = { system with machine }.setControl cur
          { system.control cur with running := some event }) ∨
      (∃ cur when, action = .serviceEventsReturn cur ∧
        system.control cur = { running := none, serving := some when } ∧
        system.loops (listPending Ptr) cur when = false ∧
        after = { system with machine := system.machine.setCurTick cur when }.setControl cur
          { running := none, serving := none }) := by
  cases action with
  | schedule =>
    obtain ⟨_, done, rfl⟩ := map_eq_ok taken
    refine .inl ⟨fun queue own => ?_, fun _ => ⟨rfl, .inr rfl⟩⟩
    cases own
    exact Machine.schedule_changes rfl done
  | deschedule =>
    obtain ⟨_, done, rfl⟩ := map_eq_ok taken
    refine .inl ⟨fun queue own => ?_, fun _ => ⟨rfl, .inr rfl⟩⟩
    cases own
    exact Machine.deschedule_changes done
  | reschedule =>
    obtain ⟨_, done, rfl⟩ := map_eq_ok taken
    refine .inl ⟨fun queue own => ?_, fun _ => ⟨rfl, .inr rfl⟩⟩
    cases own
    exact Machine.reschedule_changes rfl done
  | squash =>
    obtain ⟨_, done, rfl⟩ := map_eq_ok taken
    refine .inl ⟨fun queue own => ?_, fun _ => ⟨rfl, .inr rfl⟩⟩
    exact Machine.squash_changes done
  | handleAsyncInsertions cur =>
    obtain ⟨_, done, rfl⟩ := map_eq_ok taken
    rw [Machine.handleAsyncInsertions_eq] at done
    cases done
    exact .inr (.inl ⟨cur, rfl, rfl⟩)
  | serviceOne cur =>
    obtain ⟨idle, taken⟩ := require_bind_eq_ok taken
    obtain ⟨due, taken⟩ := require_bind_eq_ok taken
    obtain ⟨⟨machine, event, live⟩, begun, taken⟩ := bind_eq_ok taken
    cases live with
    | true =>
      cases taken
      exact .inr (.inr (.inr (.inl ⟨cur, event, machine, rfl, idle, due, begun, rfl⟩)))
    | false =>
      obtain ⟨_, done, rfl⟩ := map_eq_ok taken
      obtain ⟨_, changes, ⟨live, _⟩ | ⟨_, rfl⟩⟩ := Machine.beginService_changes _ begun
      · cases live
      · refine .inl ⟨fun queue own => ?_, fun _ => ⟨rfl, .inr rfl⟩⟩
        cases own
        exact changes.trans (Machine.reap_changes done)
  | processReturn cur =>
    simp only [step] at taken
    split at taken
    · cases taken
    · obtain ⟨_, ended, rfl⟩ := map_eq_ok taken
      refine .inl ⟨fun _ _ => Machine.endService_changes ended, fun queue => ?_⟩
      by_cases own : queue = cur
      · subst own
        simp only [setControl, update_self, true_or, and_self]
      · simp only [setControl, update_of_ne own, or_true, and_self]
  | serviceEvents cur when =>
    obtain ⟨idle, same⟩ := require_bind_eq_ok taken
    cases same
    exact .inr (.inr (.inl ⟨cur, when, rfl, idle, rfl⟩))
  | serviceEventsReturn cur =>
    simp only [step] at taken
    split at taken
    · rename_i when point
      obtain ⟨ended, same⟩ := require_bind_eq_ok taken
      cases same
      exact .inr (.inr (.inr (.inr ⟨cur, when, rfl, point, ended, rfl⟩)))
    · cases taken

end Changes

/-! ### Filing -/

section Filing

variable {Ptr : Type} [DecidableEq Ptr] {events : Ptr → Event} {waiting : QueueId → List Ptr}
  {this : QueueId} {event : Ptr} {value : Event}

/-- Every scheduled event is filed once, with the queue it is scheduled on, and no other event
is filed. -/
def Filed (events : Ptr → Event) (waiting : QueueId → List Ptr) : Prop :=
  ∀ this, (waiting this).Nodup ∧ ∀ event, event ∈ waiting this ↔
    (events event).scheduled = true ∧ (events event).queue = some this

omit [DecidableEq Ptr] in
theorem Filed.perm {other : QueueId → List Ptr} (filed : Filed events waiting)
    (same : ∀ this, (other this).Perm (waiting this)) : Filed events other := by
  intro this
  refine ⟨(same this).nodup_iff.mpr (filed this).1, fun event => ?_⟩
  rw [(same this).mem_iff]
  exact (filed this).2 event

omit [DecidableEq Ptr] in
theorem Filed.apart {other : QueueId} (filed : Filed events waiting)
    (inThis : event ∈ waiting this) (inOther : event ∈ waiting other) : this = other := by
  have first := (((filed this).2 event).mp inThis).2
  have second := (((filed other).2 event).mp inOther).2
  exact Option.some.inj (first.symm.trans second)

omit [DecidableEq Ptr] in
theorem Filed.absent (filed : Filed events waiting)
    (unscheduled : (events event).scheduled = false) (this : QueueId) : event ∉ waiting this := by
  intro inside
  rw [(((filed this).2 event).mp inside).1] at unscheduled
  cases unscheduled

section

variable (filed : Filed events waiting)
include filed

theorem Filed.arrive (unscheduled : (events event).scheduled = false)
    (scheduled : value.scheduled = true) (here : value.queue = some this) :
    Filed (update events event value)
      (update waiting this (event :: waiting this)) := by
  intro queue
  have absent := filed.absent unscheduled
  by_cases own : queue = this
  · subst own
    rw [update_self]
    refine ⟨nodup_cons.mpr ⟨absent queue, (filed queue).1⟩, fun other => ?_⟩
    by_cases equal : other = event
    · subst equal
      simp [scheduled, here]
    · rw [update_of_ne equal, mem_cons, (filed queue).2 other]
      simp only [equal, false_or]
  · rw [update_of_ne own]
    refine ⟨(filed queue).1, fun other => ?_⟩
    by_cases equal : other = event
    · subst equal
      simp only [absent queue, update_self, here, Option.some.injEq, false_iff, not_and]
      exact fun _ same => own same.symm
    · rw [update_of_ne equal, (filed queue).2 other]

theorem Filed.leave (inside : event ∈ waiting this) (unscheduled : value.scheduled = false) :
    Filed (update events event value)
      (update waiting this ((waiting this).erase event)) := by
  intro queue
  by_cases own : queue = this
  · subst own
    rw [update_self]
    refine ⟨(filed queue).1.erase event, fun other => ?_⟩
    rw [(filed queue).1.mem_erase_iff]
    by_cases equal : other = event
    · subst equal
      simp [unscheduled]
    · rw [update_of_ne equal, (filed queue).2 other]
      simp only [ne_eq, equal, not_false_eq_true, true_and]
  · rw [update_of_ne own]
    refine ⟨(filed queue).1, fun other => ?_⟩
    by_cases equal : other = event
    · subst equal
      have absent : other ∉ waiting queue := fun listed => own (filed.apart listed inside)
      simp [absent, unscheduled]
    · rw [update_of_ne equal, (filed queue).2 other]

theorem Filed.write (same : value.scheduled = (events event).scheduled)
    (sameQueue : value.queue = (events event).queue) :
    Filed (update events event value) waiting := by
  intro queue
  refine ⟨(filed queue).1, fun other => ?_⟩
  by_cases equal : other = event
  · subst equal
    rw [update_self, same, sameQueue, (filed queue).2 other]
  · rw [update_of_ne equal, (filed queue).2 other]

end

def OfScheduled (holds : Event → Prop) (events : Ptr → Event) : Prop :=
  ∀ event, (events event).scheduled = true → holds (events event)

theorem OfScheduled.update {holds : Event → Prop} (all : OfScheduled holds events)
    (written : value.scheduled = true → holds value) :
    OfScheduled holds (update events event value) := by
  intro other scheduled
  by_cases equal : other = event
  · subst equal
    rw [update_self] at scheduled ⊢
    exact written scheduled
  · rw [update_of_ne equal] at scheduled ⊢
    exact all other scheduled

end Filing

/-! ### Placement -/

section Placement

variable {Ptr : Type} [DecidableEq Ptr] {machine next : ListMachine Ptr} {this : QueueId}
  {arrives : Ptr → Prop}

instance (events : Ptr → Event) : IsTrans Ptr (keyLe events) :=
  ⟨fun _ _ _ first second => le_trans first second⟩

instance (events : Ptr → Event) : Std.Total (keyLe events) :=
  ⟨fun _ _ => le_total _ _⟩

/-- The events are filed in the lists and the asynchronous queues, the lists are sorted, and no
deleted event is scheduled. -/
structure Placed (machine : ListMachine Ptr) : Prop where
  filed : Filed machine.events fun this => machine.order this ++ machine.asyncQueue this
  sorted : ∀ this, (machine.order this).Pairwise (keyLe machine.events)
  initialized : OfScheduled (fun event => event.initialized = true) machine.events

omit [DecidableEq Ptr] in
theorem placed_empty {curTick : QueueId → Tick} {inParallelMode : Bool} {events : Ptr → Event}
    (unscheduled : ∀ event, (events event).scheduled = false) :
    Placed
      { events, order := fun _ => [], curTick, asyncQueue := fun _ => [], inParallelMode } := by
  refine ⟨fun queue => ⟨nodup_nil, fun event => ?_⟩, fun _ => List.Pairwise.nil,
    fun event scheduled => ?_⟩
  · simp [unscheduled event]
  · cases scheduled.symm.trans (unscheduled event)

omit [DecidableEq Ptr] in
theorem sorted_congr {events other : Ptr → Event} {list : List Ptr}
    (sorted : list.Pairwise (keyLe events))
    (same : ∀ event ∈ list, (other event).key = (events event).key) :
    list.Pairwise (keyLe other) := by
  refine sorted.imp_of_mem fun firstListed secondListed ordered => ?_
  rw [keyLe, same _ firstListed, same _ secondListed]
  exact ordered

theorem update_key {events : Ptr → Event} {event : Ptr} {value : Event} {list : List Ptr}
    (outside : event ∉ list) (other : Ptr) (listed : other ∈ list) :
    (update events event value other).key = (events other).key := by
  have different : other ≠ event := by
    rintro rfl
    exact outside listed
  rw [update_of_ne different]

omit [DecidableEq Ptr] in
theorem foldl_orderedInsert_perm (events : Ptr → Event) (added list : List Ptr) :
    (added.foldl (fun list event => list.orderedInsert (keyLe events) event) list).Perm
      (list ++ added) := by
  induction added generalizing list with
  | nil => rw [foldl_nil, append_nil]
  | cons event rest hypothesis =>
    rw [foldl_cons]
    refine (hypothesis _).trans ?_
    exact ((perm_orderedInsert _ event list).append_right rest).trans
      perm_middle.symm

omit [DecidableEq Ptr] in
theorem foldl_orderedInsert_sorted (events : Ptr → Event) (added list : List Ptr)
    (sorted : list.Pairwise (keyLe events)) :
    (added.foldl (fun list event => list.orderedInsert (keyLe events) event) list).Pairwise
      (keyLe events) := by
  induction added generalizing list with
  | nil => exact sorted
  | cons event _ hypothesis =>
    exact hypothesis _ (sorted.orderedInsert event list)

theorem Placed.change (placed : Placed machine) (change : Change this arrives machine next) :
    Placed next := by
  obtain ⟨filed, sorted, ready⟩ := placed
  cases change with
  | @insert event value _ unscheduled scheduled initialized here =>
    have absent := filed.absent unscheduled
    have outside (queue : QueueId) : event ∉ machine.order queue := fun listed =>
      absent queue (mem_append_left _ listed)
    have kept (queue : QueueId) :
        (machine.order queue).Pairwise (keyLe (update machine.events event value)) :=
      sorted_congr (sorted queue) (update_key (outside queue))
    refine ⟨(filed.arrive unscheduled scheduled here).perm fun queue => ?_, fun queue => ?_,
      ready.update fun _ => initialized⟩
    · by_cases own : queue = this
      · subst own
        simp only [Machine.insertList, update_self]
        exact (perm_orderedInsert _ event _).append_right _
      · simp only [Machine.insertList, update_of_ne own]
        exact .refl _
    · by_cases own : queue = this
      · subst own
        simp only [Machine.insertList, update_self]
        exact (kept queue).orderedInsert event _
      · simp only [Machine.insertList, update_of_ne own]
        exact kept queue
  | @asyncInsert event _ _ _ unscheduled scheduled initialized here =>
    have absent := filed.absent unscheduled
    refine ⟨(filed.arrive unscheduled scheduled here).perm fun queue => ?_, fun queue => ?_,
      ready.update fun _ => initialized⟩
    · by_cases own : queue = this
      · subst own
        simp only [Machine.asyncInsert, update_self]
        rw [← append_assoc]
        exact perm_append_singleton event _
      · simp only [Machine.asyncInsert, update_of_ne own]
        exact .refl _
    · exact sorted_congr (sorted queue) (update_key fun listed =>
        absent queue (mem_append_left _ listed))
  | @erase event flags listed unscheduled =>
    have left : Filed (update machine.events event { machine.events event with flags })
        _ := filed.leave (mem_append_left _ listed) unscheduled
    refine ⟨left.perm fun queue => ?_, fun queue => ?_, ready.update fun scheduled => ?_⟩
    · by_cases own : queue = this
      · subst own
        simp only [Machine.eraseList, Machine.setEvent, update_self]
        rw [erase_append_left _ listed]
      · simp only [Machine.eraseList, Machine.setEvent, update_of_ne own]
        exact .refl _
    · refine sorted_congr ((sorted queue).sublist (Machine.eraseList_sublist queue))
        fun other _ => ?_
      exact Machine.setEvent_key (by rfl) other
    · cases scheduled.symm.trans unscheduled
  | @write _ _ same initialized =>
    refine ⟨filed.write same rfl, fun queue => ?_, ready.update initialized⟩
    exact sorted_congr (sorted queue) fun other _ => Machine.setEvent_key (by rfl) other

omit [DecidableEq Ptr] in
theorem Placed.drainList (placed : Placed machine) (this : QueueId) :
    Placed (machine.drainList this) := by
  refine ⟨placed.filed.perm fun queue => ?_, fun queue => ?_, placed.initialized⟩
  · by_cases own : queue = this
    · subst own
      simp only [Machine.drainList, update_self, append_nil]
      exact foldl_orderedInsert_perm _ _ _
    · simp only [Machine.drainList, update_of_ne own]
      exact .refl _
  · by_cases own : queue = this
    · subst own
      simp only [Machine.drainList, update_self]
      exact foldl_orderedInsert_sorted _ _ _ (placed.sorted queue)
    · simp only [Machine.drainList, update_of_ne own]
      exact placed.sorted queue

theorem Placed.changes (placed : Placed machine) (changes : Changes this arrives machine next) :
    Placed next := by
  induction changes with
  | refl => exact placed
  | tail _ last hypothesis => exact hypothesis.change last

omit [DecidableEq Ptr] in
theorem Placed.setCurTick (placed : Placed machine) (this : QueueId) (newVal : Tick) :
    Placed (machine.setCurTick this newVal) :=
  { placed with }

theorem Placed.beginService {this : QueueId} {event : Ptr} {live : Bool} (placed : Placed machine)
    (done : machine.beginService (listPending Ptr) this = .ok (next, event, live)) :
    Placed next := by
  obtain ⟨_, changes, ⟨_, rfl⟩ | ⟨_, rfl⟩⟩ :=
    Machine.beginService_changes (fun _ => False) done
  · exact (placed.changes changes).setCurTick _ _
  · exact placed.changes changes

theorem Placed.step {system after : ListSystem Ptr} {action : Action Ptr}
    (placed : Placed system.machine) (taken : system.step (listPending Ptr) action = .ok after) :
    Placed after.machine := by
  rcases System.step_cases taken with ⟨changes, _⟩ | ⟨cur, _, rfl⟩ | ⟨cur, when, _, _, rfl⟩ |
    ⟨cur, event, machine, _, _, _, begun, rfl⟩ | ⟨cur, when, _, _, _, rfl⟩
  · obtain ⟨this, own⟩ := action.exists_on
    exact placed.changes (changes this own)
  · exact placed.drainList cur
  · exact placed
  · exact placed.beginService begun
  · exact placed.setCurTick _ _

end Placement

end Gem5.Sim
