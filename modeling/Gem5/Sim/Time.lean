/-
This file proves how time passes on one queue in serial mode. Whatever the
callbacks schedule, deschedule, reschedule or squash, no queued event is in the
past, the current tick never goes back, and an event is processed at its tick
unless it is squashed; a squashed event is dropped without a move of the tick.
-/

import Gem5.Sim.SerialQueue

namespace Gem5.Sim

open Base Library List Function Machine Event

section Lists

variable {Ptr : Type} [DecidableEq Ptr] {spec after : ListSystem Ptr}
  {machine next : ListMachine Ptr} {this : QueueId} {event : Ptr} {arrives : Ptr → Prop}

/-- Calls on one queue; `serviceEvents` is called with a tick that is not past. -/
def System.Forward {Order : Type} (this : QueueId) (system : System Ptr Order)
    (action : Action Ptr) : Prop :=
  action.on this ∧
    ∀ cur when, action = .serviceEvents cur when → system.machine.curTick cur ≤ when

/-- No scheduled event is in the past, and `serviceEvents` has not passed its tick. -/
structure Timely (this : QueueId) (spec : ListSystem Ptr) : Prop where
  due : OfScheduled (fun event => spec.machine.curTick this ≤ event.when) spec.machine.events
  serving : ∀ when ∈ (spec.control this).serving, spec.machine.curTick this ≤ when

theorem Change.due (change : Change this arrives machine next)
    (due : OfScheduled (fun event => machine.curTick this ≤ event.when) machine.events) :
    next.curTick = machine.curTick ∧
      OfScheduled (fun event => machine.curTick this ≤ event.when) next.events := by
  cases change with
  | @insert _ _ _ _ _ _ _ notPast =>
    exact ⟨rfl, due.update fun _ => notPast⟩
  | @asyncInsert _ _ _ _ _ _ _ _ notPast =>
    exact ⟨rfl, due.update fun _ => notPast⟩
  | @erase _ _ _ unscheduled =>
    refine ⟨rfl, due.update fun scheduled => ?_⟩
    cases scheduled.symm.trans unscheduled
  | @write event _ same =>
    exact ⟨rfl, due.update fun scheduled => due event (same.symm.trans scheduled)⟩

theorem Changes.due (changes : Changes this arrives machine next)
    (due : OfScheduled (fun event => machine.curTick this ≤ event.when) machine.events) :
    next.curTick = machine.curTick ∧
      OfScheduled (fun event => machine.curTick this ≤ event.when) next.events := by
  induction changes with
  | refl => exact ⟨rfl, due⟩
  | tail _ last hypothesis =>
    obtain ⟨same, due⟩ := hypothesis
    rw [← same] at due ⊢
    exact last.due due

omit [DecidableEq Ptr] in
theorem Alone.first_le {first : Ptr} {rest : List Ptr} (alone : Alone this machine)
    (placed : Placed machine) (list : machine.order this = first :: rest)
    (scheduled : (machine.events event).scheduled = true) :
    (machine.events first).when ≤ (machine.events event).when := by
  have sorted := placed.sorted this
  rw [list] at sorted
  have listed := (alone.listed_iff placed event).mpr scheduled
  rw [list] at listed
  rcases mem_cons.mp listed with rfl | later
  · exact le_rfl
  · exact when_le_of_key_le (rel_of_pairwise_cons sorted later)

theorem loops_eq {first : Ptr} {rest : List Ptr} (when : Tick)
    (list : spec.machine.order this = first :: rest) :
    spec.loops (listPending Ptr) this when = decide ((spec.machine.events first).when ≤ when) := by
  simp only [System.loops, Machine.nextTick, listPending, list, head?_cons, Option.map_some]

theorem Timely.step {action : Action Ptr} (timely : Timely this spec)
    (placed : Placed spec.machine) (alone : Alone this spec.machine)
    (forward : spec.Forward this action) (taken : spec.step (listPending Ptr) action = .ok after) :
    Timely this after ∧ spec.machine.curTick this ≤ after.machine.curTick this := by
  obtain ⟨own, notPast⟩ := forward
  rcases System.step_cases taken with ⟨changes, control⟩ | ⟨cur, _, rfl⟩ |
    ⟨cur, when, rfl, _, rfl⟩ |
    ⟨cur, event, machine, rfl, _, loops, begun, rfl⟩ | ⟨cur, when, rfl, control, loops, rfl⟩
  · obtain ⟨same, due⟩ := (changes this own).due timely.due
    rw [← same] at due
    refine ⟨⟨due, ?_⟩, le_of_eq (congrFun same this).symm⟩
    rw [(control this).1, same]
    exact timely.serving
  · exact ⟨⟨timely.due, timely.serving⟩, le_rfl⟩
  · cases own
    refine ⟨⟨timely.due, ?_⟩, le_rfl⟩
    simp only [System.setControl, update_self, Option.mem_def, Option.some.injEq]
    rintro _ rfl
    exact notPast _ _ rfl
  · cases own
    obtain ⟨⟨_, list⟩, ⟨_, _, rfl⟩ | ⟨_, squashed, _⟩⟩ := beginService_cases begun
    · have scheduled := (alone.listed_iff placed event).mp (list ▸ mem_cons_self)
      have due : OfScheduled (fun other => (spec.machine.events event).when ≤ other.when)
          spec.machine.events := fun other scheduled => alone.first_le placed list scheduled
      refine ⟨⟨?_, ?_⟩, ?_⟩
      · simp only [System.setControl, Machine.setCurTick, update_self]
        refine due.update fun scheduled => ?_
        cases scheduled.symm.trans (scheduled_clear _)
      · simp only [System.setControl, Machine.setCurTick, update_self]
        intro when serves
        have goesOn := loops when serves
        rw [loops_eq when list] at goesOn
        exact of_decide_eq_true goesOn
      · simp only [System.setControl, Machine.setCurTick, update_self]
        exact timely.due event scheduled
    · cases squashed
  · cases own
    refine ⟨⟨?_, ?_⟩, ?_⟩
    · simp only [System.setControl, Machine.setCurTick, update_self]
      intro event scheduled
      have listed := (alone.listed_iff placed event).mpr scheduled
      cases list : spec.machine.order this with
      | nil => simp [list] at listed
      | cons =>
        rw [loops_eq when list, decide_eq_false_iff_not, not_le] at loops
        exact loops.le.trans (alone.first_le placed list scheduled)
    · simp only [System.setControl, update_self, Option.mem_def]
      rintro _ ⟨⟩
    · simp only [System.setControl, Machine.setCurTick, update_self]
      exact timely.serving when (by rw [control]; rfl)

/-- What `serviceOne` has done with the first event of the queue. Unless it was squashed the
queue has moved to its tick and calls `process()`. A squashed event is dropped; it can be
scheduled again, or is deleted if it is `AutoDelete`. -/
structure Serviced {Order : Type} (pending : Pending Ptr Order) (this : QueueId) (event : Ptr)
    (system next : System Ptr Order) : Prop where
  processed : (system.machine.events event).squashed = false →
    (next.control this).running = some event ∧
      next.machine.curTick this = (system.machine.events event).when ∧
      (next.machine.events event).when = (system.machine.events event).when
  dropped : (system.machine.events event).squashed = true →
    next.control = system.control ∧ next.machine.curTick = system.machine.curTick ∧
      (next.machine.events event).scheduled = false
  reusable : (system.machine.events event).squashed = true →
    (system.machine.events event).autoDelete = false → ∀ cur when global,
      next.machine.curTick this ≤ when →
        ∃ after, next.machine.schedule pending cur this event when global = .ok after
  deleted : (system.machine.events event).squashed = true →
    (system.machine.events event).autoDelete = true →
      (next.machine.events event).initialized = false

theorem Machine.schedule_ok {cur : QueueId} {when : Tick} {global : Bool}
    (notPast : machine.curTick this ≤ when) (unscheduled : (machine.events event).scheduled = false)
    (initialized : (machine.events event).initialized = true) :
    ∃ after, machine.schedule (listPending Ptr) cur this event when global = .ok after := by
  simp only [schedule, require, notPast, unscheduled, initialized, if_true, insert_eq]
  split
  · exact ⟨_, rfl⟩
  · exact ⟨_, rfl⟩

theorem serviced_of_step {rest : List Ptr} (placed : Placed spec.machine)
    (alone : Alone this spec.machine) (list : spec.machine.order this = event :: rest)
    (taken : spec.step (listPending Ptr) (.serviceOne this) = .ok after) :
    Serviced (listPending Ptr) this event spec after := by
  have initialized := placed.initialized event
    ((alone.listed_iff placed event).mp (list ▸ mem_cons_self))
  obtain ⟨_, taken⟩ := require_bind_eq_ok taken
  obtain ⟨_, taken⟩ := require_bind_eq_ok taken
  obtain ⟨⟨_, _, live⟩, begun, taken⟩ := bind_eq_ok taken
  obtain ⟨⟨_, sameList⟩, ⟨unsquashed, rfl, rfl⟩ | ⟨squashed, rfl, rfl⟩⟩ :=
    beginService_cases begun
  · cases list.symm.trans sameList
    cases taken
    refine ⟨fun _ => ⟨?_, ?_, ?_⟩, ?_, ?_, ?_⟩
    · simp only [System.setControl, update_self]
    · simp only [System.setControl, Machine.setCurTick, update_self]
    · simp only [System.setControl, Machine.setCurTick, setEvent_events, clearFlags]
    all_goals
      intro squashed
      cases squashed.symm.trans unsquashed
  · cases list.symm.trans sameList
    obtain ⟨_, done, rfl⟩ := map_eq_ok taken
    have cleared : (((spec.machine.events event).clearFlags EventFlag.scheduled).clearFlags
        EventFlag.squashed).scheduled = false := by simp
    have ends := reap_cases done
    simp only [setEvent_events, cleared, autoDelete_clear_squashed,
      autoDelete_clear_scheduled, and_true, true_and] at ends
    have unsquashed {claim : Prop} (live : (spec.machine.events event).squashed = false) :
        claim := by cases live.symm.trans squashed
    rcases ends with ⟨autoDelete, rfl⟩ | ⟨kept, rfl⟩
    · refine ⟨fun live => unsquashed live, fun _ => ⟨rfl, rfl, ?_⟩, fun _ kept => ?_, fun _ _ => ?_⟩
      · rw [setEvent_events]
        exact scheduled_zero _
      · cases kept.symm.trans autoDelete
      · rw [setEvent_events]
        exact initialized_zero _
    · refine ⟨fun live => unsquashed live, fun _ => ⟨rfl, rfl, ?_⟩,
        fun _ _ cur when global notPast => ?_, fun _ autoDelete => absurd autoDelete kept⟩
      · rw [setEvent_events]
        exact cleared
      · refine schedule_ok notPast ?_ ?_
        · rw [setEvent_events]
          exact cleared
        · rw [setEvent_events, initialized_clear_squashed,
            initialized_clear_scheduled]
          exact initialized

theorem running_of_step {action : Action Ptr} (own : action.on this)
    (taken : spec.step (listPending Ptr) action = .ok after)
    (runs : (after.control this).running = some event) :
    (spec.control this).running = some event ∨ (action = .serviceOne this ∧
      (spec.machine.order this).head? = some event ∧
      (spec.machine.events event).squashed = false) := by
  rcases System.step_cases taken with ⟨_, control⟩ | ⟨cur, _, rfl⟩ |
    ⟨cur, when, rfl, _, rfl⟩ |
    ⟨cur, first, machine, rfl, _, _, begun, rfl⟩ | ⟨cur, when, rfl, _, _, rfl⟩
  · rcases (control this).2 with none | same
    · cases none.symm.trans runs
    · exact .inl (same ▸ runs)
  · exact .inl runs
  · cases own
    simp only [System.setControl, update_self] at runs
    cases runs
  · cases own
    simp only [System.setControl, update_self] at runs
    cases runs
    obtain ⟨⟨_, list⟩, ⟨unsquashed, _⟩ | ⟨_, live, _⟩⟩ := beginService_cases begun
    · exact .inr ⟨rfl, by rw [list, head?_cons], unsquashed⟩
    · cases live
  · cases own
    simp only [System.setControl, update_self] at runs
    cases runs

end Lists

/-! ### The linked queue -/

section Linked

variable {Ptr : Type} [DecidableEq Ptr] [Fintype Ptr] {this : QueueId}
  {code codeNext : System Ptr (Links Ptr)} {spec specNext : ListSystem Ptr}

omit [DecidableEq Ptr] [Fintype Ptr] in
theorem Tracks.forward {action : Action Ptr} (tracks : Tracks this code spec)
    (forward : code.Forward this action) : spec.Forward this action := by
  obtain ⟨_, _, same, _⟩ := tracks.refines
  rw [System.Forward, same] at forward
  exact forward

omit [DecidableEq Ptr] [Fintype Ptr] in
theorem Tracks.head_eq (tracks : Tracks this code spec) :
    code.machine.order.head this = (spec.machine.order this).head? := by
  obtain ⟨_, _, same, ordered⟩ := tracks.refines
  rw [same]
  exact (ordered this).head_eq

theorem Serviced.of_tracks {event : Ptr}
    (serviced : Serviced (listPending Ptr) this event spec specNext)
    (tracks : Tracks this code spec) (tracksNext : Tracks this codeNext specNext) :
    Serviced (linkedPending Ptr) this event code codeNext := by
  have agree (cur : QueueId) (when : Tick) (global : Bool) :
      Agree Refines (codeNext.machine.schedule (linkedPending Ptr) cur this event when global)
        (specNext.machine.schedule (listPending Ptr) cur this event when global) :=
    tracksNext.refines.machine.schedule tracksNext.placed
  obtain ⟨⟨control, _, same, _⟩, _⟩ := tracks
  obtain ⟨⟨controlNext, _, sameNext, _⟩, _⟩ := tracksNext
  obtain ⟨processed, dropped, reusable, deleted⟩ := serviced
  rw [← control, ← controlNext] at dropped
  rw [← controlNext] at processed
  refine ⟨?_, ?_, fun squashed kept cur when global notPast => ?_, ?_⟩
  · rw [same, sameNext]
    exact processed
  · rw [same, sameNext]
    exact dropped
  · rw [same] at squashed kept
    rw [sameNext] at notPast
    obtain ⟨_, done⟩ := reusable squashed kept cur when global notPast
    obtain ⟨left, done, _⟩ := (agree cur when global).ok_right done
    exact ⟨left, done⟩
  · rw [same, sameNext]
    exact deleted

theorem reached_timely {events : Ptr → Event}
    (unscheduled : ∀ event, (events event).scheduled = false) {curTick : QueueId → Tick}
    {nextBin nextInBin : Ptr → Option Ptr} {actions : List (Action Ptr)}
    {system : System Ptr (Links Ptr)}
    (run : Run (System.step (linkedPending Ptr)) (System.Forward this)
      (System.initial events { head := fun _ => none, nextBin, nextInBin } curTick)
      actions system) :
    ∃ spec, Tracks this system spec ∧ Timely this spec := by
  refine run.invariant (fun code => ∃ spec, Tracks this code spec ∧ Timely this spec) ?_ ?_
  · rintro _ _ _ ⟨_, tracks, timely⟩ forward taken
    obtain ⟨specNext, specTaken, tracksNext⟩ := (tracks.step forward.1).ok_left taken
    exact ⟨specNext, tracksNext, (timely.step tracks.placed tracks.alone
      (tracks.forward forward) specTaken).1⟩
  · refine ⟨_, tracks_initial this unscheduled nextBin nextInBin, fun event scheduled => ?_, ?_⟩
    · cases scheduled.symm.trans (unscheduled event)
    · rintro when ⟨⟩

/-- In every run on one queue in serial mode, with arbitrary callbacks and with `serviceEvents`
called for ticks that are not past: no queued event is before the current tick; no step moves
the tick back; `process()` is entered only for the first event, if it is not squashed, and at
its tick; and a squashed event is dropped at the same tick and can be scheduled again, unless it
is `AutoDelete`, when it is deleted. -/
theorem serial_run_keeps_time (events : Ptr → Event)
    (unscheduled : ∀ event, (events event).scheduled = false) (curTick : QueueId → Tick)
    (nextBin nextInBin : Ptr → Option Ptr) (actions : List (Action Ptr))
    (system : System Ptr (Links Ptr))
    (run : Run (System.step (linkedPending Ptr)) (System.Forward this)
      (System.initial events { head := fun _ => none, nextBin, nextInBin } curTick)
      actions system) :
    (∃ list, Denotes system.machine.events system.machine.order this list ∧
        ∀ event ∈ list, system.machine.curTick this ≤ (system.machine.events event).when) ∧
      ∀ action next, system.Forward this action →
        system.step (linkedPending Ptr) action = .ok next →
        system.machine.curTick this ≤ next.machine.curTick this ∧
          (∀ event, (next.control this).running = some event →
            (system.control this).running = some event ∨ (action = .serviceOne this ∧
              system.machine.order.head this = some event ∧
              (system.machine.events event).squashed = false)) ∧
          (action = .serviceOne this → ∀ event, system.machine.order.head this = some event →
            Serviced (linkedPending Ptr) this event system next) := by
  obtain ⟨spec, tracks, timely⟩ := reached_timely unscheduled run
  obtain ⟨control, _, same, ordered⟩ := tracks.refines
  have listed := tracks.alone.listed_iff tracks.placed
  refine ⟨⟨spec.machine.order this, ?_, ?_⟩, ?_⟩
  · rw [same]
    exact ordered this
  · rw [same]
    exact fun event inside => timely.due event ((listed event).mp inside)
  · intro action next forward taken
    obtain ⟨_, specTaken, tracksNext⟩ := (tracks.step forward.1).ok_left taken
    obtain ⟨controlNext, _, sameNext, _⟩ := tracksNext.refines
    refine ⟨?_, fun event runs => ?_, ?_⟩
    · rw [same, sameNext]
      exact (timely.step tracks.placed tracks.alone (tracks.forward forward) specTaken).2
    · rw [tracks.head_eq, control, same]
      exact running_of_step forward.1 specTaken (controlNext ▸ runs)
    · rintro rfl event first
      rw [tracks.head_eq] at first
      obtain ⟨_, list⟩ := head?_eq_some_iff.mp first
      exact (serviced_of_step tracks.placed tracks.alone list specTaken).of_tracks tracks
        tracksNext

end Linked

/-- Two events of one tick, the second on top of the first; the second is squashed and then
dropped at tick zero. -/
theorem serial_run_keeps_time_squash : ∃ system next : System (Fin 2) (Links (Fin 2)),
    Run (System.step (linkedPending (Fin 2))) (System.Forward 0)
      (System.initial (fun _ => .create 0 0) Links.empty fun _ => 0)
      [.schedule 0 0 0 5 false, .schedule 0 0 1 5 false, .squash 1] system ∧
    system.step (linkedPending (Fin 2)) (.serviceOne 0) = .ok next ∧
    (system.machine.events 1).squashed = true ∧
    Serviced (linkedPending (Fin 2)) 0 1 system next := by
  have run : Run (System.step (linkedPending (Fin 2))) (System.Forward 0)
      (System.initial (fun _ => .create 0 0) Links.empty fun _ => 0)
      [.schedule 0 0 0 5 false, .schedule 0 0 1 5 false, .squash 1] _ :=
    .cons ⟨rfl, by simp⟩ rfl (.cons ⟨rfl, by simp⟩ rfl (.cons ⟨trivial, by simp⟩ rfl (.nil _)))
  exact ⟨_, _, run, rfl, rfl, ((serial_run_keeps_time (fun _ => .create 0 0) (by decide)
    (fun _ => 0) (fun _ => none) (fun _ => none) _ _ run).2 (.serviceOne 0) _ ⟨rfl, by simp⟩
    rfl).2.2 rfl 1 rfl⟩

/-- A squashed `AutoDelete` event is deleted when it is dropped, so it cannot be scheduled
again. -/
theorem squashed_autoDelete_not_schedulable : ∃ system next : System (Fin 1) (Links (Fin 1)),
    Run (System.step (linkedPending (Fin 1))) (System.Forward 0)
      (System.initial (fun _ => .create 0 EventFlag.autoDelete) Links.empty fun _ => 0)
      [.schedule 0 0 0 5 false, .squash 0] system ∧
    system.machine.order.head 0 = some 0 ∧ (system.machine.events 0).squashed = true ∧
    system.step (linkedPending (Fin 1)) (.serviceOne 0) = .ok next ∧
    next.machine.schedule (linkedPending (Fin 1)) 0 0 0 5 false = .error .assertion :=
  ⟨_, _, .cons ⟨rfl, by simp⟩ rfl (.cons ⟨trivial, by simp⟩ rfl (.nil _)), rfl, rfl, rfl, rfl⟩

end Gem5.Sim
