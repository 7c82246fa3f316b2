/-
This file models checkpoints of an event queue (`Event::serialize`, `EventQueue::serialize` and
`EventQueue::unserialize` of `sim/eventq.cc`, `Serializable::create` of `sim/serialize.cc`). The
dump lists the events in the order they are serviced. The restore makes an object of each of
them and calls the `unserialize` that has no queue, which schedules nothing. The restored queue
is therefore empty, and it is serviced as the original one exactly when all events of that one
are squashed and can be made again.
-/

import Gem5.Sim.Globals
import Gem5.Sim.Time
import Mathlib.Data.List.Pairwise

namespace Gem5.Sim

open Base Library List Function Machine

/-- The parameters of an event in a checkpoint, with the type that its class writes, if any;
`_flags` is written as a `short`. -/
structure EventRecord where
  type : Option Globals.TypeName
  when : Tick
  priority : Priority
  flags : Int
  deriving DecidableEq

/-- `Event::serialize`. -/
def Event.serialize (class_ : Globals.EventClass) (event : Event) : EventRecord where
  type := class_.type
  when := event.when
  priority := event.priority
  flags := event.flags.toInt

/-- The sections of a checkpoint: that of the queue, with the names of its events, and those of
the events. An event is named by its pointer. -/
structure Checkpoint (Ptr : Type) where
  numEvents : Nat
  eventName : Nat → Option Ptr
  eventSection : Ptr → Option EventRecord

section Code

variable {Ptr : Type}

/-- The inner loop of `EventQueue::serialize`, down a bin. -/
def Links.collectBin (events : Ptr → Event) (links : Links Ptr) :
    Nat → Option Ptr → Except Fault (List Ptr)
  | 0, _ => .error .endless
  | _ + 1, none => .ok []
  | fuel + 1, some nextInBin => do
    let rest ← collectBin events links fuel (links.nextInBin nextInBin)
    return if (events nextInBin).autoSerialize = true then nextInBin :: rest else rest

variable [DecidableEq Ptr] [Fintype Ptr]

omit [DecidableEq Ptr] in
/-- The outer loop of `EventQueue::serialize`, from bin to bin. -/
def Links.collect (events : Ptr → Event) (links : Links Ptr) :
    Nat → Option Ptr → Except Fault (List Ptr)
  | 0, _ => .error .endless
  | _ + 1, none => .ok []
  | fuel + 1, some nextBin => do
    let bin ← collectBin events links (walkFuel Ptr) (some nextBin)
    return bin ++ (← collect events links fuel (links.nextBin nextBin))

/-- `EventQueue::serialize`. -/
def Machine.serialize (this : QueueId) (classes : Ptr → Globals.EventClass)
    (machine : Machine Ptr (Links Ptr)) : Except Fault (Checkpoint Ptr) := do
  let eventPtrs ← machine.order.collect machine.events (walkFuel Ptr) (machine.order.head this)
  return {
    numEvents := eventPtrs.length
    eventName := fun index => eventPtrs[index]?
    eventSection := fun event =>
      if event ∈ eventPtrs then some ((machine.events event).serialize (classes event)) else none }

omit [DecidableEq Ptr] [Fintype Ptr] in
/-- `Serializable::create` for an entry of the queue's section: the class of the object that is
made. A section without a type is a fatal error, and so is a type that is not registered. -/
def Checkpoint.create (cp : Checkpoint Ptr) (index : Nat) : Except Fault Globals.EventClass :=
  let record := (cp.eventName index).bind cp.eventSection
  match (record.bind EventRecord.type).bind Globals.classMap with
  | some class_ => .ok class_
  | none => .error .unserialize

omit [Fintype Ptr]

variable {Order : Type} (pending : Pending Ptr Order)

omit [DecidableEq Ptr] in
/-- `EventQueue::unserialize`. -/
def Machine.unserialize (cp : Checkpoint Ptr) (machine : Machine Ptr Order) :
    Except Fault (Machine Ptr Order) :=
  (range cp.numEvents).foldlM (fun machine index => do
    let _ ← cp.create index
    -- `Event::unserialize(cp, section)` has an empty body.
    return machine) machine

/-- The events that repeated calls of `serviceOne` process until the queue is empty, when the
callbacks do nothing to it. -/
def Machine.serviceOrder (this : QueueId) :
    Nat → Machine Ptr Order → Except Fault (List Ptr)
  | 0, _ => .error .endless
  | fuel + 1, machine =>
    match pending.front machine.order this with
    | none => .ok []
    | some _ => do
      let (machine, event, live) ← machine.beginService pending this
      let rest ← serviceOrder this fuel machine
      return if live = true then event :: rest else rest

end Code

/-! ### The dump -/

section Dump

variable {Ptr : Type} {events : Ptr → Event} {links : Links Ptr}

theorem collectBin_spec {column : List Ptr} {start : Option Ptr} {fuel : Nat}
    (segment : Segment links.nextInBin start column none) (enough : column.length < fuel) :
    links.collectBin events fuel start =
      .ok (column.filter fun event => (events event).autoSerialize) := by
  induction column generalizing start fuel with
  | nil =>
    obtain ⟨_, rfl⟩ := Nat.exists_eq_succ_of_ne_zero (ne_of_gt enough)
    have ends : start = none := segment
    subst ends
    rfl
  | cons _ _ hypothesis =>
    obtain ⟨_, rfl⟩ := Nat.exists_eq_succ_of_ne_zero (ne_of_gt (Nat.zero_lt_of_lt enough))
    obtain ⟨begins, continued⟩ := segment
    subst begins
    rw [Links.collectBin, hypothesis continued (Nat.lt_of_succ_lt_succ enough),
      filter_cons]
    rfl

variable [DecidableEq Ptr] [Fintype Ptr]

omit [DecidableEq Ptr] in
theorem collect_spec {bins : List (Bin Ptr)} {start : Option Ptr} {fuel : Nat}
    (linked : Linked links start bins) (nodup : (members bins).Nodup)
    (enough : bins.length < fuel) :
    links.collect events fuel start =
      .ok ((members bins).filter fun event => (events event).autoSerialize) := by
  induction bins generalizing start fuel with
  | nil =>
    obtain ⟨_, rfl⟩ := Nat.exists_eq_succ_of_ne_zero (ne_of_gt enough)
    have ends : start = none := linked.spine
    subst ends
    rfl
  | cons bin rest hypothesis =>
    obtain ⟨_, rfl⟩ := Nat.exists_eq_succ_of_ne_zero (ne_of_gt (Nat.zero_lt_of_lt enough))
    obtain ⟨begins, continued⟩ := linked.spine
    subst begins
    rw [members_cons] at nodup ⊢
    have column : Segment links.nextInBin (some bin.1) (bin.1 :: bin.2) none :=
      ⟨rfl, linked.columns bin mem_cons_self⟩
    have short : (bin.1 :: bin.2).length < walkFuel Ptr :=
      Nat.lt_succ_of_le (nodup_append.mp nodup).1.length_le_card
    have others : Linked links (links.nextBin bin.1) rest :=
      ⟨continued, fun other listed => linked.columns other (mem_cons_of_mem _ listed)⟩
    rw [Links.collect, collectBin_spec column short, filter_append]
    have walked := hypothesis others (nodup_append.mp nodup).2.1
      (Nat.lt_of_succ_lt_succ enough)
    simp only [walked]
    rfl

def Checkpoint.ofList (classes : Ptr → Globals.EventClass) (events : Ptr → Event)
    (list : List Ptr) : Checkpoint Ptr where
  numEvents := list.length
  eventName index := list[index]?
  eventSection event :=
    if event ∈ list then some ((events event).serialize (classes event)) else none

/-- An event whose class can be found from the type that is written. -/
def Globals.EventClass.Creatable (class_ : Globals.EventClass) : Prop :=
  (class_.type.bind Globals.classMap).isSome = true
deriving Decidable

omit [Fintype Ptr] in
theorem create_ofList {classes : Ptr → Globals.EventClass} {list : List Ptr} {index : Nat}
    {event : Ptr} (found : list[index]? = some event) :
    (∃ class_, (Checkpoint.ofList classes events list).create index = .ok class_) ↔
      (classes event).Creatable := by
  have listed : event ∈ list := mem_of_getElem? found
  simp only [Checkpoint.create, Checkpoint.ofList, found, Option.bind_some, listed, if_true,
    Event.serialize, Globals.EventClass.Creatable]
  cases (classes event).type.bind Globals.classMap with
  | none => simp
  | some class_ => simp

omit [Fintype Ptr] in
/-- The restore changes nothing, and stops at an event that it cannot make. -/
theorem unserialize_eq_ok_iff {Order : Type} {classes : Ptr → Globals.EventClass}
    {list : List Ptr} {machine restored : Machine Ptr Order} :
    machine.unserialize (Checkpoint.ofList classes events list) = .ok restored ↔
      (∀ event ∈ list, (classes event).Creatable) ∧ restored = machine := by
  have made (indices : List Nat) :
      indices.foldlM (fun machine index => do
        let _ ← (Checkpoint.ofList classes events list).create index
        return machine) machine = .ok restored ↔
      (∀ index ∈ indices, ∃ class_,
        (Checkpoint.ofList classes events list).create index = .ok class_) ∧
          restored = machine := by
    induction indices with
    | nil => simp [eq_comm, pure, Except.pure]
    | cons index rest hypothesis =>
      rw [foldlM_cons, forall_mem_cons]
      cases created : (Checkpoint.ofList classes events list).create index with
      | error => simp [bind, Except.bind]
      | ok class_ => simpa [bind, Except.bind, pure, Except.pure] using hypothesis
  refine (made _).trans (and_congr_left' ⟨fun all event listed => ?_, fun all index inside => ?_⟩)
  · obtain ⟨index, found⟩ := mem_iff_getElem?.mp listed
    have bound := (List.getElem?_eq_some_iff.mp found).1
    exact (create_ofList found).mp (all index (mem_range.mpr bound))
  · have found := getElem?_eq_getElem (mem_range.mp inside)
    exact (create_ofList found).mpr (all _ (getElem_mem _))

end Dump

/-! ### The order of service -/

section Order

variable {Ptr : Type} [DecidableEq Ptr] {this : QueueId} {spec : ListMachine Ptr}

theorem beginService_first {event : Ptr} {rest : List Ptr}
    (list : spec.order this = event :: rest) :
    ∃ next, spec.beginService (listPending Ptr) this =
        .ok (next, event, !(spec.events event).squashed) ∧
      next.order this = rest ∧ ∀ other, other ≠ event → next.events other = spec.events other := by
  have returns : ∃ result, spec.beginService (listPending Ptr) this = .ok result := by
    unfold Machine.beginService
    simp only [listPending, list, head?_cons]
    split
    · exact ⟨_, rfl⟩
    · exact ⟨_, rfl⟩
  obtain ⟨⟨next, first, live⟩, done⟩ := returns
  obtain ⟨⟨_, sameList⟩, ends⟩ := beginService_cases done
  cases list.symm.trans sameList
  have erased : (spec.eraseList this event).order this = rest := by
    simp only [Machine.eraseList, update_self, list, erase_cons_head]
  rcases ends with ⟨unsquashed, rfl, same⟩ | ⟨squashed, rfl, same⟩
  · refine ⟨next, by rw [unsquashed]; exact done, ?_, fun other different => ?_⟩
    · rw [same]
      exact erased
    · rw [same]
      exact setEvent_events_of_ne different _
  · refine ⟨next, by rw [squashed]; exact done, ?_, fun other different => ?_⟩
    · rw [same]
      exact erased
    · rw [same]
      exact setEvent_events_of_ne different _

theorem serviceOrder_list {fuel : Nat} {list : List Ptr} (same : spec.order this = list)
    (nodup : list.Nodup) (enough : list.length < fuel) :
    spec.serviceOrder (listPending Ptr) this fuel =
      .ok (list.filter fun event => !(spec.events event).squashed) := by
  induction list generalizing spec fuel with
  | nil =>
    obtain ⟨_, rfl⟩ := Nat.exists_eq_succ_of_ne_zero (ne_of_gt enough)
    simp only [Machine.serviceOrder, listPending, same, head?_nil, filter_nil]
  | cons event rest hypothesis =>
    obtain ⟨fuel, rfl⟩ := Nat.exists_eq_succ_of_ne_zero (ne_of_gt (Nat.zero_lt_of_lt enough))
    obtain ⟨fresh, restNodup⟩ := nodup_cons.mp nodup
    obtain ⟨next, begun, order, others⟩ := beginService_first same
    have front : (listPending Ptr).front spec.order this = some event := by
      simp only [listPending, same, head?_cons]
    have kept : (rest.filter fun event => !(next.events event).squashed) =
        rest.filter fun event => !(spec.events event).squashed := by
      refine filter_congr fun other inside => ?_
      rw [others other fun equal => fresh (equal ▸ inside)]
    have continued := hypothesis order restNodup (Nat.lt_of_succ_lt_succ enough)
    rw [kept] at continued
    simp only [Machine.serviceOrder, front, begun, filter_cons]
    show (do
      let rest ← next.serviceOrder (listPending Ptr) this fuel
      pure (if (!(spec.events event).squashed) = true then event :: rest else rest)) = _
    rw [continued]
    rfl

theorem serviceOrder_agree [Fintype Ptr] {code : Machine Ptr (Links Ptr)}
    (refines : Refines code spec) (placed : Placed spec) (fuel : Nat) :
    Agree Eq (code.serviceOrder (linkedPending Ptr) this fuel)
      (spec.serviceOrder (listPending Ptr) this fuel) := by
  induction fuel generalizing code spec with
  | zero => rfl
  | succ _ hypothesis =>
    have front : (linkedPending Ptr).front code.order this =
        (listPending Ptr).front spec.order this := by
      obtain ⟨_, rfl, ordered⟩ := refines
      exact (ordered this).head_eq
    simp only [Machine.serviceOrder, front]
    cases (listPending Ptr).front spec.order this with
    | none => rfl
    | some =>
      have begun : Agree (fun code spec => (Refines code.1 spec.1 ∧ code.2 = spec.2) ∧
            Placed spec.1)
          (code.beginService (linkedPending Ptr) this)
          (spec.beginService (listPending Ptr) this) :=
        (refines.beginService placed).and_right fun _ done => placed.beginService done
      refine begun.bind ?_
      rintro ⟨codeNext, first, live⟩ ⟨specNext, _⟩ ⟨⟨refinesNext, same⟩, placedNext⟩
      cases same
      refine (hypothesis refinesNext placedNext).bind ?_
      rintro rest _ rfl
      rfl

theorem serviceOrder_linked [Fintype Ptr] {code : Machine Ptr (Links Ptr)}
    (refines : Refines code spec) (placed : Placed spec) :
    code.serviceOrder (linkedPending Ptr) this (walkFuel Ptr) =
      .ok ((spec.order this).filter fun event => !(spec.events event).squashed) := by
  have nodup := (nodup_append.mp (placed.filed this).1).1
  rw [(serviceOrder_agree refines placed _).eq]
  exact serviceOrder_list rfl nodup (Nat.lt_succ_of_le nodup.length_le_card)

end Order

/-! ### The restored queue -/

section Restore

variable {Ptr : Type} [DecidableEq Ptr] [Fintype Ptr] {this : QueueId}

/-- A queue reached by any run in serial mode is serialized and restored, into an empty queue at
the same tick. It is then serviced in the order of the original queue exactly when every event
of that queue is squashed and can be made again. -/
theorem checkpoint_keeps_order_iff (events : Ptr → Event)
    (unscheduled : ∀ event, (events event).scheduled = false) (curTick : QueueId → Tick)
    (nextBin nextInBin : Ptr → Option Ptr) (actions : List (Action Ptr))
    (system : System Ptr (Links Ptr))
    (run : Run (System.step (linkedPending Ptr)) (System.Forward this)
      (System.initial events { head := fun _ => none, nextBin, nextInBin } curTick)
      actions system)
    (autoSerialize : ∀ event, (system.machine.events event).scheduled = true →
      (system.machine.events event).autoSerialize = true)
    (classes : Ptr → Globals.EventClass) (constructed : Ptr → Event) :
    ∃ cp order, system.machine.serialize this classes = .ok cp ∧
      system.machine.serviceOrder (linkedPending Ptr) this (walkFuel Ptr) = .ok order ∧
      ((∃ restored, (System.initial constructed Links.empty
            system.machine.curTick).machine.unserialize cp = .ok restored ∧
          restored.serviceOrder (linkedPending Ptr) this (walkFuel Ptr) = .ok order) ↔
        ∀ event, (system.machine.events event).scheduled = true →
          (system.machine.events event).squashed = true ∧ (classes event).Creatable) := by
  obtain ⟨spec, tracks, _⟩ := reached_timely unscheduled run
  obtain ⟨⟨_, refines⟩, placed, alone⟩ := tracks
  have listed := alone.listed_iff placed
  obtain ⟨_, same, ordered⟩ := id refines
  have sameEvents : system.machine.events = spec.machine.events := by rw [same]; rfl
  have all : (spec.machine.order this).filter
      (fun event => (spec.machine.events event).autoSerialize) = spec.machine.order this :=
    filter_eq_self.mpr fun event inside => by
      rw [← sameEvents]
      exact autoSerialize event (sameEvents ▸ (listed event).mp inside)
  have dump : system.machine.serialize this classes =
      .ok (Checkpoint.ofList classes spec.machine.events (spec.machine.order this)) := by
    -- The dump lists the `AutoSerialize` events in the order they are serviced.
    obtain ⟨_, linked, layered, list⟩ := ordered this
    rw [same, Machine.serialize]
    dsimp only [withLinks]
    rw [collect_spec linked layered.nodup layered.length_lt, list]
    exact congrArg (fun list => Except.ok (Checkpoint.ofList classes spec.machine.events list)) all
  refine ⟨_, _, dump, serviceOrder_linked refines placed, ?_⟩
  simp only [unserialize_eq_ok_iff, sameEvents, and_assoc, exists_and_left, exists_eq_left]
  have empty : (System.initial constructed Links.empty
      system.machine.curTick).machine.serviceOrder (linkedPending Ptr) this (walkFuel Ptr) =
        .ok [] := rfl
  rw [empty, Except.ok.injEq, eq_comm, filter_eq_nil_iff, ← forall₂_and]
  refine forall_congr' fun event => ?_
  rw [listed]
  simp [and_comm]

end Restore

/-- An event that is squashed before the checkpoint: neither queue services it. -/
theorem checkpoint_keeps_order_iff_squashed :
    ∃ (system : System (Fin 1) (Links (Fin 1))) (cp : Checkpoint (Fin 1))
      (restored : Machine (Fin 1) (Links (Fin 1))) (order : List (Fin 1)),
    Run (System.step (linkedPending (Fin 1))) (System.Forward 0)
      (System.initial (fun _ => .create 0 EventFlag.autoSerialize) Links.empty fun _ => 0)
      [.schedule 0 0 0 7 false, .squash 0] system ∧
    system.machine.serialize 0 (fun _ => .linkDelayEvent) = .ok cp ∧ cp.numEvents = 1 ∧
    (System.initial (fun _ => .create 0 0) Links.empty system.machine.curTick).machine.unserialize
      cp = .ok restored ∧
    system.machine.serviceOrder (linkedPending (Fin 1)) 0 2 = .ok order ∧
    restored.serviceOrder (linkedPending (Fin 1)) 0 2 = .ok order := by
  have run : Run (System.step (linkedPending (Fin 1))) (System.Forward 0)
      (System.initial (fun _ => .create 0 EventFlag.autoSerialize) Links.empty fun _ => 0)
      [.schedule 0 0 0 7 false, .squash 0] _ :=
    .cons ⟨rfl, by simp⟩ rfl (.cons ⟨trivial, by simp⟩ rfl (.nil _))
  obtain ⟨cp, order, dump, first, same⟩ := checkpoint_keeps_order_iff _
    (by decide) _ _ _ _ _ run (by decide) (fun _ => .linkDelayEvent) (fun _ => .create 0 0)
  obtain ⟨restored, done, second⟩ := same.mpr (by decide)
  have one : cp.numEvents = 1 := by
    cases dump
    rfl
  exact ⟨_, cp, restored, order, run, dump, one, done, first, second⟩

/-- The restored queue does not service the event of the original one. -/
theorem checkpoint_loses_event :
    ∃ (system : System (Fin 1) (Links (Fin 1))) (cp : Checkpoint (Fin 1))
      (restored : Machine (Fin 1) (Links (Fin 1))),
    Run (System.step (linkedPending (Fin 1))) (System.Forward 0)
      (System.initial (fun _ => .create 0 EventFlag.autoSerialize) Links.empty fun _ => 0)
      [.schedule 0 0 0 5 false] system ∧
    system.machine.serialize 0 (fun _ => .linkDelayEvent) = .ok cp ∧
    (System.initial (fun _ => .create 0 0) Links.empty system.machine.curTick).machine.unserialize
      cp = .ok restored ∧
    system.machine.serviceOrder (linkedPending (Fin 1)) 0 2 = .ok [0] ∧
    restored.serviceOrder (linkedPending (Fin 1)) 0 2 = .ok [] :=
  ⟨_, _, _, .cons ⟨rfl, by simp⟩ rfl (.nil _), rfl, rfl, rfl, rfl⟩

end Gem5.Sim
