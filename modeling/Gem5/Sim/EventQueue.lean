/-
This file models the event queues of the simulator (`sim/eventq.hh`,
`sim/eventq_impl.hh`, `sim/eventq.cc`): scheduling, descheduling and
rescheduling with their asserts, the asynchronous insertions of parallel mode,
and the servicing of events. The structure that holds the scheduled events is a
parameter. It is instantiated twice: with the linked bins of the code, and with
one plain list for each queue, which says what the bins are for.

`process()` is arbitrary code, so `serviceOne` is cut at the call: a thread
takes the step up to the call, any number of steps of the callback, and the
step after the return. Every interleaving of threads is a list of such steps.
-/

import Gem5.Library.Run
import Gem5.Sim.BinRemoval

namespace Gem5.Sim

open Base Library Function

/-! ### The structure that holds the events -/

/-- What a queue does with the structure that holds its events: read the first one, insert,
remove, and unlink the first one. -/
structure Pending (Ptr Order : Type) where
  front : Order → QueueId → Option Ptr
  insert : (Ptr → Event) → QueueId → Ptr → Order → Except Fault Order
  remove : (Ptr → Event) → QueueId → Ptr → Order → Except Fault Order
  pop : QueueId → Order → Order

/-- The linked bins of the code. -/
def linkedPending (Ptr : Type) [DecidableEq Ptr] [Fintype Ptr] : Pending Ptr (Links Ptr) where
  front := Links.head
  insert := Links.insert
  remove := Links.remove
  pop := Links.pop

/-- One list of events for each queue. An event is inserted before the first event that does
not sort before it, and a removal erases the event. -/
def listPending (Ptr : Type) [DecidableEq Ptr] : Pending Ptr (QueueId → List Ptr) where
  front lists this := (lists this).head?
  insert events this event lists :=
    .ok (update lists this ((lists this).orderedInsert (keyLe events) event))
  remove events this event lists :=
    if lists this = [] then .error .eventNotFound
    else if (events event).queue ≠ some this then .error .assertion
    else if event ∈ lists this then .ok (update lists this ((lists this).erase event))
    else .error .eventNotFound
  pop this lists := update lists this (lists this).tail

/-! ### The queues -/

/-- The events and the queues. `curTick` and `asyncQueue` are the members of each queue in
`mainEventQueue`, and `order` holds the events inserted in all of them. -/
structure Machine (Ptr Order : Type) where
  events : Ptr → Event
  order : Order
  curTick : QueueId → Tick
  asyncQueue : QueueId → List Ptr
  inParallelMode : Bool

/-- `assert(condition)`. -/
def require (condition : Prop) [Decidable condition] (fault : Fault) : Except Fault Unit :=
  if condition then .ok () else .error fault

section Code

variable {Ptr Order : Type} [DecidableEq Ptr] (pending : Pending Ptr Order)

namespace Machine

/-- A write to the fields of one event. -/
def setEvent (event : Ptr) (value : Event) (machine : Machine Ptr Order) : Machine Ptr Order :=
  { machine with events := update machine.events event value }

/-- `EventQueue::setCurTick(newVal)`. -/
def setCurTick (this : QueueId) (newVal : Tick) (machine : Machine Ptr Order) :
    Machine Ptr Order :=
  { machine with curTick := update machine.curTick this newVal }

/-- `EventQueue::asyncInsert(event)`. -/
def asyncInsert (this : QueueId) (event : Ptr) (machine : Machine Ptr Order) :
    Machine Ptr Order :=
  { machine with
    asyncQueue := update machine.asyncQueue this (machine.asyncQueue this ++ [event]) }

/-- `EventQueue::insert(event)`. -/
def insert (this : QueueId) (event : Ptr) (machine : Machine Ptr Order) :
    Except Fault (Machine Ptr Order) := do
  let order ← pending.insert machine.events this event machine.order
  return { machine with order }

/-- `EventQueue::remove(event)`. -/
def remove (this : QueueId) (event : Ptr) (machine : Machine Ptr Order) :
    Except Fault (Machine Ptr Order) := do
  let order ← pending.remove machine.events this event machine.order
  return { machine with order }

/-- `delete event`: the destructor asserts that the event is not scheduled and clears its
flags. -/
def delete (event : Ptr) (machine : Machine Ptr Order) : Except Fault (Machine Ptr Order) := do
  require ((machine.events event).scheduled = false) .assertion
  return machine.setEvent event { machine.events event with flags := 0 }

/-- `EventQueue::schedule(event, when, global)` on queue `this`, called by the thread whose
`curEventQueue()` is `cur`. -/
def schedule (cur this : QueueId) (event : Ptr) (when : Tick) (global : Bool)
    (machine : Machine Ptr Order) : Except Fault (Machine Ptr Order) := do
  require (machine.curTick this ≤ when) .assertion
  require ((machine.events event).scheduled = false) .assertion
  require ((machine.events event).initialized = true) .assertion
  let machine := machine.setEvent event ((machine.events event).setWhen when this)
  let machine ←
    if machine.inParallelMode = true ∧ (this ≠ cur ∨ global = true) then
      pure (machine.asyncInsert this event)
    else
      machine.insert pending this event
  return machine.setEvent event ((machine.events event).setFlags EventFlag.scheduled)

/-- `EventQueue::deschedule(event)`. -/
def deschedule (cur this : QueueId) (event : Ptr) (machine : Machine Ptr Order) :
    Except Fault (Machine Ptr Order) := do
  require ((machine.events event).scheduled = true) .assertion
  require ((machine.events event).initialized = true) .assertion
  require (machine.inParallelMode = false ∨ this = cur) .assertion
  let machine ← machine.remove pending this event
  let machine := machine.setEvent event
    (((machine.events event).clearFlags EventFlag.squashed).clearFlags EventFlag.scheduled)
  if (machine.events event).autoDelete = true then machine.delete event else return machine

/-- `EventQueue::reschedule(event, when, always)`. -/
def reschedule (cur this : QueueId) (event : Ptr) (when : Tick) (always : Bool)
    (machine : Machine Ptr Order) : Except Fault (Machine Ptr Order) := do
  require (machine.curTick this ≤ when) .assertion
  require (always = true ∨ (machine.events event).scheduled = true) .assertion
  require ((machine.events event).initialized = true) .assertion
  require (machine.inParallelMode = false ∨ this = cur) .assertion
  let machine ←
    if (machine.events event).scheduled = true then machine.remove pending this event
    else pure machine
  let machine := machine.setEvent event ((machine.events event).setWhen when this)
  let machine ← machine.insert pending this event
  return machine.setEvent event
    (((machine.events event).clearFlags EventFlag.squashed).setFlags EventFlag.scheduled)

/-- `Event::squash()`. -/
def squash (event : Ptr) (machine : Machine Ptr Order) : Except Fault (Machine Ptr Order) := do
  require ((machine.events event).initialized = true) .useAfterFree
  return machine.setEvent event ((machine.events event).setFlags EventFlag.squashed)

/-- `EventQueue::handleAsyncInsertions()`. -/
def handleAsyncInsertions (this : QueueId) (machine : Machine Ptr Order) :
    Except Fault (Machine Ptr Order) := do
  let machine ← (machine.asyncQueue this).foldlM
    (fun machine event => machine.insert pending this event) machine
  return { machine with asyncQueue := update machine.asyncQueue this [] }

/-- The end of `EventQueue::serviceOne()`: the event is deleted when it is `AutoDelete` and has
not been scheduled again. -/
def reap (event : Ptr) (machine : Machine Ptr Order) : Except Fault (Machine Ptr Order) :=
  if (machine.events event).autoDelete = true ∧ (machine.events event).scheduled = false then
    machine.delete event
  else
    return machine

/-- The start of `EventQueue::serviceOne()`: the first event is unlinked and, unless it is
squashed, the queue moves to its tick. The flag says whether `process()` is called next. -/
def beginService (this : QueueId) (machine : Machine Ptr Order) :
    Except Fault (Machine Ptr Order × Ptr × Bool) :=
  match pending.front machine.order this with
  | none => .error .nullPointer
  | some event =>
    let machine := machine.setEvent event
      ((machine.events event).clearFlags EventFlag.scheduled)
    let machine := { machine with order := pending.pop this machine.order }
    if (machine.events event).squashed = false then
      .ok (machine.setCurTick this (machine.events event).when, event, true)
    else
      .ok (machine.setEvent event ((machine.events event).clearFlags EventFlag.squashed),
        event, false)

/-- `EventQueue::serviceOne()` after `process()` has returned: the exit event, if it was one. -/
def endService (event : Ptr) (machine : Machine Ptr Order) :
    Except Fault (Machine Ptr Order × Option Ptr) := do
  require ((machine.events event).initialized = true) .useAfterFree
  if (machine.events event).isExitEvent = true then
    require ((machine.events event).autoDelete = false ∨
      (machine.events event).isMainQueue = false) .assertion
    return (machine, some event)
  else
    return (← machine.reap event, none)

/-- `EventQueue::serviceOne()`. -/
def serviceOne (process : Ptr → Machine Ptr Order → Except Fault (Machine Ptr Order))
    (this : QueueId) (machine : Machine Ptr Order) :
    Except Fault (Machine Ptr Order × Option Ptr) := do
  let (machine, event, live) ← machine.beginService pending this
  if live = true then (← process event machine).endService event
  else return (← machine.reap event, none)

/-- `EventQueue::nextTick()`. -/
def nextTick (this : QueueId) (machine : Machine Ptr Order) : Option Tick :=
  (pending.front machine.order this).map fun event => (machine.events event).when

end Machine

/-! ### Threads -/

/-- Where the thread of a queue is: inside `process()` of an event, and inside
`serviceEvents(when)`. -/
structure Control (Ptr : Type) where
  running : Option Ptr
  serving : Option Tick
  deriving DecidableEq

/-- The simulator: the queues, and one thread for each queue. -/
structure System (Ptr Order : Type) where
  machine : Machine Ptr Order
  control : QueueId → Control Ptr

/-- A step of the thread of queue `cur`. -/
inductive Action (Ptr : Type) where
  | schedule (cur this : QueueId) (event : Ptr) (when : Tick) (global : Bool)
  | deschedule (cur this : QueueId) (event : Ptr)
  | reschedule (cur this : QueueId) (event : Ptr) (when : Tick) (always : Bool)
  | squash (event : Ptr)
  | handleAsyncInsertions (cur : QueueId)
  | serviceOne (cur : QueueId)
  | processReturn (cur : QueueId)
  | serviceEvents (cur : QueueId) (when : Tick)
  | serviceEventsReturn (cur : QueueId)
  deriving DecidableEq

namespace System

/-- The thread of queue `cur` moves to another point of its program. -/
def setControl (cur : QueueId) (point : Control Ptr) (system : System Ptr Order) :
    System Ptr Order :=
  { system with control := update system.control cur point }

/-- A call into the queues that leaves the thread where it is. -/
def call (system : System Ptr Order) (result : Except Fault (Machine Ptr Order)) :
    Except Fault (System Ptr Order) := do
  return { system with machine := ← result }

/-- The test of the loop of `serviceEvents(when)`: there is an event and it is not after
`when`. -/
def loops (cur : QueueId) (when : Tick) (system : System Ptr Order) : Bool :=
  match system.machine.nextTick pending cur with
  | none => false
  | some next => decide (next ≤ when)

/-- One step. The calls may come from `process()` or from outside; `serviceOne` is entered from
the outer loop of the simulator or from `serviceEvents`. -/
def step (system : System Ptr Order) : Action Ptr → Except Fault (System Ptr Order)
  | .schedule cur this event when global =>
    system.call (system.machine.schedule pending cur this event when global)
  | .deschedule cur this event => system.call (system.machine.deschedule pending cur this event)
  | .reschedule cur this event when always =>
    system.call (system.machine.reschedule pending cur this event when always)
  | .squash event => system.call (system.machine.squash event)
  | .handleAsyncInsertions cur => system.call (system.machine.handleAsyncInsertions pending cur)
  | .serviceOne cur => do
    require ((system.control cur).running = none) .outOfTurn
    require (∀ when ∈ (system.control cur).serving, system.loops pending cur when = true)
      .outOfTurn
    let (machine, event, live) ← system.machine.beginService pending cur
    if live = true then
      return { system with machine }.setControl cur
        { system.control cur with running := some event }
    else
      return { system with machine := ← machine.reap event }
  | .processReturn cur =>
    match (system.control cur).running with
    | none => .error .outOfTurn
    | some event => do
      let (machine, _) ← system.machine.endService event
      return { system with machine }.setControl cur { system.control cur with running := none }
  | .serviceEvents cur when => do
    require (system.control cur = { running := none, serving := none }) .outOfTurn
    return system.setControl cur { running := none, serving := some when }
  | .serviceEventsReturn cur =>
    match system.control cur with
    | { running := none, serving := some when } => do
      require (system.loops pending cur when = false) .outOfTurn
      return { system with machine := system.machine.setCurTick cur when }.setControl cur
        { running := none, serving := none }
    | _ => .error .outOfTurn

end System

end Code

end Gem5.Sim
