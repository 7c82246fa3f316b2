/-
This file models the queue of deferred packets of a port, with the event that
wakes it up and the retry it waits for, and proves what every run of it keeps.
The peer answers a send by accepting or refusing it, and may enqueue further
packets while it accepts one. A packet is known by the number of packets that
were enqueued before it.
-/

import Gem5.Library.Run
import Mathlib

namespace Gem5.Mem

open Library List

/-! ### The queue -/

/-- The tick that stands for never. -/
def maxTick : Nat := 2 ^ 64 - 1

structure PortPacket where
  number : Nat
  isExpressSnoop : Bool
deriving DecidableEq, Repr

structure DeferredPacket where
  tick : Nat
  pkt : PortPacket
deriving DecidableEq, Repr

/-- The queue. The send event is the tick it is scheduled for; `scheduledAt` is kept for the
statements only and is the tick of the last call that asked for the event, moved by it or not. -/
structure PacketQueue where
  transmitList : List DeferredPacket
  sendEvent : Option Nat
  drainManager : Bool
  waitingOnRetry : Bool
  scheduledAt : Nat
deriving DecidableEq, Repr

/-- The assertions of the queue, and the panic when it has grown too long. -/
inductive QueueFault where
  | inThePast
  | expressSnoop
  | grown
  | forcedInFront
  | forcedBetween
  | eventWhileWaiting
  | waitingOnRetry
  | notReady
  | notWaiting
deriving DecidableEq, Repr

structure Enqueue where
  pkt : PortPacket
  when : Nat
  forceOrder : Bool
deriving DecidableEq, Repr

namespace PacketQueue

def create : PacketQueue := ⟨[], none, false, false, 0⟩

def deferredPacketReady (queue : PacketQueue) (curTick : Nat) : Bool :=
  match queue.transmitList with
  | [] => false
  | first :: _ => first.tick ≤ curTick

def deferredPacketReadyTime (queue : PacketQueue) : Nat :=
  match queue.transmitList with
  | [] => maxTick
  | first :: _ => first.tick

/-- The tick of the send event after it has been scheduled, or moved forward. -/
def moveForward (sendEvent : Option Nat) (when : Nat) : Nat :=
  match sendEvent with
  | none => when
  | some scheduled => if when < scheduled then when else scheduled

def schedSendEvent (queue : PacketQueue) (curTick when : Nat) : Except QueueFault PacketQueue :=
  if queue.waitingOnRetry then
    if queue.sendEvent.isSome then .error .eventWhileWaiting else .ok queue
  else if when ≠ maxTick then
    .ok { queue with
      sendEvent := some (moveForward queue.sendEvent (max when (curTick + 1)))
      scheduledAt := curTick }
  else if queue.drainManager && queue.transmitList.isEmpty && queue.sendEvent.isNone then
    .ok { queue with drainManager := false }
  else .ok queue

/-- Insertion sort: behind every packet that is not later. -/
def insertAfter (packet : DeferredPacket) : List DeferredPacket → List DeferredPacket
  | [] => [packet]
  | other :: rest =>
    if other.tick ≤ packet.tick then other :: insertAfter packet rest else packet :: other :: rest

/-- The tick of a packet that may have to stay behind all others. -/
def orderedTick (queue : PacketQueue) (when : Nat) (forceOrder : Bool) : Nat :=
  match queue.transmitList.getLast? with
  | none => when
  | some last => if forceOrder && decide (when < last.tick) then last.tick else when

/-- The packet is put on the list for a tick that is settled. -/
def place (queue : PacketQueue) (curTick : Nat) (pkt : PortPacket) (when : Nat)
    (forceOrder : Bool) : Except QueueFault PacketQueue :=
  match queue.transmitList with
  | [] => { queue with transmitList := [⟨when, pkt⟩] }.schedSendEvent curTick when
  | first :: rest =>
    if when < first.tick then
      if forceOrder then .error .forcedInFront
      else { queue with transmitList := ⟨when, pkt⟩ :: first :: rest }.schedSendEvent curTick when
    else if ((first :: rest).getLast (cons_ne_nil first rest)).tick ≤ when then
      .ok { queue with transmitList := first :: rest ++ [⟨when, pkt⟩] }
    else if forceOrder then .error .forcedBetween
    else .ok { queue with transmitList := first :: insertAfter ⟨when, pkt⟩ rest }

def schedSendTiming (queue : PacketQueue) (curTick : Nat) (call : Enqueue) :
    Except QueueFault PacketQueue :=
  if call.when < curTick then .error .inThePast
  else if call.pkt.isExpressSnoop then .error .expressSnoop
  else if 100 < queue.transmitList.length then .error .grown
  else queue.place curTick call.pkt (queue.orderedTick call.when call.forceOrder) call.forceOrder

/-- The first packet is taken from the list and sent. The peer makes the calls before it answers;
a packet that is refused is put back. -/
def sendDeferredPacket (queue : PacketQueue) (curTick : Nat) (accepts : Bool)
    (calls : List Enqueue) : Except QueueFault PacketQueue :=
  if queue.waitingOnRetry then .error .waitingOnRetry
  else if queue.deferredPacketReady curTick then
    match queue.transmitList with
    | [] => .error .notReady
    | packet :: rest => do
      let answered ← calls.foldlM (fun queue call => queue.schedSendTiming curTick call)
        { queue with transmitList := rest }
      if accepts then
        schedSendEvent { answered with waitingOnRetry := false } curTick
          answered.deferredPacketReadyTime
      else
        .ok { answered with
          waitingOnRetry := true, transmitList := packet :: answered.transmitList }
  else .error .notReady

/-- The send event is no longer scheduled when it is processed. -/
def processSendEvent (queue : PacketQueue) (curTick : Nat) (accepts : Bool)
    (calls : List Enqueue) : Except QueueFault PacketQueue :=
  if queue.waitingOnRetry then .error .waitingOnRetry
  else { queue with sendEvent := none }.sendDeferredPacket curTick accepts calls

def retry (queue : PacketQueue) (curTick : Nat) (accepts : Bool) (calls : List Enqueue) :
    Except QueueFault PacketQueue :=
  if queue.waitingOnRetry then
    { queue with waitingOnRetry := false }.sendDeferredPacket curTick accepts calls
  else .error .notWaiting

def drain (queue : PacketQueue) : PacketQueue :=
  if queue.transmitList.isEmpty then queue else { queue with drainManager := true }

end PacketQueue

/-! ### Runs of the queue -/

/-- A packet that is to be enqueued. -/
structure SendRequest where
  when : Nat
  forceOrder : Bool
  isExpressSnoop : Bool
deriving DecidableEq, Repr

/-- The calls that enqueue the packets, numbered one after the other. -/
def numbered (count : Nat) : List SendRequest → List Enqueue
  | [] => []
  | request :: rest =>
    ⟨⟨count, request.isExpressSnoop⟩, request.when, request.forceOrder⟩ ::
      numbered (count + 1) rest

structure AcceptedPacket where
  packet : DeferredPacket
  tick : Nat
deriving DecidableEq, Repr

/-- The queue with the packets that have been enqueued and those that have been accepted, both
in order. -/
structure QueueHistory where
  queue : PacketQueue
  curTick : Nat
  requests : List SendRequest
  accepted : List AcceptedPacket
deriving DecidableEq, Repr

inductive QueueAction where
  | schedSendTiming (tick : Nat) (request : SendRequest)
  | processSendEvent (tick : Nat) (accepts : Bool) (requests : List SendRequest)
  | retry (tick : Nat) (accepts : Bool) (requests : List SendRequest)
  | drain (tick : Nat)
deriving DecidableEq, Repr

namespace QueueAction

def tick : QueueAction → Nat
  | schedSendTiming tick _ | processSendEvent tick _ _ | retry tick _ _ | drain tick => tick

def requests : QueueAction → List SendRequest
  | schedSendTiming _ request => [request]
  | processSendEvent _ _ requests | retry _ _ requests => requests
  | drain _ => []

end QueueAction

namespace QueueHistory

def create : QueueHistory := ⟨.create, 0, [], []⟩

def sent (history : QueueHistory) (tick : Nat) (accepts : Bool) (requests : List SendRequest)
    (queue : PacketQueue) : QueueHistory where
  queue := queue
  curTick := tick
  requests := history.requests ++ requests
  accepted :=
    if accepts then
      history.accepted ++ history.queue.transmitList.head?.toList.map fun packet => ⟨packet, tick⟩
    else history.accepted

def step (history : QueueHistory) : QueueAction → Except QueueFault QueueHistory
  | .schedSendTiming tick request => do
    let queue ← (numbered history.requests.length [request]).foldlM
      (fun queue call => queue.schedSendTiming tick call) history.queue
    return ⟨queue, tick, history.requests ++ [request], history.accepted⟩
  | .processSendEvent tick accepts requests => do
    let queue ← history.queue.processSendEvent tick accepts
      (numbered history.requests.length requests)
    return history.sent tick accepts requests queue
  | .retry tick accepts requests => do
    let queue ← history.queue.retry tick accepts (numbered history.requests.length requests)
    return history.sent tick accepts requests queue
  | .drain tick => .ok { history with curTick := tick, queue := history.queue.drain }

/-- What the users of the queue owe it: no packet for the past and no express snoop is enqueued, the
event is processed when it is due, a retry answers a refusal, and a peer that refuses a packet
enqueues none. -/
def Called (history : QueueHistory) (action : QueueAction) : Prop :=
  history.curTick ≤ action.tick ∧ action.tick < maxTick ∧
    (∀ scheduled ∈ history.queue.sendEvent, action.tick ≤ scheduled) ∧
    (∀ request ∈ action.requests,
      action.tick ≤ request.when ∧ request.when ≤ maxTick ∧ request.isExpressSnoop = false) ∧
    match action with
    | .processSendEvent tick accepts requests =>
      history.queue.sendEvent = some tick ∧ (accepts = false → requests = [])
    | .retry _ accepts requests =>
      history.queue.waitingOnRetry = true ∧ (accepts = false → requests = [])
    | _ => True

instance (history : QueueHistory) : (action : QueueAction) → Decidable (history.Called action)
  | .schedSendTiming .. | .drain _ => inferInstanceAs (Decidable (_ ∧ _ ∧ _ ∧ _ ∧ True))
  | .processSendEvent .. | .retry .. => inferInstanceAs (Decidable (_ ∧ _ ∧ _ ∧ _ ∧ _ ∧ _))

/-- The calls that in addition enqueue no packet for the tick that stands for never. -/
def Allowed (history : QueueHistory) (action : QueueAction) : Prop :=
  history.Called action ∧ ∀ request ∈ action.requests, request.when < maxTick
deriving Decidable

end QueueHistory

namespace PacketQueue

/-! ### A packet is enqueued -/

section Enqueueing

variable {queue next : PacketQueue} {curTick : Nat} {call : Enqueue}

/-- What enqueueing a packet does: the packet goes behind every packet that is not later, a forced
one to the end, and a packet in front places the send event. -/
def Inserted (queue : PacketQueue) (curTick : Nat) (packet : DeferredPacket) (forced : Bool)
    (next : PacketQueue) : Prop :=
  next.waitingOnRetry = queue.waitingOnRetry ∧ ∃ before after,
    queue.transmitList = before ++ after ∧ next.transmitList = before ++ packet :: after ∧
    (∀ other ∈ before, other.tick ≤ packet.tick) ∧ (∀ other ∈ after, packet.tick < other.tick) ∧
    (forced = true → after = []) ∧
    (before ≠ [] → next.sendEvent = queue.sendEvent ∧ next.scheduledAt = queue.scheduledAt) ∧
    (before = [] → queue.waitingOnRetry = false ∧ next.scheduledAt = curTick ∧
      next.sendEvent =
        some (moveForward queue.sendEvent (max packet.tick (curTick + 1))))

theorem insertAfter_split (packet : DeferredPacket) {packets : List DeferredPacket}
    (sorted : packets.Pairwise fun one other => one.tick ≤ other.tick) :
    ∃ before after, packets = before ++ after ∧
      insertAfter packet packets = before ++ packet :: after ∧
      (∀ other ∈ before, other.tick ≤ packet.tick) ∧
      ∀ other ∈ after, packet.tick < other.tick := by
  induction packets with
  | nil => exact ⟨[], [], rfl, rfl, by simp, by simp⟩
  | cons other rest hypothesis =>
    rw [pairwise_cons] at sorted
    rw [insertAfter]
    split
    · rename_i earlier
      obtain ⟨before, after, split, inserted, least, greatest⟩ := hypothesis sorted.2
      refine ⟨other :: before, after, by rw [split, cons_append],
        by rw [inserted, cons_append], ?_, greatest⟩
      rw [forall_mem_cons]
      exact ⟨earlier, least⟩
    · rename_i later
      refine ⟨[], other :: rest, rfl, rfl, by simp, ?_⟩
      rw [forall_mem_cons]
      exact ⟨Nat.lt_of_not_le later, fun one member =>
        lt_of_lt_of_le (Nat.lt_of_not_le later) (sorted.1 one member)⟩

/-- The queue is sorted by tick, and a queue that waits for a retry has a first packet that is
ready and no event. -/
structure Steady (queue : PacketQueue) (curTick : Nat) : Prop where
  sorted : queue.transmitList.Pairwise fun one other => one.tick ≤ other.tick
  bounded : ∀ packet ∈ queue.transmitList, packet.tick < maxTick
  waiting : queue.waitingOnRetry = true → queue.sendEvent = none ∧
    ∃ first rest, queue.transmitList = first :: rest ∧ first.tick ≤ curTick

theorem schedSendEvent_eq (when : Nat) (free : queue.waitingOnRetry = false)
    (bounded : when < maxTick) :
    queue.schedSendEvent curTick when = .ok { queue with
      sendEvent := some (moveForward queue.sendEvent (max when (curTick + 1)))
      scheduledAt := curTick } := by
  rw [schedSendEvent, if_neg (Bool.eq_false_iff.mp free), if_pos (ne_of_lt bounded)]

theorem orderedTick_cases (queue : PacketQueue) (when : Nat) (forceOrder : Bool) :
    queue.orderedTick when forceOrder = when ∧
        (forceOrder = true → ∀ last ∈ queue.transmitList.getLast?, last.tick ≤ when) ∨
      when < queue.orderedTick when forceOrder ∧
        ∃ last ∈ queue.transmitList.getLast?, queue.orderedTick when forceOrder = last.tick := by
  rw [orderedTick]
  cases ends : queue.transmitList.getLast? with
  | none => exact .inl ⟨rfl, fun _ last member => by cases member⟩
  | some last =>
    by_cases shifted : forceOrder = true ∧ when < last.tick
    · refine .inr ?_
      simp only [shifted, decide_true, Bool.and_self, if_true]
      exact ⟨trivial, last, rfl, rfl⟩
    · refine .inl ⟨?_, fun forced other member => ?_⟩
      · dsimp only
        rw [if_neg (by simpa using shifted)]
      · cases member
        exact Nat.le_of_not_lt fun less => shifted ⟨forced, less⟩

/-- A packet that goes to the front is not ready, so that no packet waits for a retry. -/
theorem Steady.free (steady : Steady queue curTick) {when : Nat} (due : curTick ≤ when)
    (front : ∀ first ∈ queue.transmitList.head?, when < first.tick) :
    queue.waitingOnRetry = false := by
  refine Bool.eq_false_iff.mpr fun waits => ?_
  obtain ⟨_, first, _, listed, ready⟩ := steady.waiting waits
  have later := front first (by rw [listed]; rfl)
  omega

theorem Steady.place (steady : Steady queue curTick) (packet : DeferredPacket) {forced : Bool}
    {allowed : QueueFault → Prop} (due : curTick ≤ packet.tick) (bounded : packet.tick < maxTick)
    (behind : forced = true → ∀ last ∈ queue.transmitList.getLast?, last.tick ≤ packet.tick) :
    Ensures allowed (Inserted queue curTick packet forced)
      (queue.place curTick packet.pkt packet.tick forced) := by
  rw [PacketQueue.place]
  split
  · rename_i empty
    have free := steady.free due (by simp [empty])
    rw [schedSendEvent_eq _ (by exact free) bounded]
    exact ⟨rfl, [], [], by rw [empty, append_nil], rfl, by simp, by simp, fun _ => rfl,
      fun nonempty => absurd rfl nonempty, fun _ => ⟨free, rfl, rfl⟩⟩
  · rename_i first rest listed
    have ends : queue.transmitList.getLast? =
        some ((first :: rest).getLast (cons_ne_nil first rest)) := by
      rw [listed, getLast?_eq_some_getLast]
    have sorted := steady.sorted
    rw [listed] at sorted
    split
    · rename_i front
      split
      · rename_i isForced
        have last := behind isForced _ ends
        have least : first.tick ≤ ((first :: rest).getLast (cons_ne_nil first rest)).tick := by
          rcases mem_cons.mp (getLast_mem (cons_ne_nil first rest)) with
            same | member
          · rw [same]
          · exact (pairwise_cons.mp sorted).1 _ member
        exact absurd front (Nat.not_lt_of_le (least.trans last))
      · rename_i unforced
        have free := steady.free due (by simpa [listed] using front)
        rw [schedSendEvent_eq _ (by exact free) bounded]
        refine ⟨rfl, [], first :: rest, listed, rfl, by simp, ?_,
          fun isForced => absurd isForced unforced, fun nonempty => absurd rfl nonempty,
          fun _ => ⟨free, rfl, rfl⟩⟩
        rw [forall_mem_cons]
        exact ⟨front, fun other member =>
          lt_of_lt_of_le front ((pairwise_cons.mp sorted).1 other member)⟩
    · rename_i notFront
      split
      · rename_i behindLast
        refine ⟨rfl, first :: rest, [], by rw [listed, append_nil], rfl, ?_, by simp,
          fun _ => rfl, fun _ => ⟨rfl, rfl⟩, fun empty => by cases empty⟩
        intro other member
        rw [← dropLast_append_getLast (cons_ne_nil first rest)] at member sorted
        rcases mem_append.mp member with inside | last
        · exact ((pairwise_append.mp sorted).2.2 other inside _
            (mem_singleton.mpr rfl)).trans behindLast
        · rw [mem_singleton.mp last]
          exact behindLast
      · rename_i notLast
        split
        · rename_i isForced
          exact absurd (behind isForced _ ends) notLast
        · rename_i unforced
          obtain ⟨before, after, split, inserted, least, greatest⟩ :=
            insertAfter_split packet (pairwise_cons.mp sorted).2
          refine ⟨rfl, first :: before, after, by rw [listed, split, cons_append], ?_, ?_,
            greatest, fun isForced => absurd isForced unforced, fun _ => ⟨rfl, rfl⟩,
            fun empty => by cases empty⟩
          · show first :: insertAfter packet rest = _
            rw [inserted, cons_append]
          · rw [forall_mem_cons]
            exact ⟨Nat.le_of_not_lt notFront, least⟩

theorem Steady.schedSendTiming (steady : Steady queue curTick) (due : curTick ≤ call.when)
    (bounded : call.when < maxTick) (plain : call.pkt.isExpressSnoop = false) :
    Ensures (fun fault => fault = .grown)
      (fun next => ∃ tick, call.when ≤ tick ∧ tick < maxTick ∧
        Inserted queue curTick ⟨tick, call.pkt⟩ call.forceOrder next)
      (queue.schedSendTiming curTick call) := by
  rw [PacketQueue.schedSendTiming, if_neg (Nat.not_lt_of_le due), if_neg (by simp [plain])]
  split
  · rfl
  · have placed {tick : Nat} (later : call.when ≤ tick) (below : tick < maxTick)
        (behind : call.forceOrder = true →
          ∀ last ∈ queue.transmitList.getLast?, last.tick ≤ tick) :
        Ensures (fun fault => fault = .grown)
          (fun next => ∃ tick, call.when ≤ tick ∧ tick < maxTick ∧
            Inserted queue curTick ⟨tick, call.pkt⟩ call.forceOrder next)
          (queue.place curTick call.pkt tick call.forceOrder) :=
      (steady.place ⟨tick, call.pkt⟩ (due.trans later) below behind).mono
        fun _ inserted => ⟨tick, later, below, inserted⟩
    rcases orderedTick_cases queue call.when call.forceOrder with
      ⟨same, behind⟩ | ⟨later, last, ends, same⟩
    · rw [same]
      exact placed (le_refl _) bounded behind
    · refine placed (le_of_lt later) ?_ ?_
      · rw [same]
        exact steady.bounded last (mem_of_getLast? ends)
      · intro _ other member
        rw [Option.mem_def.mp ends] at member
        cases member
        rw [same]

end Enqueueing

/-! ### What every run keeps -/

/-- The packet was enqueued with the order forced. -/
def Forced (requests : List SendRequest) (number : Nat) : Prop :=
  ∃ request, requests[number]? = some request ∧ request.forceOrder = true

/-- The packet is not on the list for a tick before the one it was enqueued for. -/
def Due (requests : List SendRequest) (packet : DeferredPacket) : Prop :=
  ∃ request, requests[packet.pkt.number]? = some request ∧ request.when ≤ packet.tick

/-- The order of the list: by tick, and at the same tick in the order of the calls. -/
def Before (one other : DeferredPacket) : Prop :=
  one.tick < other.tick ∨ one.tick = other.tick ∧ one.pkt.number < other.pkt.number

/-- The packets that have been accepted, followed by those on the list. -/
def numbers (packets : List DeferredPacket) (accepted : List AcceptedPacket) : List Nat :=
  accepted.map (fun entry => entry.packet.pkt.number) ++ packets.map fun packet => packet.pkt.number

/-- Every packet that was enqueued has been accepted or is on the list, and none is before a forced
packet that was enqueued before it. -/
structure Lined (packets : List DeferredPacket) (requests : List SendRequest)
    (accepted : List AcceptedPacket) : Prop where
  ordered : packets.Pairwise Before
  present : (numbers packets accepted).Perm (range requests.length)
  forced : (numbers packets accepted).Pairwise fun one other => Forced requests one → one < other
  due : ∀ packet ∈ packets, Due requests packet
  onTime : ∀ entry ∈ accepted, entry.packet.tick ≤ entry.tick ∧ Due requests entry.packet

/-- What a queue keeps also while a packet is being sent. -/
structure Kept (queue : PacketQueue) (requests : List SendRequest)
    (accepted : List AcceptedPacket) (curTick : Nat) : Prop where
  lined : Lined queue.transmitList requests accepted
  bounded : ∀ packet ∈ queue.transmitList, packet.tick < maxTick
  waiting : queue.waitingOnRetry = true → queue.sendEvent = none ∧
    ∃ first rest, queue.transmitList = first :: rest ∧ first.tick ≤ curTick
  event : ∀ scheduled, queue.sendEvent = some scheduled →
    ∃ first rest, queue.transmitList = first :: rest ∧ first.tick ≤ scheduled ∧
      scheduled ≤ max first.tick (queue.scheduledAt + 1)

/-- The packets that the users may enqueue. -/
def Owed (curTick : Nat) (added : List SendRequest) : Prop :=
  ∀ request ∈ added, curTick ≤ request.when ∧ request.when < maxTick ∧
    request.isExpressSnoop = false

/-- A list with packets has a retry to wait for or an event. -/
def Awake (queue : PacketQueue) : Prop :=
  queue.transmitList ≠ [] → queue.waitingOnRetry = true ∨ queue.sendEvent.isSome = true

section Keeping

variable {queue next : PacketQueue} {requests : List SendRequest} {request : SendRequest}
  {accepted : List AcceptedPacket} {curTick : Nat}

theorem pairwise_insert {Value : Type} {related : Value → Value → Prop} {value : Value}
    {before after : List Value} (pairwise : (before ++ after).Pairwise related)
    (left : ∀ other ∈ before, related other value) (right : ∀ other ∈ after, related value other) :
    (before ++ value :: after).Pairwise related := by
  rw [pairwise_append] at pairwise ⊢
  refine ⟨pairwise.1, pairwise_cons.mpr ⟨right, pairwise.2.1⟩,
    fun one member other isOther => ?_⟩
  rcases mem_cons.mp isOther with rfl | isAfter
  · exact left one member
  · exact pairwise.2.2 one member other isAfter

theorem Lined.lt_length {packets : List DeferredPacket} (lined : Lined packets requests accepted)
    {number : Nat} (member : number ∈ numbers packets accepted) : number < requests.length :=
  mem_range.mp (lined.present.mem_iff.mp member)

theorem Due.append {packet : DeferredPacket} (due : Due requests packet) :
    Due (requests ++ [request]) packet := by
  obtain ⟨found, listed, early⟩ := due
  obtain ⟨old, _⟩ := List.getElem?_eq_some_iff.mp listed
  exact ⟨found, by rw [getElem?_append_left old, listed], early⟩

theorem Lined.insert {before after : List DeferredPacket}
    (lined : Lined (before ++ after) requests accepted) {tick : Nat} {snoop : Bool}
    (due : request.when ≤ tick) (least : ∀ other ∈ before, other.tick ≤ tick)
    (greatest : ∀ other ∈ after, tick < other.tick)
    (last : request.forceOrder = true → after = []) :
    Lined (before ++ ⟨tick, ⟨requests.length, snoop⟩⟩ :: after) (requests ++ [request])
      accepted := by
  have old {packet : DeferredPacket} (member : packet ∈ before ++ after) :
      packet.pkt.number < requests.length :=
    lined.lt_length (mem_append_right _ (mem_map_of_mem member))
  have numbersEq (middle : List DeferredPacket) : numbers (before ++ middle) accepted =
      numbers before accepted ++ middle.map fun packet => packet.pkt.number := by
    rw [numbers, numbers, map_append, append_assoc]
  refine ⟨?_, ?_, ?_, ?_, ?_⟩
  · refine pairwise_insert lined.ordered (fun other member => ?_) fun other member =>
      .inl (greatest other member)
    rcases lt_or_eq_of_le (least other member) with earlier | same
    · exact .inl earlier
    · exact .inr ⟨same, old (mem_append_left _ member)⟩
  · rw [numbersEq, map_cons, length_append, length_singleton, range_succ]
    refine perm_middle.trans ((List.Perm.cons _ ?_).trans
      (perm_append_singleton _ _).symm)
    rw [← numbersEq]
    exact lined.present
  · rw [numbersEq, map_cons]
    have kept : (numbers before accepted ++ after.map fun packet => packet.pkt.number).Pairwise
        fun one other => Forced (requests ++ [request]) one → one < other := by
      rw [← numbersEq]
      refine lined.forced.imp_of_mem fun isOne _ related isForced => related ?_
      rwa [Forced, getElem?_append_left (lined.lt_length isOne)] at isForced
    refine pairwise_insert kept (fun other member _ => ?_) fun other member isForced => ?_
    · refine lined.lt_length ?_
      rw [numbersEq]
      exact mem_append_left _ member
    · rw [last (by simpa [Forced] using isForced)] at member
      cases member
  · intro packet member
    rcases mem_append.mp member with inside | inside
    · exact (lined.due packet (mem_append_left _ inside)).append
    · rcases mem_cons.mp inside with rfl | isAfter
      · exact ⟨request, by simp, due⟩
      · exact (lined.due packet (mem_append_right _ isAfter)).append
  · intro entry member
    exact ⟨(lined.onTime entry member).1, (lined.onTime entry member).2.append⟩

theorem moveForward_le (sendEvent : Option Nat) (when : Nat) :
    moveForward sendEvent when ≤ when := by
  unfold moveForward
  split
  · exact le_refl _
  · split
    · exact le_refl _
    · rename_i notEarlier
      exact Nat.le_of_not_lt notEarlier

theorem le_moveForward {sendEvent : Option Nat} {least when : Nat} (bound : least ≤ when)
    (scheduledBound : ∀ scheduled, sendEvent = some scheduled → least ≤ scheduled) :
    least ≤ moveForward sendEvent when := by
  unfold moveForward
  split
  · exact bound
  · split
    · exact bound
    · exact scheduledBound _ rfl

theorem Awake.insert (awake : Awake queue) {packet : DeferredPacket} {forced : Bool}
    (inserted : Inserted queue curTick packet forced next) : Awake next := by
  obtain ⟨waits, before, _, split, _, _, _, _, inside, front⟩ := inserted
  intro _
  cases before with
  | nil => exact .inr (by rw [(front rfl).2.2]; rfl)
  | cons =>
    rw [waits, (inside (cons_ne_nil _ _)).1]
    refine awake ?_
    rw [split]
    exact cons_ne_nil _ _

theorem Lined.accept {first : DeferredPacket} {rest : List DeferredPacket}
    (lined : Lined (first :: rest) requests accepted) (ready : first.tick ≤ curTick) :
    Lined rest requests (accepted ++ [⟨first, curTick⟩]) := by
  have same : numbers rest (accepted ++ [⟨first, curTick⟩]) = numbers (first :: rest) accepted := by
    simp [numbers]
  refine ⟨(pairwise_cons.mp lined.ordered).2, same ▸ lined.present, same ▸ lined.forced,
    fun packet member => lined.due packet (mem_cons_of_mem _ member), fun entry member => ?_⟩
  rcases mem_append.mp member with old | new
  · exact lined.onTime entry old
  · rw [mem_singleton.mp new]
    exact ⟨ready, lined.due first mem_cons_self⟩

section

variable (kept : Kept queue requests accepted curTick)
include kept

theorem Kept.steady : Steady queue curTick := by
  refine ⟨kept.lined.ordered.imp fun before => ?_, kept.bounded, kept.waiting⟩
  rcases before with earlier | same
  · exact le_of_lt earlier
  · exact le_of_eq same.1

/-- Enqueueing a packet keeps the queue, also while another one is being sent. -/
theorem Kept.insert {tick : Nat} {snoop : Bool}
    (due : request.when ≤ tick) (bounded : tick < maxTick)
    (inserted : Inserted queue curTick ⟨tick, ⟨requests.length, snoop⟩⟩ request.forceOrder next) :
    Kept next (requests ++ [request]) accepted curTick := by
  obtain ⟨waits, before, after, split, listed, least, greatest, last, inside, front⟩ := inserted
  have lined := kept.lined
  rw [split] at lined
  refine ⟨?_, ?_, fun waiting => ?_, fun scheduled event => ?_⟩
  · rw [listed]
    exact lined.insert due least greatest last
  · intro packet member
    rw [listed] at member
    rcases mem_append.mp member with isBefore | member
    · exact kept.bounded packet (split ▸ mem_append_left _ isBefore)
    · rcases mem_cons.mp member with rfl | isAfter
      · exact bounded
      · exact kept.bounded packet (split ▸ mem_append_right _ isAfter)
  · rw [waits] at waiting
    obtain ⟨noEvent, _, _, same, ready⟩ := kept.waiting waiting
    rw [split] at same
    cases before with
    | nil =>
      rw [(front rfl).1] at waiting
      cases waiting
    | cons =>
      cases same
      exact ⟨(inside (cons_ne_nil _ _)).1.trans noEvent, _, _, listed, ready⟩
  · cases before with
    | nil =>
      obtain ⟨_, now, placed⟩ := front rfl
      rw [placed] at event
      cases event
      refine ⟨_, after, listed, le_moveForward (le_max_left _ _) fun scheduled event => ?_, ?_⟩
      · obtain ⟨first, _, same, early, _⟩ := kept.event scheduled event
        rw [split, nil_append] at same
        exact (le_of_lt (greatest first (same ▸ mem_cons_self))).trans early
      · rw [now]
        exact moveForward_le _ _
    | cons =>
      obtain ⟨sameEvent, sameTick⟩ := inside (cons_ne_nil _ _)
      obtain ⟨_, _, same, early, late⟩ := kept.event scheduled (sameEvent ▸ event)
      rw [split] at same
      cases same
      exact ⟨_, _, listed, early, sameTick ▸ late⟩

/-- Whatever is enqueued, before or while a packet is being sent. -/
theorem Kept.enqueue {added : List SendRequest} (owed : Owed curTick added) :
    Ensures (fun fault => fault = .grown)
      (fun next => Kept next (requests ++ added) accepted curTick ∧ (Awake queue → Awake next) ∧
        next.waitingOnRetry = queue.waitingOnRetry)
      ((numbered requests.length added).foldlM
        (fun queue call => queue.schedSendTiming curTick call) queue) := by
  induction added generalizing queue requests with
  | nil =>
    rw [append_nil]
    exact ⟨kept, fun awake => awake, rfl⟩
  | cons _ _ hypothesis =>
    rw [Owed, forall_mem_cons] at owed
    rw [numbered, foldlM_cons]
    refine (kept.steady.schedSendTiming owed.1.1 owed.1.2.1 owed.1.2.2).bind
      fun middle ⟨tick, due, bounded, inserted⟩ => ?_
    have further := hypothesis (kept.insert due bounded inserted) owed.2
    rw [length_append, length_singleton, append_assoc, singleton_append]
      at further
    refine further.mono fun next ⟨keptNext, awakeNext, waits⟩ => ⟨keptNext, fun awake => ?_, ?_⟩
    · exact awakeNext (awake.insert inserted)
    · exact waits.trans inserted.1

theorem Kept.later {tick : Nat} (passes : curTick ≤ tick) : Kept queue requests accepted tick := by
  refine { kept with waiting := fun waits => ?_ }
  obtain ⟨noEvent, first, rest, listed, ready⟩ := kept.waiting waits
  exact ⟨noEvent, first, rest, listed, ready.trans passes⟩

theorem Kept.reschedule (free : queue.waitingOnRetry = false) :
    Ensures (fun fault => fault = .grown)
      (fun next => Kept next requests accepted curTick ∧ Awake next)
      (queue.schedSendEvent curTick queue.deferredPacketReadyTime) := by
  cases listed : queue.transmitList with
  | nil =>
    have never : queue.deferredPacketReadyTime = maxTick := by
      rw [deferredPacketReadyTime, listed]
    rw [schedSendEvent, if_neg (Bool.eq_false_iff.mp free), if_neg (not_not.mpr never)]
    split
    · exact ⟨{ kept with }, fun nonempty => absurd listed nonempty⟩
    · exact ⟨kept, fun nonempty => absurd listed nonempty⟩
  | cons first rest =>
    have bounded := kept.bounded first (listed ▸ mem_cons_self)
    have ready : queue.deferredPacketReadyTime = first.tick := by
      rw [deferredPacketReadyTime, listed]
    rw [ready, schedSendEvent_eq _ free bounded]
    refine ⟨⟨kept.lined, kept.bounded, fun waits => ?_, fun scheduled event => ?_⟩,
      fun _ => .inr rfl⟩
    · exact absurd waits (by simp [free])
    · cases event
      refine ⟨first, rest, listed, le_moveForward (le_max_left _ _) fun scheduled event => ?_,
        moveForward_le _ _⟩
      obtain ⟨_, _, same, early, _⟩ := kept.event scheduled event
      rw [listed] at same
      cases same
      exact early

theorem Kept.send (free : queue.waitingOnRetry = false) (noEvent : queue.sendEvent = none)
    {first : DeferredPacket} {rest : List DeferredPacket}
    (listed : queue.transmitList = first :: rest) (ready : first.tick ≤ curTick)
    {accepts : Bool} {added : List SendRequest} (owed : Owed curTick added)
    (refused : accepts = false → added = []) :
    Ensures (fun fault => fault = .grown)
      (fun next => Kept next (requests ++ added)
        (if accepts then accepted ++ [⟨first, curTick⟩] else accepted) curTick ∧ Awake next)
      (queue.sendDeferredPacket curTick accepts (numbered requests.length added)) := by
  have isReady : queue.deferredPacketReady curTick = true := by
    rw [deferredPacketReady, listed]
    exact decide_eq_true ready
  have lined := kept.lined
  rw [listed] at lined
  rw [sendDeferredPacket, if_neg (Bool.eq_false_iff.mp free), if_pos isReady, listed]
  cases accepts with
  | false =>
    rw [refused rfl, append_nil]
    refine ⟨⟨lined, ?_, fun _ => ⟨noEvent, first, rest, rfl, ready⟩, fun scheduled event => ?_⟩,
      fun _ => .inl rfl⟩
    · rw [← listed]
      exact kept.bounded
    · exact absurd event (by simp [noEvent])
  | true =>
    have popped : Kept { queue with transmitList := rest } requests
        (accepted ++ [⟨first, curTick⟩]) curTick := by
      refine ⟨lined.accept ready, fun packet member => ?_, fun waits => ?_,
        fun scheduled event => ?_⟩
      · exact kept.bounded packet (listed ▸ mem_cons_of_mem _ member)
      · exact absurd waits (by simp [free])
      · exact absurd event (by simp [noEvent])
    refine (popped.enqueue owed).bind fun answered ⟨keptAnswered, _, waits⟩ => ?_
    have same : { answered with waitingOnRetry := false } = answered := by
      rw [← free, ← waits]
    rw [same]
    exact keptAnswered.reschedule (waits.trans free)

end

end Keeping

end PacketQueue

namespace QueueHistory

open PacketQueue

/-- A history keeps what a queue keeps, and its queue is awake. -/
def Tidy (history : QueueHistory) : Prop :=
  Kept history.queue history.requests history.accepted history.curTick ∧ Awake history.queue

theorem tidy_create : create.Tidy := by
  refine ⟨⟨⟨.nil, .refl _, .nil, by simp [create, PacketQueue.create], by simp [create]⟩,
    by simp [create, PacketQueue.create], fun waits => ?_, fun scheduled event => ?_⟩,
    fun nonempty => absurd rfl nonempty⟩
  · cases waits
  · cases event

variable {history next : QueueHistory} {action : QueueAction} {actions : List QueueAction}

theorem sent_accepted {first : DeferredPacket} {rest : List DeferredPacket}
    (listed : history.queue.transmitList = first :: rest) (tick : Nat) (accepts : Bool)
    (added : List SendRequest) (queue : PacketQueue) :
    (history.sent tick accepts added queue).accepted =
      if accepts then history.accepted ++ [⟨first, tick⟩] else history.accepted := by
  rw [sent, listed]
  rfl

theorem Tidy.step (tidy : history.Tidy) (allowed : history.Allowed action) :
    Ensures (fun fault => fault = .grown) Tidy (history.step action) := by
  obtain ⟨⟨passes, _, _, owed, matching⟩, bounded⟩ := allowed
  obtain ⟨kept, awake⟩ := tidy
  have owes : Owed action.tick action.requests := fun request member =>
    ⟨(owed request member).1, bounded request member, (owed request member).2.2⟩
  have keptNow := kept.later passes
  cases action with
  | schedSendTiming =>
    exact (keptNow.enqueue owes).bind fun queue ⟨keptNext, awakeNext, _⟩ =>
      ⟨keptNext, awakeNext awake⟩
  | processSendEvent tick accepts added =>
    obtain ⟨event, refused⟩ := matching
    obtain ⟨_, _, listed, early, _⟩ := kept.event tick event
    have free : history.queue.waitingOnRetry = false := by
      refine Bool.eq_false_iff.mpr fun waits => ?_
      rw [(kept.waiting waits).1] at event
      cases event
    have fired : Kept { history.queue with sendEvent := none } history.requests
        history.accepted tick :=
      ⟨keptNow.lined, keptNow.bounded, fun waits => absurd waits (by simp [free]),
        fun scheduled event => absurd event (by simp)⟩
    have sent := fired.send free rfl listed early owes refused
    rw [QueueHistory.step, PacketQueue.processSendEvent, if_neg (Bool.eq_false_iff.mp free)]
    refine sent.bind fun queue ensured => ?_
    rw [← sent_accepted listed tick accepts added queue] at ensured
    exact ensured
  | retry tick accepts added =>
    obtain ⟨waits, refused⟩ := matching
    obtain ⟨noEvent, _, _, listed, ready⟩ := keptNow.waiting waits
    have retried : Kept { history.queue with waitingOnRetry := false } history.requests
        history.accepted tick :=
      ⟨keptNow.lined, keptNow.bounded, fun waits => absurd waits (by simp),
        fun scheduled event => absurd event (by simp [noEvent])⟩
    have sent := retried.send rfl noEvent listed ready owes refused
    rw [QueueHistory.step, PacketQueue.retry, if_pos waits]
    refine sent.bind fun queue ensured => ?_
    rw [← sent_accepted listed tick accepts added queue] at ensured
    exact ensured
  | drain =>
    rw [QueueHistory.step, PacketQueue.drain]
    split
    · exact ⟨keptNow, awake⟩
    · exact ⟨{ keptNow with }, awake⟩

/-- The numbers of the packets that have been accepted, in order. -/
def acceptedNumbers (history : QueueHistory) : List Nat :=
  history.accepted.map fun entry => entry.packet.pkt.number

/-- What the queue promises: its list is sorted, a packet whose order is forced leaves after every
packet enqueued before it, a packet is accepted at most once and not before its tick, and a queue
with packets waits for a retry of a packet that is ready or has an event in time. -/
structure Conforms (history : QueueHistory) : Prop where
  sorted : history.queue.transmitList.Pairwise Before
  forced : ∀ number ∈ history.acceptedNumbers, Forced history.requests number →
    ∀ earlier < number, [earlier, number].Sublist history.acceptedNumbers
  once : history.acceptedNumbers.Nodup
  onTime : ∀ entry ∈ history.accepted,
    entry.packet.tick ≤ entry.tick ∧ Due history.requests entry.packet
  awake : ∀ first rest, history.queue.transmitList = first :: rest →
    history.queue.waitingOnRetry = true ∧ first.tick ≤ history.curTick ∨
      ∃ scheduled, history.queue.sendEvent = some scheduled ∧
        scheduled ≤ max first.tick (history.queue.scheduledAt + 1)

theorem Tidy.conforms (tidy : history.Tidy) : history.Conforms := by
  obtain ⟨kept, awake⟩ := tidy
  refine ⟨kept.lined.ordered, ?_, ?_, kept.lined.onTime, ?_⟩
  · intro number member isForced earlier less
    have present : earlier ∈ numbers history.queue.transmitList history.accepted := by
      refine kept.lined.present.mem_iff.mpr (mem_range.mpr (less.trans ?_))
      exact kept.lined.lt_length (mem_append_left _ member)
    have ordered := kept.lined.forced
    obtain ⟨_, after, split⟩ := append_of_mem member
    rw [numbers] at present ordered
    rw [acceptedNumbers] at split ⊢
    rw [split, append_assoc, cons_append] at present ordered
    rw [split]
    have notAfter : earlier ∉ number :: (after ++ history.queue.transmitList.map
        fun packet => packet.pkt.number) := by
      intro inside
      rcases mem_cons.mp inside with same | isAfter
      · exact absurd same (ne_of_lt less)
      · have later := (pairwise_cons.mp (pairwise_append.mp ordered).2.1).1 _ isAfter
        exact absurd (later isForced) (lt_asymm less)
    have isBefore := (mem_append.mp present).resolve_right notAfter
    exact (singleton_sublist.mpr isBefore).append
      (singleton_sublist.mpr mem_cons_self)
  · have distinct := kept.lined.present.nodup_iff.mpr nodup_range
    exact (nodup_append.mp distinct).1
  · intro first rest listed
    rcases awake (by rw [listed]; exact cons_ne_nil _ _) with waits | scheduled
    · obtain ⟨_, _, _, same, ready⟩ := kept.waiting waits
      rw [listed] at same
      cases same
      exact .inl ⟨waits, ready⟩
    · obtain ⟨tick, event⟩ := Option.isSome_iff_exists.mp scheduled
      obtain ⟨_, _, same, _, late⟩ := kept.event tick event
      rw [listed] at same
      cases same
      exact .inr ⟨tick, event, late⟩

/-- In every run the queue conforms, and the next call fails no assertion: only the panic about more
than a hundred packets can stop it. -/
theorem queue_conforms (run : Run step Allowed create actions history) :
    history.Conforms ∧ ∀ action, history.Allowed action →
      Raises (fun fault => fault = .grown) (history.step action) := by
  have tidy : history.Tidy := run.invariant Tidy
    (fun tidy allowed taken => (tidy.step allowed).of_ok taken) tidy_create
  exact ⟨tidy.conforms, fun action allowed => (tidy.step allowed).raises⟩

/-- A packet is refused and accepted at the retry, while another one is enqueued. -/
theorem queue_conforms_retry :
    ∃ history, Run step Allowed create [.schedSendTiming 0 ⟨5, false, false⟩,
        .schedSendTiming 1 ⟨3, true, false⟩, .processSendEvent 5 false [],
        .retry 7 true [⟨7, false, false⟩, ⟨7, true, false⟩]] history ∧
      history.acceptedNumbers = [0] ∧ history.Conforms ∧
      ∀ action, history.Allowed action →
        Raises (fun fault => fault = .grown) (history.step action) := by
  exact Run.exists_checked (fun history => history.acceptedNumbers = [0])
    (by decide +kernel) fun _ run accepted => ⟨accepted, queue_conforms run⟩

/-- A packet that is enqueued for the tick that stands for never is on the list without an
event. -/
theorem no_event_for_never :
    ∃ history, Run step Called create [.schedSendTiming 0 ⟨maxTick, false, false⟩] history ∧
      history.queue.transmitList ≠ [] ∧ history.queue.waitingOnRetry = false ∧
      history.queue.sendEvent = none ∧ ¬ history.Conforms := by
  refine Run.exists_checked (fun history =>
      history.queue = ⟨[⟨maxTick, ⟨0, false⟩⟩], none, false, false, 0⟩)
    (by decide +kernel) fun _ _ same => ?_
  refine ⟨by simp [same], by rw [same], by rw [same], fun conforms => ?_⟩
  rcases conforms.awake _ _ (by rw [same]) with ⟨waits, _⟩ | ⟨_, event, _⟩
  · rw [same] at waits
    cases waits
  · rw [same] at event
    cases event

end QueueHistory

end Gem5.Mem
