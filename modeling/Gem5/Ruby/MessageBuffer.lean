/-
This file models Ruby's message buffer (`mem/ruby/network/MessageBuffer.cc`): a heap of
messages in the order of their arrival times and counters, with a map of the messages
that are stalled, between a sender and a receiver that may have different clocks. The
sender asks for a slot with a size that it is shown, which counts the messages popped
in its cycle as still there. The size that it is shown is never too small if no message
is popped before an edge of the receiver's clock that comes after the sender's next one,
and none is put back from the map after such a pop; then the heap keeps its bound.
-/

import Gem5.Base.IntMath
import Gem5.Library.Run
import Mathlib

namespace Gem5.Ruby.Buffer

open Base Library List

inductive Fault where
  | assertion
  | panic
deriving DecidableEq, Repr

/-! ### Clocks -/

/-- A clock domain with a fixed period. -/
structure Clock where
  period : Nat
  positive : 0 < period

namespace Clock

variable (clock : Clock)

def curCycle (now : Nat) : Nat := divCeil now clock.period

/-- The next edge of the clock, or one some cycles after it. -/
def clockEdge (now cycles : Nat) : Nat :=
  clock.curCycle now * clock.period + clock.period * cycles

def ticksToCycles (ticks : Nat) : Nat := divCeil ticks clock.period

theorem clockEdge_mono {earlier later : Nat} (order : earlier ≤ later) (cycles : Nat) :
    clock.clockEdge earlier cycles ≤ clock.clockEdge later cycles :=
  Nat.add_le_add_right (Nat.mul_le_mul_right _ (Nat.div_le_div_right (by omega))) _

end Clock

/-! ### Messages -/

structure Message (Label : Type) where
  label : Label
  addr : Nat
  lastEnqueueTime : Nat
  delayedTicks : Nat
deriving DecidableEq, Repr

variable {Label : Type}

def Message.updateDelayedTicks (message : Message Label) (curTime : Nat) :
    Except Fault (Message Label) :=
  if message.lastEnqueueTime ≤ curTime then
    .ok { message with delayedTicks := message.delayedTicks + (curTime - message.lastEnqueueTime) }
  else .error .assertion

structure MessageBufferNode (Label : Type) where
  time : Nat
  msgCounter : Nat
  msg : Message Label
deriving DecidableEq, Repr

/-- The order of the heap: by the time, and then by the counter. -/
def MessageBufferNode.Precedes (first second : MessageBufferNode Label) : Prop :=
  first.time < second.time ∨ first.time = second.time ∧ first.msgCounter ≤ second.msgCounter
deriving Decidable

/-- The stalled messages, by their addresses in ascending order. -/
abbrev StallMsgMap (Label : Type) := List (Nat × List (Message Label))

namespace StallMsgMap

def pushBack (addr : Nat) (message : Message Label) : StallMsgMap Label → StallMsgMap Label
  | [] => [(addr, [message])]
  | (key, messages) :: rest =>
    if addr = key then (key, messages ++ [message]) :: rest
    else if addr < key then (addr, [message]) :: (key, messages) :: rest
    else (key, messages) :: pushBack addr message rest

/-- The messages that are stalled for an address; there is an entry for it if there are any. -/
def messagesAt (addr : Nat) : StallMsgMap Label → List (Message Label)
  | [] => []
  | (key, messages) :: rest => if addr = key then messages else messagesAt addr rest

def remove (addr : Nat) (stalled : StallMsgMap Label) : StallMsgMap Label :=
  stalled.filter (·.1 ≠ addr)

end StallMsgMap

/-! ### The buffer -/

structure Config where
  sender : Clock
  receiver : Clock
  maxSize : Nat
  strictFifo : Bool
  /-- The flag of the buffer and the one of the system together. -/
  randomization : Bool
  warmup : Bool
  recycleLatency : Nat
  blockSize : Nat

structure MessageBuffer (Label : Type) where
  /-- The current tick. -/
  now : Nat
  /-- The nodes of the heap, the front first. -/
  prioHeap : List (MessageBufferNode Label)
  stallMsgMap : StallMsgMap Label
  timeLastTimeEnqueue : Nat
  timeLastTimePop : Nat
  lastArrivalTime : Nat
  sizeAtCycleStart : Nat
  msgsThisCycle : Nat
  msgCounter : Nat
deriving DecidableEq, Repr

namespace MessageBuffer

def initial : MessageBuffer Label := ⟨0, [], [], 0, 0, 0, 0, 0, 0⟩

variable (config : Config)

def pushHeap (node : MessageBufferNode Label) (heap : List (MessageBufferNode Label)) :
    List (MessageBufferNode Label) :=
  heap.orderedInsert MessageBufferNode.Precedes node

/-- The size that the sender is shown: pops do not count until the next cycle. -/
def currentSize (buffer : MessageBuffer Label) : Nat :=
  if buffer.timeLastTimePop < config.sender.clockEdge buffer.now 0 then buffer.prioHeap.length
  else if buffer.timeLastTimeEnqueue < config.sender.curCycle buffer.now then
    buffer.sizeAtCycleStart
  else buffer.sizeAtCycleStart + buffer.msgsThisCycle

def areNSlotsAvailable (buffer : MessageBuffer Label) (n : Nat) : Bool :=
  config.maxSize == 0 || decide (buffer.currentSize config + n ≤ config.maxSize)

/-- The arrival time of a message that is enqueued now, and the last one that it is compared with.
With randomization the delay is a random number of cycles. -/
def arrivalTime (buffer : MessageBuffer Label) (delta random : Nat) : Nat × Nat :=
  let currentTime := config.sender.clockEdge buffer.now 0
  if config.randomization then
    if config.strictFifo then
      let last := max buffer.lastArrivalTime currentTime
      (last + random * config.sender.period, last)
    else (currentTime + random * config.sender.period, buffer.lastArrivalTime)
  else (currentTime + delta * config.sender.period, buffer.lastArrivalTime)

def enqueue (buffer : MessageBuffer Label) (message : Message Label) (delta random : Nat) :
    Except Fault (MessageBuffer Label) :=
  let currentTime := config.sender.clockEdge buffer.now 0
  let first := buffer.timeLastTimeEnqueue < config.sender.curCycle buffer.now
  let (arrival, last) := buffer.arrivalTime config delta random
  if delta = 0 ∨ arrival ≤ currentTime then .error .assertion
  else if config.strictFifo ∧ arrival < last then .error .panic
  else do
    let message ← message.updateDelayedTicks currentTime
    return { buffer with
      timeLastTimeEnqueue := if first then config.sender.curCycle buffer.now
        else buffer.timeLastTimeEnqueue
      msgsThisCycle := (if first then 0 else buffer.msgsThisCycle) + 1
      msgCounter := buffer.msgCounter + 1
      lastArrivalTime := if config.warmup then last else arrival
      prioHeap := pushHeap ⟨arrival, buffer.msgCounter + 1,
        { message with lastEnqueueTime := arrival }⟩ buffer.prioHeap }

/-- The front of the heap, which must be ready. -/
def readyFront (buffer : MessageBuffer Label) :
    Except Fault (MessageBufferNode Label × List (MessageBufferNode Label)) :=
  match buffer.prioHeap with
  | [] => .error .assertion
  | front :: rest =>
    if front.time ≤ config.receiver.clockEdge buffer.now 0 then .ok (front, rest)
    else .error .assertion

/-- The message that is dequeued, the cycles that it was delayed for, and the buffer without it. -/
def dequeue (buffer : MessageBuffer Label) :
    Except Fault (Message Label × Nat × MessageBuffer Label) := do
  let (front, rest) ← buffer.readyFront config
  let edge := config.receiver.clockEdge buffer.now 0
  let message ← front.msg.updateDelayedTicks edge
  let first := buffer.timeLastTimePop < edge
  return (message, config.receiver.ticksToCycles message.delayedTicks, { buffer with
    sizeAtCycleStart := if first then buffer.prioHeap.length else buffer.sizeAtCycleStart
    timeLastTimePop := if first then edge else buffer.timeLastTimePop
    prioHeap := rest })

def recycle (buffer : MessageBuffer Label) : Except Fault (MessageBuffer Label) := do
  let (front, rest) ← buffer.readyFront config
  return { buffer with
    prioHeap := pushHeap
      { front with time := config.receiver.clockEdge buffer.now config.recycleLatency } rest }

def reanalyzeMessage (nextTick : Nat) (buffer : MessageBuffer Label) (message : Message Label) :
    MessageBuffer Label :=
  { buffer with
    msgCounter := buffer.msgCounter + 1
    prioHeap := pushHeap ⟨nextTick, buffer.msgCounter + 1, message⟩ buffer.prioHeap }

def reanalyzeList (buffer : MessageBuffer Label) (messages : List (Message Label))
    (nextTick : Nat) : MessageBuffer Label :=
  messages.foldl (reanalyzeMessage nextTick) buffer

def reanalyzeMessages (buffer : MessageBuffer Label) (addr : Nat) :
    Except Fault (MessageBuffer Label) :=
  let messages := buffer.stallMsgMap.messagesAt addr
  if messages.isEmpty then .error .assertion
  else .ok { buffer.reanalyzeList messages (config.receiver.clockEdge buffer.now 1) with
    stallMsgMap := buffer.stallMsgMap.remove addr }

def reanalyzeAllMessages (buffer : MessageBuffer Label) : MessageBuffer Label :=
  { buffer.stallMsgMap.foldl (fun buffer entry =>
      buffer.reanalyzeList entry.2 (config.receiver.clockEdge buffer.now 1)) buffer with
    stallMsgMap := [] }

def stallMessage (buffer : MessageBuffer Label) (addr : Nat) :
    Except Fault (MessageBuffer Label) := do
  let (_, _) ← buffer.readyFront config
  if addr % config.blockSize = 0 then
    let (message, _, buffer) ← buffer.dequeue config
    return { buffer with stallMsgMap := buffer.stallMsgMap.pushBack addr message }
  else .error .assertion

inductive Call (Label : Type) where
  | wait (ticks : Nat)
  | enqueue (message : Message Label) (delta random : Nat)
  | dequeue
  | stallMessage (addr : Nat)
  | recycle
  | reanalyzeMessages (addr : Nat)
  | reanalyzeAllMessages

def step (buffer : MessageBuffer Label) : Call Label → Except Fault (MessageBuffer Label)
  | .wait ticks => .ok { buffer with now := buffer.now + ticks }
  | .enqueue message delta random => buffer.enqueue config message delta random
  | .dequeue => do
    let (_, _, buffer) ← buffer.dequeue config
    return buffer
  | .stallMessage addr => buffer.stallMessage config addr
  | .recycle => buffer.recycle config
  | .reanalyzeMessages addr => buffer.reanalyzeMessages config addr
  | .reanalyzeAllMessages => .ok (buffer.reanalyzeAllMessages config)

/-! ### What the calls do -/

variable {config : Config} {buffer next : MessageBuffer Label}

theorem enqueue_inversion {message : Message Label} {delta random : Nat}
    (taken : buffer.enqueue config message delta random = .ok next) :
    (config.strictFifo = true → (buffer.arrivalTime config delta random).2 ≤
      (buffer.arrivalTime config delta random).1) ∧
    ∃ sent : Message Label, sent.label = message.label ∧ sent.addr = message.addr ∧
      next = { buffer with
        timeLastTimeEnqueue :=
          if buffer.timeLastTimeEnqueue < config.sender.curCycle buffer.now then
            config.sender.curCycle buffer.now else buffer.timeLastTimeEnqueue
        msgsThisCycle := (if buffer.timeLastTimeEnqueue < config.sender.curCycle buffer.now then 0
          else buffer.msgsThisCycle) + 1
        msgCounter := buffer.msgCounter + 1
        lastArrivalTime := if config.warmup then (buffer.arrivalTime config delta random).2
          else (buffer.arrivalTime config delta random).1
        prioHeap := pushHeap ⟨(buffer.arrivalTime config delta random).1, buffer.msgCounter + 1,
          sent⟩ buffer.prioHeap } := by
  rw [enqueue] at taken
  dsimp only at taken
  obtain ⟨-, taken⟩ := else_eq_ok taken
  obtain ⟨inOrder, taken⟩ := else_eq_ok taken
  obtain ⟨_, counted, rfl⟩ := map_eq_ok taken
  rw [Message.updateDelayedTicks] at counted
  obtain ⟨-, counted⟩ := then_eq_ok counted
  cases counted
  refine ⟨fun strict => Nat.le_of_not_lt fun less => inOrder ⟨strict, less⟩, _, ?_, ?_, rfl⟩
  · rfl
  · rfl

theorem readyFront_inversion {front : MessageBufferNode Label}
    {rest : List (MessageBufferNode Label)} (taken : buffer.readyFront config = .ok (front, rest)) :
    buffer.prioHeap = front :: rest := by
  rw [readyFront] at taken
  split at taken
  · cases taken
  · rename_i heap
    split at taken
    · cases taken
      exact heap
    · cases taken

theorem dequeue_inversion {message : Message Label} {delay : Nat}
    (taken : buffer.dequeue config = .ok (message, delay, next)) :
    ∃ front rest, buffer.prioHeap = front :: rest ∧ message.label = front.msg.label ∧
      message.addr = front.msg.addr ∧ next = { buffer with
        sizeAtCycleStart := if buffer.timeLastTimePop < config.receiver.clockEdge buffer.now 0
          then buffer.prioHeap.length else buffer.sizeAtCycleStart
        timeLastTimePop := if buffer.timeLastTimePop < config.receiver.clockEdge buffer.now 0
          then config.receiver.clockEdge buffer.now 0 else buffer.timeLastTimePop
        prioHeap := rest } := by
  obtain ⟨⟨front, rest⟩, ready, taken⟩ := bind_eq_ok taken
  obtain ⟨_, counted, taken⟩ := bind_eq_ok taken
  cases taken
  rw [Message.updateDelayedTicks] at counted
  split at counted
  · cases counted
    exact ⟨front, rest, readyFront_inversion ready, rfl, rfl, rfl⟩
  · cases counted

theorem stallMessage_inversion {addr : Nat} (taken : buffer.stallMessage config addr = .ok next) :
    ∃ message delay middle, buffer.dequeue config = .ok (message, delay, middle) ∧
      next = { middle with stallMsgMap := middle.stallMsgMap.pushBack addr message } := by
  obtain ⟨_, _, taken⟩ := bind_eq_ok taken
  dsimp only at taken
  split at taken
  · obtain ⟨⟨message, delay, middle⟩, dequeued, rfl⟩ := map_eq_ok taken
    exact ⟨message, delay, middle, dequeued, rfl⟩
  · cases taken

/-! ### The bound on the heap -/

/-- The heap keeps its bound. If something was popped in the sender's cycle, there are at most the
messages from before the first pop and those that were enqueued in the cycle. -/
structure Within (config : Config) (buffer : MessageBuffer Label) : Prop where
  bound : buffer.prioHeap.length ≤ config.maxSize
  popped : buffer.timeLastTimePop ≤ config.sender.clockEdge buffer.now 0
  shown : config.sender.clockEdge buffer.now 0 ≤ buffer.timeLastTimePop →
    buffer.prioHeap.length ≤ buffer.sizeAtCycleStart +
      if buffer.timeLastTimeEnqueue < config.sender.curCycle buffer.now then 0
      else buffer.msgsThisCycle

namespace Within

variable (within : Within config buffer)

include within

/-- The sender is not shown less than there is. -/
theorem le_currentSize : buffer.prioHeap.length ≤ buffer.currentSize config := by
  rw [currentSize]
  split
  · exact le_refl _
  · rename_i popped
    have shown := within.shown (Nat.le_of_not_lt popped)
    split at shown
    · rename_i first
      rw [if_pos first]
      exact shown
    · rename_i again
      rw [if_neg again]
      exact shown

theorem wait (ticks : Nat) : Within config { buffer with now := buffer.now + ticks } := by
  have later := config.sender.clockEdge_mono (Nat.le_add_right buffer.now ticks) 0
  refine ⟨within.bound, le_trans within.popped later, fun shown => ?_⟩
  have same : config.sender.clockEdge buffer.now 0 =
      config.sender.clockEdge (buffer.now + ticks) 0 :=
    le_antisymm later (le_trans shown within.popped)
  have before := within.shown (le_trans later shown)
  rw [Nat.eq_of_mul_eq_mul_right config.sender.positive (Nat.add_right_cancel same)] at before
  exact before

theorem enqueue (bounded : 0 < config.maxSize) {message : Message Label} {delta random : Nat}
    (available : buffer.areNSlotsAvailable config 1 = true)
    (taken : buffer.enqueue config message delta random = .ok next) : Within config next := by
  obtain ⟨_, sent, _, _, rfl⟩ := enqueue_inversion taken
  rw [areNSlotsAvailable, Bool.or_eq_true, beq_iff_eq, decide_eq_true_eq] at available
  have length : (pushHeap ⟨(buffer.arrivalTime config delta random).1, buffer.msgCounter + 1, sent⟩
      buffer.prioHeap).length = buffer.prioHeap.length + 1 := orderedInsert_length ..
  refine ⟨?_, within.popped, fun popped => ?_⟩
  · have fits := within.le_currentSize
    dsimp only
    omega
  · have shown := within.shown popped
    dsimp only
    split at shown
    · rename_i first
      rw [if_pos first, if_neg (lt_irrefl _), if_pos first]
      omega
    · rename_i again
      rw [if_neg again, if_neg again, if_neg again]
      omega

theorem dequeue {message : Message Label} {delay : Nat}
    (edges : config.receiver.clockEdge buffer.now 0 ≤ config.sender.clockEdge buffer.now 0)
    (taken : buffer.dequeue config = .ok (message, delay, next)) : Within config next := by
  obtain ⟨_, rest, heap, _, _, rfl⟩ := dequeue_inversion taken
  have length : buffer.prioHeap.length = rest.length + 1 := congrArg length heap
  have bound := within.bound
  refine ⟨?_, ?_, fun popped => ?_⟩
  · dsimp only
    omega
  · split
    · exact edges
    · exact within.popped
  · dsimp only at popped ⊢
    split at popped
    · rename_i first
      rw [if_pos first]
      omega
    · rename_i again
      have shown := within.shown popped
      rw [if_neg again]
      omega

theorem recycle (taken : buffer.recycle config = .ok next) : Within config next := by
  obtain ⟨⟨front, rest⟩, ready, rfl⟩ := map_eq_ok taken
  have length : (pushHeap { front with
      time := config.receiver.clockEdge buffer.now config.recycleLatency } rest).length =
      buffer.prioHeap.length := by
    rw [readyFront_inversion ready]
    exact orderedInsert_length ..
  refine ⟨?_, within.popped, fun popped => ?_⟩
  · exact length.trans_le within.bound
  · exact length.trans_le (within.shown popped)

end Within

theorem reanalyzeList_frame (messages : List (Message Label)) (nextTick : Nat)
    (buffer : MessageBuffer Label) : ∃ heap counter,
      buffer.reanalyzeList messages nextTick =
        { buffer with prioHeap := heap, msgCounter := counter } ∧
      heap.length = buffer.prioHeap.length + messages.length := by
  induction messages generalizing buffer with
  | nil => exact ⟨_, _, rfl, rfl⟩
  | cons message _ hypothesis =>
    obtain ⟨heap, counter, same, length⟩ :=
      hypothesis (buffer.reanalyzeMessage nextTick message)
    refine ⟨heap, counter, same, length.trans ?_⟩
    have one : (buffer.reanalyzeMessage nextTick message).prioHeap.length =
        buffer.prioHeap.length + 1 := orderedInsert_length ..
    rw [one, length_cons]
    omega

theorem reanalyzeAll_frame (entries : StallMsgMap Label) (buffer : MessageBuffer Label) :
    ∃ heap counter, entries.foldl (fun buffer entry =>
        buffer.reanalyzeList entry.2 (config.receiver.clockEdge buffer.now 1)) buffer =
        { buffer with prioHeap := heap, msgCounter := counter } ∧
      heap.length = buffer.prioHeap.length + (entries.map (·.2.length)).sum := by
  induction entries generalizing buffer with
  | nil => exact ⟨_, _, rfl, rfl⟩
  | cons entry _ hypothesis =>
    obtain ⟨middle, between, first, _⟩ := reanalyzeList_frame entry.2
      (config.receiver.clockEdge buffer.now 1) buffer
    obtain ⟨heap, counter, same, length⟩ := hypothesis
      { buffer with prioHeap := middle, msgCounter := between }
    rw [foldl_cons, first]
    refine ⟨heap, counter, same, length.trans ?_⟩
    rw [map_cons, sum_cons]
    dsimp only
    omega

theorem Within.putBack (within : Within config buffer)
    (unpopped : buffer.timeLastTimePop < config.sender.clockEdge buffer.now 0)
    {heap : List (MessageBufferNode Label)} (fits : heap.length ≤ config.maxSize) (counter : Nat)
    (stalled : StallMsgMap Label) : Within config { buffer with
      prioHeap := heap, msgCounter := counter, stallMsgMap := stalled } :=
  ⟨fits, within.popped, fun popped => absurd popped (Nat.not_le_of_lt unpopped)⟩

/-- A message is enqueued when there is a slot for it; one is popped when the next edge of the
receiver's clock does not come after the sender's; and messages are put back when there is room for
them and nothing was popped in the sender's cycle. -/
def Careful (config : Config) (buffer : MessageBuffer Label) : Call Label → Prop
  | .enqueue .. => buffer.areNSlotsAvailable config 1 = true
  | .dequeue | .stallMessage _ =>
    config.receiver.clockEdge buffer.now 0 ≤ config.sender.clockEdge buffer.now 0
  | .reanalyzeMessages addr =>
    buffer.timeLastTimePop < config.sender.clockEdge buffer.now 0 ∧
      buffer.prioHeap.length + (buffer.stallMsgMap.messagesAt addr).length ≤ config.maxSize
  | .reanalyzeAllMessages =>
    buffer.timeLastTimePop < config.sender.clockEdge buffer.now 0 ∧
      buffer.prioHeap.length + (buffer.stallMsgMap.map (·.2.length)).sum ≤ config.maxSize
  | .wait _ | .recycle => True

instance (buffer : MessageBuffer Label) :
    (call : Call Label) → Decidable (buffer.Careful config call)
  | .enqueue .. => inferInstanceAs (Decidable (_ = true))
  | .dequeue | .stallMessage _ => inferInstanceAs (Decidable (_ ≤ _))
  | .reanalyzeMessages _ | .reanalyzeAllMessages => inferInstanceAs (Decidable (_ ∧ _))
  | .wait _ | .recycle => .isTrue trivial

def Checked (config : Config) (buffer : MessageBuffer Label) : Call Label → Prop
  | .enqueue .. => buffer.areNSlotsAvailable config 1 = true
  | _ => True

instance (buffer : MessageBuffer Label) :
    (call : Call Label) → Decidable (buffer.Checked config call)
  | .enqueue .. => inferInstanceAs (Decidable (_ = true))
  | .dequeue | .stallMessage _ | .reanalyzeMessages _ | .reanalyzeAllMessages | .wait _
  | .recycle => .isTrue trivial

theorem Within.step (within : Within config buffer) (bounded : 0 < config.maxSize)
    {call : Call Label} (careful : buffer.Careful config call)
    (taken : buffer.step config call = .ok next) : Within config next := by
  cases call with
  | wait ticks =>
    cases taken
    exact within.wait ticks
  | enqueue => exact within.enqueue bounded careful taken
  | dequeue =>
    obtain ⟨_, dequeued, rfl⟩ := map_eq_ok taken
    exact within.dequeue careful dequeued
  | stallMessage =>
    obtain ⟨_, _, _, dequeued, rfl⟩ := stallMessage_inversion taken
    exact { within.dequeue careful dequeued with }
  | recycle => exact within.recycle taken
  | reanalyzeMessages addr =>
    rw [MessageBuffer.step, reanalyzeMessages] at taken
    obtain ⟨-, taken⟩ := else_eq_ok taken
    cases taken
    obtain ⟨_, counter, same, length⟩ := reanalyzeList_frame
      (buffer.stallMsgMap.messagesAt addr) (config.receiver.clockEdge buffer.now 1) buffer
    rw [same]
    exact within.putBack careful.1 (length.trans_le careful.2) counter _
  | reanalyzeAllMessages =>
    cases taken
    obtain ⟨_, counter, same, length⟩ := reanalyzeAll_frame buffer.stallMsgMap buffer
    rw [reanalyzeAllMessages, same]
    exact within.putBack careful.1 (length.trans_le careful.2) counter _

/-- The heap never has more messages than it may have. -/
theorem heap_within_max_size (config : Config) (bounded : 0 < config.maxSize)
    {calls : List (Call Label)} {final : MessageBuffer Label}
    (run : Run (step config) (Careful config) initial calls final) :
    final.prioHeap.length ≤ config.maxSize := by
  have within : Within config final :=
    run.invariant (Within config) (fun within careful taken =>
      within.step bounded careful taken) ⟨Nat.zero_le _, Nat.zero_le _, fun _ => Nat.zero_le _⟩
  exact within.bound

/-- A buffer without randomization. -/
def plain (sender receiver : Clock) (maxSize : Nat) : Config where
  sender := sender
  receiver := receiver
  maxSize := maxSize
  strictFifo := true
  randomization := false
  warmup := false
  recycleLatency := 1
  blockSize := 1

/-- The clocks are the same, and there is room for one message. -/
def sameClocks : Config := plain ⟨1, by decide⟩ ⟨1, by decide⟩ 1

/-- The sender has ten cycles for one of the receiver's, and there is room for three messages. -/
def fasterSender : Config := plain ⟨1, by decide⟩ ⟨10, by decide⟩ 3

/-- A message is stalled, another one is enqueued, and the first one is put back. -/
def refill : List (Call Unit) :=
  [.enqueue ⟨(), 0, 0, 0⟩ 1 0, .wait 1, .stallMessage 0, .wait 1, .enqueue ⟨(), 0, 0, 0⟩ 1 0,
    .reanalyzeMessages 0]

/-- A message is popped before the receiver's next edge, and the sender has three cycles until
then. -/
def outpace : List (Call Unit) :=
  [.enqueue ⟨(), 0, 0, 0⟩ 1 0, .enqueue ⟨(), 0, 0, 0⟩ 1 0, .wait 1, .dequeue, .wait 1,
    .enqueue ⟨(), 0, 0, 0⟩ 1 0, .wait 1, .enqueue ⟨(), 0, 0, 0⟩ 1 0, .wait 1,
    .enqueue ⟨(), 0, 0, 0⟩ 1 0]

/-- The heap gets too many messages when stalled ones are put back, and when the sender's clock is
the faster one, although each message is enqueued when there is a slot for it. -/
theorem heap_exceeds_max_size :
    (∃ final : MessageBuffer Unit, Run (step sameClocks) (Checked sameClocks) initial refill
      final ∧ sameClocks.maxSize < final.prioHeap.length) ∧
    ∃ final : MessageBuffer Unit, Run (step fasterSender) (Checked fasterSender) initial outpace
      final ∧ fasterSender.maxSize < final.prioHeap.length := by
  constructor
  · exact Run.exists_check (by decide +kernel)
  · exact Run.exists_check (by decide +kernel)

theorem heap_within_max_size_stalled : ∃ final : MessageBuffer Unit,
    Run (step sameClocks) (Careful sameClocks) initial (refill.take 5) final ∧
      final.prioHeap.length ≤ sameClocks.maxSize := by
  exact Run.exists_checked (fun _ => True)
    (by decide +kernel) fun _ run _ => heap_within_max_size _ (by decide) run

end MessageBuffer

end Gem5.Ruby.Buffer
