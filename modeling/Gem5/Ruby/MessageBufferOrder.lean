/-
This file follows the messages for one address through a message buffer: those that
were enqueued are those that were dequeued, then those that are stalled, then those in
the heap, in this order. It needs that no message for the address is in the heap with
an earlier time when stalled ones are put back, and that none is enqueued for an
earlier time than one that was put back; otherwise a younger message comes first.
Whatever the calls are, no message is lost.
-/

import Gem5.Library.Insertion
import Gem5.Ruby.MessageBuffer

namespace Gem5.Ruby.Buffer

open Library List

variable {Label : Type}

/-! ### The map of stalled messages -/

namespace StallMsgMap

variable {stalled : StallMsgMap Label} {addr other : Nat}

/-- The addresses ascend. -/
def Ascending (stalled : StallMsgMap Label) : Prop :=
  stalled.Pairwise fun first second => first.1 < second.1

theorem messagesAt_of_above (above : ∀ entry ∈ stalled, addr < entry.1) :
    stalled.messagesAt addr = [] := by
  induction stalled with
  | nil => rfl
  | cons entry _ hypothesis =>
    have first := above entry mem_cons_self
    rw [messagesAt, if_neg (ne_of_lt first)]
    exact hypothesis fun other member => above other (mem_cons_of_mem entry member)

theorem mem_pushBack {message : Message Label} {entry : Nat × List (Message Label)}
    (member : entry ∈ stalled.pushBack addr message) :
    entry.1 = addr ∨ ∃ before ∈ stalled, before.1 = entry.1 := by
  induction stalled with
  | nil => exact .inl (congrArg Prod.fst (mem_singleton.mp member))
  | cons _ _ hypothesis =>
    rw [pushBack] at member
    split at member
    · rename_i same
      rcases mem_cons.mp member with rfl | later
      · exact .inl same.symm
      · exact .inr ⟨entry, mem_cons_of_mem _ later, rfl⟩
    · split at member
      · rcases mem_cons.mp member with rfl | later
        · exact .inl rfl
        · exact .inr ⟨entry, later, rfl⟩
      · rcases mem_cons.mp member with rfl | later
        · exact .inr ⟨_, mem_cons_self, rfl⟩
        · rcases hypothesis later with same | ⟨before, among, same⟩
          · exact .inl same
          · exact .inr ⟨before, mem_cons_of_mem _ among, same⟩

section

variable (ascending : stalled.Ascending)
include ascending

theorem Ascending.pushBack (message : Message Label) :
    (stalled.pushBack addr message).Ascending := by
  induction stalled with
  | nil => exact pairwise_singleton _ _
  | cons _ _ hypothesis =>
    obtain ⟨least, ascending⟩ := pairwise_cons.mp ascending
    rw [StallMsgMap.pushBack]
    split
    · exact pairwise_cons.mpr ⟨least, ascending⟩
    · split
      · rename_i before
        refine pairwise_cons.mpr ⟨fun entry member => ?_, pairwise_cons.mpr
          ⟨least, ascending⟩⟩
        rcases mem_cons.mp member with rfl | later
        · exact before
        · exact lt_trans before (least entry later)
      · refine pairwise_cons.mpr ⟨fun entry member => ?_, hypothesis ascending⟩
        rcases mem_pushBack member with same | ⟨before, among, same⟩
        · omega
        · exact same ▸ least before among

theorem Ascending.remove : (stalled.remove addr).Ascending :=
  List.Pairwise.filter _ ascending

theorem messagesAt_pushBack (message : Message Label) (other : Nat) :
    (stalled.pushBack addr message).messagesAt other =
      stalled.messagesAt other ++ if other = addr then [message] else [] := by
  induction stalled with
  | nil => exact (nil_append _).symm
  | cons _ _ hypothesis =>
    obtain ⟨least, ascending⟩ := pairwise_cons.mp ascending
    rw [pushBack]
    split
    · grind [messagesAt]
    · split
      · rename_i before
        have none := messagesAt_of_above fun entry member => lt_trans before (least entry member)
        grind [messagesAt]
      · have rest := hypothesis ascending
        grind [messagesAt]

end

theorem messagesAt_remove : (stalled.remove addr).messagesAt other =
    if other = addr then [] else stalled.messagesAt other := by
  induction stalled with
  | nil => exact (ite_self _).symm
  | cons first _ hypothesis =>
    rw [remove] at hypothesis
    rw [remove, filter_cons]
    grind [messagesAt]

end StallMsgMap

/-! ### The heap -/

instance : IsTrans (MessageBufferNode Label) MessageBufferNode.Precedes where
  trans first second third left right := by
    rw [MessageBufferNode.Precedes] at *
    omega

instance : Std.Total (MessageBufferNode.Precedes : MessageBufferNode Label → _ → Prop) where
  total first second := by
    rw [MessageBufferNode.Precedes, MessageBufferNode.Precedes]
    omega

def MessageBufferNode.isFor (addr : Nat) (node : MessageBufferNode Label) : Bool :=
  node.msg.addr == addr

namespace MessageBuffer

variable {config : Config} {buffer next : MessageBuffer Label} {addr : Nat}

/-- The nodes of the heap that are for an address, in their order. -/
def heapAt (buffer : MessageBuffer Label) (addr : Nat) : List (MessageBufferNode Label) :=
  buffer.prioHeap.filter (MessageBufferNode.isFor addr)

theorem mem_heapAt {node : MessageBufferNode Label} :
    node ∈ buffer.heapAt addr ↔ node ∈ buffer.prioHeap ∧ node.msg.addr = addr := by
  rw [heapAt, mem_filter, MessageBufferNode.isFor, beq_iff_eq]

structure Sorted (buffer : MessageBuffer Label) : Prop where
  inOrder : buffer.prioHeap.Pairwise MessageBufferNode.Precedes
  counted : ∀ node ∈ buffer.prioHeap, node.msgCounter ≤ buffer.msgCounter

/-- The buffer with one more message in the heap. -/
def withNode (buffer : MessageBuffer Label) (time : Nat) (message : Message Label) :
    MessageBuffer Label :=
  { buffer with
    prioHeap := pushHeap ⟨time, buffer.msgCounter + 1, message⟩ buffer.prioHeap
    msgCounter := buffer.msgCounter + 1 }

theorem Sorted.withNode (sorted : buffer.Sorted) (time : Nat) (message : Message Label) :
    (buffer.withNode time message).Sorted := by
  refine ⟨sorted.inOrder.orderedInsert _ _, fun node member => ?_⟩
  rcases (mem_orderedInsert _).mp member with rfl | old
  · exact le_refl _
  · exact Nat.le_succ_of_le (sorted.counted node old)

theorem Sorted.heapAt_withNode (sorted : buffer.Sorted) {time : Nat} {message : Message Label}
    {before after : List (MessageBufferNode Label)}
    (split : buffer.heapAt message.addr = before ++ after)
    (low : ∀ node ∈ before, node.time ≤ time) (high : ∀ node ∈ after, time < node.time) :
    (buffer.withNode time message).heapAt message.addr =
      before ++ ⟨time, buffer.msgCounter + 1, message⟩ :: after := by
  refine filter_orderedInsert sorted.inOrder (beq_self_eq_true _) split (fun node member => ?_)
    fun node member => .inl (high node member)
  have counted := sorted.counted node
    (mem_heapAt.mp (split ▸ mem_append_left after member)).1
  have early := low node member
  rw [MessageBufferNode.Precedes]
  dsimp only
  omega

theorem heapAt_withNode_other {time : Nat} {message : Message Label} (apart : message.addr ≠ addr) :
    (buffer.withNode time message).heapAt addr = buffer.heapAt addr :=
  filter_orderedInsert_other _ (beq_false_of_ne apart)

theorem Sorted.reanalyzeList (sorted : buffer.Sorted) {messages : List (Message Label)}
    (all : ∀ message ∈ messages, message.addr = addr) {nextTick : Nat}
    {before after : List (MessageBufferNode Label)} (split : buffer.heapAt addr = before ++ after)
    (low : ∀ node ∈ before, node.time ≤ nextTick) (high : ∀ node ∈ after, nextTick < node.time) :
    (buffer.reanalyzeList messages nextTick).Sorted ∧
      ((buffer.reanalyzeList messages nextTick).heapAt addr).map (·.msg.label) =
        before.map (·.msg.label) ++ messages.map (·.label) ++ after.map (·.msg.label) ∧
      ∀ other, other ≠ addr →
        (buffer.reanalyzeList messages nextTick).heapAt other = buffer.heapAt other := by
  induction messages generalizing buffer before with
  | nil =>
    refine ⟨sorted, ?_, fun _ _ => rfl⟩
    rw [MessageBuffer.reanalyzeList, foldl_nil, split, map_nil, append_nil, map_append]
  | cons message _ hypothesis =>
    have here := all message mem_cons_self
    subst here
    have placed := sorted.heapAt_withNode split low high
    obtain ⟨later, labels, others⟩ := hypothesis (sorted.withNode nextTick message)
      (fun other member => all other (mem_cons_of_mem message member))
      (placed.trans (append_cons ..)) (fun node member => by
        rcases mem_append.mp member with old | new
        · exact low node old
        · rw [mem_singleton.mp new])
    refine ⟨later, labels.trans ?_, fun other apart => ?_⟩
    · simp
    · exact (others other apart).trans (heapAt_withNode_other (Ne.symm apart))

end MessageBuffer

/-! ### The messages for an address -/

/-- A buffer with the addresses and labels of the messages that were enqueued and dequeued. -/
structure History (Label : Type) where
  buffer : MessageBuffer Label
  enqueued : List (Nat × Label)
  dequeued : List (Nat × Label)

namespace History

open MessageBuffer

def initial : History Label := ⟨.initial, [], []⟩

def arrivals : Call Label → List (Nat × Label)
  | .enqueue message _ _ => [(message.addr, message.label)]
  | .wait _ | .dequeue | .stallMessage _ | .recycle | .reanalyzeMessages _
  | .reanalyzeAllMessages => []

def departures (buffer : MessageBuffer Label) : Call Label → List (Nat × Label)
  | .dequeue => (buffer.prioHeap.take 1).map fun front => (front.msg.addr, front.msg.label)
  | .wait _ | .enqueue .. | .stallMessage _ | .recycle | .reanalyzeMessages _
  | .reanalyzeAllMessages => []

def step (config : Config) (history : History Label) (call : Call Label) :
    Except Fault (History Label) := do
  let next ← history.buffer.step config call
  return ⟨next, history.enqueued ++ arrivals call,
    history.dequeued ++ departures history.buffer call⟩

def labelsAt (addr : Nat) (messages : List (Nat × Label)) : List Label :=
  (messages.filter (·.1 == addr)).map Prod.snd

theorem labelsAt_append (addr : Nat) (first second : List (Nat × Label)) :
    labelsAt addr (first ++ second) = labelsAt addr first ++ labelsAt addr second := by
  rw [labelsAt, filter_append, map_append]
  rfl

/-- Nothing is recycled, a message is stalled for its own address, and one is not dequeued while
others for its address are stalled. -/
def Disciplined (buffer : MessageBuffer Label) : Call Label → Prop
  | .dequeue => ∀ front ∈ buffer.prioHeap.head?, buffer.stallMsgMap.messagesAt front.msg.addr = []
  | .stallMessage addr => ∀ front ∈ buffer.prioHeap.head?, front.msg.addr = addr
  | .recycle | .reanalyzeAllMessages => False
  | .wait _ | .enqueue .. | .reanalyzeMessages _ => True

/-- Stalled messages are put back before all others for their address, and a message that is
enqueued does not arrive before one that was put back. -/
def Unovertaken (config : Config) (buffer : MessageBuffer Label) : Call Label → Prop
  | .enqueue message delta random => ∀ node ∈ buffer.prioHeap, node.msg.addr = message.addr →
      buffer.lastArrivalTime < node.time → node.time ≤ (buffer.arrivalTime config delta random).1
  | .reanalyzeMessages addr => ∀ node ∈ buffer.prioHeap, node.msg.addr = addr →
      config.receiver.clockEdge buffer.now 1 < node.time
  | .wait _ | .dequeue | .stallMessage _ | .recycle | .reanalyzeAllMessages => True

instance [DecidableEq Label] (buffer : MessageBuffer Label) :
    (call : Call Label) → Decidable (Disciplined buffer call)
  | .dequeue => inferInstanceAs (Decidable (∀ front ∈ _, _ = []))
  | .stallMessage _ => inferInstanceAs (Decidable (∀ front ∈ _, _ = _))
  | .recycle | .reanalyzeAllMessages => .isFalse id
  | .wait _ | .enqueue .. | .reanalyzeMessages _ => .isTrue trivial

instance (config : Config) (buffer : MessageBuffer Label) :
    (call : Call Label) → Decidable (Unovertaken config buffer call)
  | .enqueue .. => inferInstanceAs (Decidable (∀ node ∈ _, _ → _ → _))
  | .reanalyzeMessages _ => inferInstanceAs (Decidable (∀ node ∈ _, _ → _))
  | .wait _ | .dequeue | .stallMessage _ | .recycle | .reanalyzeAllMessages => .isTrue trivial

structure InOrder (history : History Label) : Prop where
  sorted : history.buffer.Sorted
  ascending : history.buffer.stallMsgMap.Ascending
  stalled : ∀ addr, ∀ message ∈ history.buffer.stallMsgMap.messagesAt addr, message.addr = addr
  order : ∀ addr, labelsAt addr history.enqueued = labelsAt addr history.dequeued ++
    ((history.buffer.stallMsgMap.messagesAt addr).map (·.label) ++
      (history.buffer.heapAt addr).map (·.msg.label))

namespace InOrder

variable {config : Config} {history : History Label} {next : MessageBuffer Label}

theorem labelsAt_singleton (addr other : Nat) (label : Label) :
    labelsAt addr [(other, label)] = if other = addr then [label] else [] := by
  by_cases here : other = addr <;> simp [labelsAt, here]

theorem lastArrivalTime_le (config : Config) (buffer : MessageBuffer Label) (delta random : Nat) :
    buffer.lastArrivalTime ≤ (buffer.arrivalTime config delta random).2 := by
  rw [arrivalTime]
  split
  · split
    · exact le_max_left _ _
    · exact le_refl _
  · exact le_refl _

theorem enqueue (inOrder : history.InOrder) (strict : config.strictFifo = true)
    {message : Message Label} {delta random : Nat}
    (unovertaken : Unovertaken config history.buffer (.enqueue message delta random))
    (taken : history.buffer.enqueue config message delta random = .ok next) :
    InOrder ⟨next, history.enqueued ++ [(message.addr, message.label)], history.dequeued⟩ := by
  obtain ⟨fifo, sent, label, target, rfl⟩ := enqueue_inversion taken
  have arrives := le_trans (lastArrivalTime_le config history.buffer delta random) (fifo strict)
  have low : ∀ node ∈ history.buffer.heapAt sent.addr,
      node.time ≤ (history.buffer.arrivalTime config delta random).1 := by
    intro node member
    obtain ⟨among, same⟩ := mem_heapAt.mp member
    by_cases later : history.buffer.lastArrivalTime < node.time
    · exact unovertaken node among (same.trans target) later
    · exact le_trans (Nat.le_of_not_lt later) arrives
  have placed := inOrder.sorted.heapAt_withNode (append_nil _).symm low nofun
  refine ⟨{ inOrder.sorted.withNode _ sent with }, inOrder.ascending, inOrder.stalled,
    fun addr => ?_⟩
  rw [labelsAt_append, inOrder.order addr, append_assoc, append_assoc]
  refine congrArg _ (congrArg _ ?_)
  by_cases here : sent.addr = addr
  · subst here
    refine Eq.trans ?_ (congrArg (map (·.msg.label)) placed).symm
    rw [labelsAt_singleton, if_pos target.symm, map_append, ← label]
    rfl
  · rw [labelsAt_singleton, if_neg (target ▸ here), append_nil]
    exact congrArg (map (·.msg.label)) (heapAt_withNode_other here).symm

variable {front : MessageBufferNode Label} {rest : List (MessageBufferNode Label)}

theorem heapAt_cons {buffer : MessageBuffer Label} (heap : buffer.prioHeap = front :: rest)
    (addr : Nat) : buffer.heapAt addr = (if front.msg.addr = addr then [front] else []) ++
      rest.filter (MessageBufferNode.isFor addr) := by
  by_cases here : front.msg.addr = addr <;> simp [heapAt, heap, MessageBufferNode.isFor, here]

theorem sorted_rest {buffer : MessageBuffer Label} (heap : buffer.prioHeap = front :: rest)
    (sorted : buffer.Sorted) :
    rest.Pairwise MessageBufferNode.Precedes ∧
      ∀ node ∈ rest, node.msgCounter ≤ buffer.msgCounter := by
  obtain ⟨inOrder, counted⟩ := sorted
  rw [heap] at inOrder counted
  exact ⟨(pairwise_cons.mp inOrder).2,
    fun node member => counted node (mem_cons_of_mem front member)⟩

theorem dequeue (inOrder : history.InOrder) {message : Message Label} {delay : Nat}
    (disciplined : Disciplined history.buffer .dequeue)
    (taken : history.buffer.dequeue config = .ok (message, delay, next)) :
    InOrder ⟨next, history.enqueued,
      history.dequeued ++ departures history.buffer .dequeue⟩ := by
  obtain ⟨front, _, heap, _, _, rfl⟩ := dequeue_inversion taken
  obtain ⟨sorted, counted⟩ := sorted_rest heap inOrder.sorted
  have none := disciplined front (by rw [heap]; rfl)
  have gone : departures history.buffer .dequeue = [(front.msg.addr, front.msg.label)] := by
    rw [departures, heap]
    rfl
  refine ⟨⟨sorted, counted⟩, inOrder.ascending, inOrder.stalled, fun addr => ?_⟩
  rw [gone, labelsAt_append, inOrder.order addr, append_assoc, labelsAt_singleton,
    heapAt_cons heap]
  refine congrArg _ ?_
  split
  · rename_i here
    rw [← here, none]
    rfl
  · rfl

theorem stall (inOrder : history.InOrder) {addr : Nat}
    (disciplined : Disciplined history.buffer (.stallMessage addr))
    (taken : history.buffer.stallMessage config addr = .ok next) :
    InOrder ⟨next, history.enqueued, history.dequeued⟩ := by
  obtain ⟨message, _, _, dequeued, rfl⟩ := stallMessage_inversion taken
  obtain ⟨front, _, heap, label, target, rfl⟩ := dequeue_inversion dequeued
  obtain ⟨sorted, counted⟩ := sorted_rest heap inOrder.sorted
  have same : front.msg.addr = addr := disciplined front (by rw [heap]; rfl)
  refine ⟨⟨sorted, counted⟩, inOrder.ascending.pushBack message, fun other => ?_, fun other => ?_⟩
  · have before := inOrder.stalled other
    rw [StallMsgMap.messagesAt_pushBack inOrder.ascending]
    grind
  · rw [inOrder.order other, StallMsgMap.messagesAt_pushBack inOrder.ascending, heapAt_cons heap,
      same]
    refine congrArg _ ?_
    by_cases here : other = addr
    · rw [if_pos here, if_pos here.symm, map_append, map_append, append_assoc, map_singleton,
        map_singleton, label]
      rfl
    · rw [if_neg here, if_neg (Ne.symm here), append_nil]
      rfl

theorem reanalyze (inOrder : history.InOrder) {addr : Nat}
    (unovertaken : Unovertaken config history.buffer (.reanalyzeMessages addr))
    (taken : history.buffer.reanalyzeMessages config addr = .ok next) :
    InOrder ⟨next, history.enqueued, history.dequeued⟩ := by
  rw [reanalyzeMessages] at taken
  obtain ⟨-, taken⟩ := else_eq_ok taken
  cases taken
  obtain ⟨sorted, labels, others⟩ := inOrder.sorted.reanalyzeList (inOrder.stalled addr)
    (nil_append _).symm (forall_mem_nil _) fun node member =>
      unovertaken node (mem_heapAt.mp member).1 (mem_heapAt.mp member).2
  refine ⟨{ sorted with }, inOrder.ascending.remove, fun other => ?_, fun other => ?_⟩
  · rw [StallMsgMap.messagesAt_remove]
    split
    · exact forall_mem_nil _
    · exact inOrder.stalled other
  · rw [inOrder.order other, StallMsgMap.messagesAt_remove]
    refine congrArg _ ?_
    split <;> rename_i here
    · subst here
      exact labels.symm
    · exact congrArg (fun nodes => _ ++ map (·.msg.label) nodes) (others other here).symm

end InOrder

variable {config : Config} {history next : History Label}

theorem InOrder.step (inOrder : history.InOrder) (strict : config.strictFifo = true)
    {call : Call Label} (disciplined : Disciplined history.buffer call)
    (unovertaken : Unovertaken config history.buffer call)
    (taken : history.step config call = .ok next) : next.InOrder := by
  obtain ⟨_, called, rfl⟩ := map_eq_ok taken
  cases call with
  | wait =>
    cases called
    rw [arrivals, departures, append_nil, append_nil]
    exact { inOrder with sorted := { inOrder.sorted with } }
  | enqueue =>
    rw [departures, append_nil]
    exact inOrder.enqueue strict unovertaken called
  | dequeue =>
    obtain ⟨_, dequeued, rfl⟩ := map_eq_ok called
    rw [arrivals, append_nil]
    exact inOrder.dequeue disciplined dequeued
  | stallMessage =>
    rw [arrivals, departures, append_nil, append_nil]
    exact inOrder.stall disciplined called
  | reanalyzeMessages =>
    rw [arrivals, departures, append_nil, append_nil]
    exact inOrder.reanalyze unovertaken called
  | recycle => exact disciplined.elim
  | reanalyzeAllMessages => exact disciplined.elim

/-- The messages for an address are dequeued in the order in which they were enqueued. -/
theorem dequeued_in_order (strict : config.strictFifo = true) {calls : List (Call Label)}
    {final : History Label}
    (run : Run (step config) (fun history call => Disciplined history.buffer call ∧
      Unovertaken config history.buffer call) initial calls final) (addr : Nat) :
    labelsAt addr final.dequeued <+: labelsAt addr final.enqueued := by
  have inOrder : final.InOrder :=
    run.invariant InOrder (fun inOrder meets taken =>
      inOrder.step strict meets.1 meets.2 taken)
      ⟨⟨.nil, nofun⟩, .nil, nofun, fun _ => rfl⟩
  exact ⟨_, (inOrder.order addr).symm⟩

/-- Two messages for one address arrive; the first one is stalled and put back. -/
def putBack : List (Call Nat) :=
  [.enqueue ⟨1, 0, 0, 0⟩ 1 0, .enqueue ⟨2, 0, 0, 0⟩ 1 0, .wait 1, .stallMessage 0,
    .reanalyzeMessages 0, .dequeue, .wait 1, .dequeue]

/-- The second message is dequeued first. -/
theorem younger_message_first : ∃ final : History Nat,
    Run (step sameClocks) (fun history call => Disciplined history.buffer call) initial putBack
      final ∧ labelsAt 0 final.enqueued = [1, 2] ∧ labelsAt 0 final.dequeued = [2, 1] := by
  exact Run.exists_check (by decide +kernel)

/-- If both messages are stalled before they are put back, they are dequeued in order. -/
theorem dequeued_in_order_stalled : ∃ final : History Nat,
    Run (step sameClocks) (fun history call => Disciplined history.buffer call ∧
      Unovertaken sameClocks history.buffer call) initial
      [.enqueue ⟨1, 0, 0, 0⟩ 1 0, .enqueue ⟨2, 0, 0, 0⟩ 1 0, .wait 1, .stallMessage 0,
        .stallMessage 0, .reanalyzeMessages 0, .wait 1, .dequeue, .dequeue] final ∧
    labelsAt 0 final.dequeued = [1, 2] ∧
    labelsAt 0 final.dequeued <+: labelsAt 0 final.enqueued := by
  exact Run.exists_checked (fun final => labelsAt 0 final.dequeued = [1, 2])
    (by decide +kernel) fun _ run checked => ⟨checked, dequeued_in_order rfl run 0⟩

end History

/-! ### The messages that the buffer holds -/

def Message.key (message : Message Label) : Nat × Label := (message.addr, message.label)

namespace StallMsgMap

variable {stalled : StallMsgMap Label}

def messages (stalled : StallMsgMap Label) : Multiset (Message Label) :=
  (stalled.flatMap Prod.snd : List (Message Label))

theorem messages_cons (entry : Nat × List (Message Label)) :
    messages (entry :: stalled) = entry.2 + stalled.messages := by
  rw [messages, flatMap_cons, ← Multiset.coe_add, messages]

theorem messages_pushBack (addr : Nat) (message : Message Label) :
    (stalled.pushBack addr message).messages = message ::ₘ stalled.messages := by
  induction stalled with
  | nil => rfl
  | cons entry rest hypothesis =>
    rw [pushBack]
    split
    · rw [messages_cons, messages_cons, ← Multiset.coe_add, add_right_comm, add_comm]
      rfl
    · split
      · rw [messages_cons, ← Multiset.singleton_add]
        rfl
      · rw [messages_cons, hypothesis, messages_cons, Multiset.add_cons]

theorem Ascending.messages_remove (ascending : stalled.Ascending) (addr : Nat) :
    stalled.messages = stalled.messagesAt addr + (stalled.remove addr).messages := by
  induction stalled with
  | nil => rfl
  | cons entry rest hypothesis =>
    obtain ⟨least, ascending⟩ := pairwise_cons.mp ascending
    rw [messages_cons, messagesAt, StallMsgMap.remove, filter_cons]
    by_cases here : addr = entry.1
    · have others : rest.filter (·.1 ≠ addr) = rest := filter_eq_self.mpr fun other member =>
        decide_eq_true (here ▸ (least other member).ne')
      rw [if_pos here, if_neg (by simp [here]), others]
    · rw [if_neg here, if_pos (by simp [Ne.symm here]), messages_cons, hypothesis ascending,
        add_left_comm]
      rfl

end StallMsgMap

namespace MessageBuffer

variable {config : Config} {buffer : MessageBuffer Label}

def heapMessages (heap : List (MessageBufferNode Label)) : Multiset (Message Label) :=
  (heap.map (·.msg) : List (Message Label))

/-- The addresses and labels of the messages in the heap and in the map. -/
def held (buffer : MessageBuffer Label) : Multiset (Nat × Label) :=
  (heapMessages buffer.prioHeap + buffer.stallMsgMap.messages).map Message.key

theorem heapMessages_cons (node : MessageBufferNode Label) (heap : List (MessageBufferNode Label)) :
    heapMessages (node :: heap) = node.msg ::ₘ heapMessages heap := rfl

theorem heapMessages_pushHeap (node : MessageBufferNode Label)
    (heap : List (MessageBufferNode Label)) :
    heapMessages (pushHeap node heap) = node.msg ::ₘ heapMessages heap :=
  Multiset.coe_eq_coe.mpr ((perm_orderedInsert _ node heap).map _)

theorem heapMessages_reanalyzeList (messages : List (Message Label)) (nextTick : Nat)
    (buffer : MessageBuffer Label) :
    heapMessages (buffer.reanalyzeList messages nextTick).prioHeap =
      messages + heapMessages buffer.prioHeap := by
  induction messages generalizing buffer with
  | nil => exact (zero_add _).symm
  | cons message rest hypothesis =>
    rw [reanalyzeList, foldl_cons]
    refine (hypothesis _).trans ?_
    rw [reanalyzeMessage, heapMessages_pushHeap, Multiset.add_cons, ← Multiset.cons_coe,
      Multiset.cons_add]

theorem heapMessages_reanalyzeAll (entries : StallMsgMap Label) (buffer : MessageBuffer Label) :
    heapMessages (entries.foldl (fun buffer entry => buffer.reanalyzeList entry.2
      (config.receiver.clockEdge buffer.now 1)) buffer).prioHeap =
      entries.messages + heapMessages buffer.prioHeap := by
  induction entries generalizing buffer with
  | nil => exact (zero_add _).symm
  | cons entry rest hypothesis =>
    rw [foldl_cons, hypothesis, heapMessages_reanalyzeList, StallMsgMap.messages_cons,
      add_left_comm, add_assoc]

end MessageBuffer

namespace History

open MessageBuffer

variable {config : Config} {history next : History Label}

structure Conserved (history : History Label) : Prop where
  ascending : history.buffer.stallMsgMap.Ascending
  all : (history.enqueued : Multiset (Nat × Label)) = history.dequeued + history.buffer.held

theorem Conserved.step (conserved : history.Conserved) {call : Call Label}
    (taken : history.step config call = .ok next) : next.Conserved := by
  obtain ⟨buffer, called, rfl⟩ := map_eq_ok taken
  suffices step : buffer.stallMsgMap.Ascending ∧
      arrivals call + history.buffer.held = departures history.buffer call + buffer.held by
    refine ⟨step.1, ?_⟩
    rw [← Multiset.coe_add, ← Multiset.coe_add, conserved.all, add_assoc, add_comm (held _),
      step.2, add_assoc]
  cases call with
  | wait =>
    cases called
    exact ⟨conserved.ascending, rfl⟩
  | enqueue =>
    obtain ⟨-, sent, label, target, rfl⟩ := enqueue_inversion called
    refine ⟨conserved.ascending, ?_⟩
    simp [held, heapMessages_pushHeap, arrivals, departures, Message.key, label, target]
  | dequeue =>
    obtain ⟨⟨_, _, _⟩, dequeued, rfl⟩ := map_eq_ok called
    obtain ⟨front, rest, heap, -, -, rfl⟩ := dequeue_inversion dequeued
    refine ⟨conserved.ascending, ?_⟩
    simp [held, heap, heapMessages_cons, arrivals, departures, Message.key]
  | stallMessage =>
    obtain ⟨message, _, _, dequeued, rfl⟩ := stallMessage_inversion called
    obtain ⟨front, rest, heap, label, target, rfl⟩ := dequeue_inversion dequeued
    refine ⟨conserved.ascending.pushBack message, ?_⟩
    simp [held, heap, heapMessages_cons, StallMsgMap.messages_pushBack, arrivals, departures,
      Message.key, label, target]
  | recycle =>
    obtain ⟨⟨front, rest⟩, ready, rfl⟩ := map_eq_ok called
    refine ⟨conserved.ascending, ?_⟩
    simp [held, readyFront_inversion ready, heapMessages_cons, heapMessages_pushHeap, arrivals,
      departures]
  | reanalyzeMessages addr =>
    rw [MessageBuffer.step, reanalyzeMessages] at called
    obtain ⟨-, called⟩ := else_eq_ok called
    cases called
    refine ⟨conserved.ascending.remove, ?_⟩
    rw [held, conserved.ascending.messages_remove addr, held, heapMessages_reanalyzeList,
      add_left_comm, add_assoc]
    rfl
  | reanalyzeAllMessages =>
    cases called
    refine ⟨.nil, ?_⟩
    rw [held, held, reanalyzeAllMessages, heapMessages_reanalyzeAll, add_comm (heapMessages _)]
    exact congrArg _ (congrArg _ (add_zero _).symm)

/-- No message is lost and none is made up, whatever is stalled, put back or recycled. -/
theorem messages_conserved {calls : List (Call Label)} {final : History Label}
    (run : Run (step config) (fun _ _ => True) initial calls final) :
    (final.enqueued : Multiset (Nat × Label)) = final.dequeued + final.buffer.held := by
  have conserved : final.Conserved := run.invariant Conserved
    (fun conserved _ taken => conserved.step taken) ⟨.nil, rfl⟩
  exact conserved.all

/-- One message is dequeued, one is put back and recycled, and one is stalled. -/
theorem messages_conserved_stalled : ∃ final : History Nat,
    Run (step sameClocks) (fun _ _ => True) initial
      [.enqueue ⟨1, 0, 0, 0⟩ 1 0, .enqueue ⟨2, 0, 0, 0⟩ 1 0, .enqueue ⟨3, 64, 0, 0⟩ 1 0, .wait 1,
        .stallMessage 0, .dequeue, .stallMessage 64, .reanalyzeMessages 0, .wait 1, .recycle]
      final ∧ final.dequeued = [(0, 2)] ∧
    (final.enqueued : Multiset (Nat × Nat)) = final.dequeued + final.buffer.held := by
  exact Run.exists_checked (fun final => final.dequeued = [(0, 2)]) (by decide +kernel)
    fun _ run checked => ⟨checked, messages_conserved run⟩

end History

end Gem5.Ruby.Buffer
