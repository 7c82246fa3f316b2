/-
This file models the DMA port (`dev/dma_device.cc`) with the chunk generator that splits an action
into packets. The packets of an action share one state object that counts the bytes of the
responses; all packets wait in one list that is sent from three places. It proves for every
interleaving that the packets of an action cut its range in order, that its event is scheduled once
and when its last response comes, and that the port never sits on a packet.
-/

import Gem5.Library.Run
import Mathlib

namespace Gem5.Dev.Dma

open Library List Function

/-! ### Chunks -/

/-- `roundUp` for an alignment that is a power of two. -/
def roundUp (val align : Nat) : Nat := (val + (align - 1)) / align * align

structure ChunkGenerator where
  curAddr : Nat
  nextAddr : Nat
  curSize : Nat
  sizeLeft : Nat
  startAddr : Nat
  chunkSize : Nat

namespace ChunkGenerator

def create (startAddr totalSize chunkSize : Nat) : ChunkGenerator :=
  let nextAddr :=
    if chunkSize = 0 then startAddr + totalSize
    else if startAddr = roundUp startAddr chunkSize then roundUp startAddr chunkSize + chunkSize
    else roundUp startAddr chunkSize
  let curSize := min totalSize (nextAddr - startAddr)
  ⟨startAddr, nextAddr, curSize, totalSize - curSize, startAddr, chunkSize⟩

def complete (gen : ChunkGenerator) : Nat := gen.curAddr - gen.startAddr

def done (gen : ChunkGenerator) : Bool := gen.curSize == 0

def next (gen : ChunkGenerator) : ChunkGenerator :=
  if gen.sizeLeft = 0 then { gen with curSize := 0 }
  else
    let curSize := min gen.sizeLeft gen.chunkSize
    { gen with
      curAddr := gen.nextAddr, curSize, sizeLeft := gen.sizeLeft - curSize
      nextAddr := gen.nextAddr + curSize }

/-- The chunk that is current and those that follow make up the range up to `stop`. -/
structure Sound (gen : ChunkGenerator) (stop : Nat) : Prop where
  rest : gen.curAddr + gen.curSize + gen.sizeLeft = stop
  next : 0 < gen.sizeLeft → gen.nextAddr = gen.curAddr + gen.curSize ∧ 0 < gen.chunkSize
  current : 0 < gen.curSize

theorem lt_nextAddr (startAddr chunkSize : Nat) {totalSize : Nat} (positive : 0 < totalSize) :
    startAddr < (create startAddr totalSize chunkSize).nextAddr := by
  unfold create
  by_cases whole : chunkSize = 0
  · simp only [if_pos whole]
    omega
  · have rounded : startAddr ≤ roundUp startAddr chunkSize := by
      have division := Nat.div_add_mod' (startAddr + (chunkSize - 1)) chunkSize
      have small := Nat.mod_lt (startAddr + (chunkSize - 1)) (Nat.pos_of_ne_zero whole)
      unfold roundUp
      omega
    simp only [if_neg whole]
    split <;> omega

theorem sound_create (startAddr chunkSize : Nat) {totalSize : Nat} (positive : 0 < totalSize) :
    (create startAddr totalSize chunkSize).Sound (startAddr + totalSize) := by
  have after := lt_nextAddr startAddr chunkSize positive
  constructor <;> grind [create]

theorem Sound.advance {gen : ChunkGenerator} {stop : Nat} (sound : gen.Sound stop)
    (more : 0 < gen.sizeLeft) :
    gen.next.Sound stop ∧ gen.next.curAddr = gen.curAddr + gen.curSize := by
  obtain ⟨_, next, _⟩ := sound
  obtain ⟨following, positive⟩ := next more
  have moved : gen.next = ⟨gen.nextAddr, gen.nextAddr + min gen.sizeLeft gen.chunkSize,
      min gen.sizeLeft gen.chunkSize, gen.sizeLeft - min gen.sizeLeft gen.chunkSize,
      gen.startAddr, gen.chunkSize⟩ := if_neg (by omega)
  rw [moved]
  refine ⟨⟨?_, fun _ => ⟨rfl, positive⟩, ?_⟩, following⟩
  · dsimp only
    omega
  · dsimp only
    omega

end ChunkGenerator

/-! ### Packets and actions -/

/-- What the caller of `dmaAction` gives; `data` is a position in its buffer. -/
structure DmaAction where
  addr : Nat
  size : Nat
  event : Option Nat
  data : Option Nat
  delay : Nat

/-- A packet, with the number of the action whose state it carries. -/
structure Packet where
  addr : Nat
  size : Nat
  data : Option Nat
  senderState : Nat
  deriving DecidableEq

structure DmaReqState where
  completionEvent : Option Nat
  totBytes : Nat
  numBytes : Nat
  delay : Nat

/-- The loop of `dmaAction` over the chunks. -/
def packetLoop (action : DmaAction) (number : Nat) : Nat → ChunkGenerator → List Packet
  | 0, _ => []
  | fuel + 1, gen =>
    if gen.done then []
    else ⟨gen.curAddr, gen.curSize, action.data.map (· + gen.complete), number⟩ ::
      packetLoop action number fuel gen.next

/-- Every chunk has a byte, so there are at most as many as the action has bytes. -/
def DmaAction.packets (action : DmaAction) (number cacheLineSize : Nat) : List Packet :=
  packetLoop action number action.size
    (.create action.addr action.size cacheLineSize)

/-- The packets cut the range of the action from an address on, each with the data at its
offset. -/
def DmaAction.Covers (action : DmaAction) (number : Nat) : Nat → List Packet → Prop
  | addr, [] => addr = action.addr + action.size
  | addr, pkt :: rest =>
    pkt = ⟨addr, pkt.size, action.data.map (· + (addr - action.addr)), number⟩ ∧ 0 < pkt.size ∧
      action.Covers number (addr + pkt.size) rest

variable {action : DmaAction} {number : Nat}

theorem covers_packetLoop (fuel : Nat) {gen : ChunkGenerator}
    (sound : gen.Sound (action.addr + action.size)) (started : gen.startAddr = action.addr)
    (enough : gen.curSize + gen.sizeLeft ≤ fuel) :
    action.Covers number gen.curAddr (packetLoop action number fuel gen) := by
  induction fuel generalizing gen with
  | zero => exact absurd sound.current (by omega)
  | succ fuel hypothesis =>
    have current := sound.current
    have notDone : ¬ gen.done = true := by simpa [ChunkGenerator.done] using Nat.ne_of_gt current
    rw [packetLoop, if_neg notDone]
    refine ⟨by rw [ChunkGenerator.complete, started], current, ?_⟩
    by_cases more : gen.sizeLeft = 0
    · have finished : packetLoop action number fuel gen.next = [] := by
        rw [ChunkGenerator.next, if_pos more]
        cases fuel <;> rfl
      have rest := sound.rest
      rw [finished]
      exact (by omega : gen.curAddr + gen.curSize = action.addr + action.size)
    · obtain ⟨kept, moved⟩ := sound.advance (Nat.pos_of_ne_zero more)
      have kept_start : gen.next.startAddr = gen.startAddr := by
        unfold ChunkGenerator.next
        split <;> rfl
      rw [← moved]
      refine hypothesis kept (kept_start.trans started) ?_
      have total := sound.rest
      have left := kept.rest
      omega

theorem covers_packets (positive : 0 < action.size) (number cacheLineSize : Nat) :
    action.Covers number action.addr (action.packets number cacheLineSize) := by
  have sound := ChunkGenerator.sound_create action.addr cacheLineSize positive
  refine covers_packetLoop _ sound rfl ?_
  have rest := sound.rest
  have started : (ChunkGenerator.create action.addr action.size cacheLineSize).curAddr =
      action.addr := rfl
  omega

/-- The bytes of an action that the listed packets ask for. -/
def bytes (packets : List Packet) (number : Nat) : Nat :=
  ((packets.filter (·.senderState = number)).map Packet.size).sum

theorem bytes_append (first second : List Packet) :
    bytes (first ++ second) number = bytes first number + bytes second number := by
  simp [bytes]

theorem bytes_cons (pkt : Packet) (rest : List Packet) :
    bytes (pkt :: rest) number =
      (if pkt.senderState = number then pkt.size else 0) + bytes rest number := by
  unfold bytes
  split <;> rename_i same <;> simp [same]

theorem bytes_eq_zero_iff {packets : List Packet} (positive : ∀ pkt ∈ packets, 0 < pkt.size)
    (number : Nat) : bytes packets number = 0 ↔ ∀ pkt ∈ packets, pkt.senderState ≠ number := by
  induction packets with
  | nil => simp [bytes]
  | cons _ _ hypothesis => grind [bytes_cons]

namespace DmaAction.Covers

theorem of_number {addr : Nat} {packets : List Packet}
    (covers : action.Covers number addr packets) :
    ∀ pkt ∈ packets, pkt.senderState = number ∧ 0 < pkt.size := by
  induction packets generalizing addr with
  | nil => exact fun pkt member => absurd member not_mem_nil
  | cons _ _ hypothesis =>
    obtain ⟨shape, positive, covered⟩ := covers
    intro pkt member
    rcases mem_cons.mp member with rfl | later
    · exact ⟨congrArg Packet.senderState shape, positive⟩
    · exact hypothesis covered pkt later

theorem bytes_eq {addr : Nat} {packets : List Packet} (covers : action.Covers number addr packets) :
    addr + bytes packets number = action.addr + action.size := by
  induction packets generalizing addr with
  | nil => exact covers
  | cons first rest hypothesis =>
    have own := (of_number covers first mem_cons_self).1
    have rest := hypothesis covers.2.2
    rw [bytes_cons, if_pos own]
    omega

end DmaAction.Covers

/-! ### The port -/

inductive Fault where
  | assertion
  deriving DecidableEq

/-- An event of a device that was scheduled for an action, after a delay. -/
structure Completion where
  number : Nat
  event : Nat
  delay : Nat
  deriving DecidableEq

/-- The mode and the cache line size, which the chunk generator asserts to be a power of two or
zero. -/
structure System where
  timingMode : Bool
  cacheLineSize : Nat
  powerOfTwo : cacheLineSize = 0 ∨ ∃ k, cacheLineSize = 2 ^ k

/-- The port with the state objects of the actions, by number; a deleted one is gone. The lists
after them are what has happened: the actions, the packets that were queued, those that were sent
and wait for a response, those that had one, and the events that were scheduled. -/
structure DmaPort where
  transmitList : List Packet
  sendEvent : Bool
  inRetry : Bool
  pendingCount : Nat
  states : Nat → Option DmaReqState
  actions : List DmaAction
  queued : List Packet
  outstanding : List Packet
  answered : List Packet
  scheduled : List Completion

namespace DmaPort

def start : DmaPort := ⟨[], false, false, 0, fun _ => none, [], [], [], [], []⟩

/-- The actions in flight share no event, so that the one that is scheduled here is not scheduled
yet, as `schedule` asserts. -/
def handleResp (port : DmaPort) (pkt : Packet) (delay : Nat) : Except Fault DmaPort :=
  match port.states pkt.senderState with
  | none => .error .assertion
  | some state =>
    if port.pendingCount = 0 then .error .assertion
    else if state.totBytes < state.numBytes + pkt.size then .error .assertion
    else
      let answered := port.answered ++ [pkt]
      let pendingCount := port.pendingCount - 1
      if state.totBytes = state.numBytes + pkt.size then
        .ok { port with
          answered, pendingCount, states := update port.states pkt.senderState none
          scheduled := port.scheduled ++ state.completionEvent.toList.map
            (⟨pkt.senderState, ·, delay + state.delay⟩) }
      else
        .ok { port with
          answered, pendingCount
          states := update port.states pkt.senderState
            (some { state with numBytes := state.numBytes + pkt.size }) }

def queueDma (port : DmaPort) (pkt : Packet) : DmaPort :=
  { port with
    transmitList := port.transmitList ++ [pkt], pendingCount := port.pendingCount + 1
    queued := port.queued ++ [pkt] }

/-- With the answer of the peer. -/
def trySendTimingReq (port : DmaPort) (accepts : Bool) : Except Fault DmaPort :=
  match port.transmitList with
  | [] => .error .assertion
  | first :: rest =>
    if accepts then
      let port := { port with
        transmitList := rest, inRetry := false, outstanding := port.outstanding ++ [first] }
      if rest = [] then .ok port
      else if port.sendEvent then .error .assertion
      else .ok { port with sendEvent := true }
    else .ok { port with inRetry := true }

/-- The loop of the atomic mode over the transmit list, with the latencies that `sendAtomic`
returns. -/
def sendAtomics (latency : Packet → Nat) : List Packet → DmaPort → Except Fault DmaPort
  | [], port => .ok port
  | pkt :: rest, port => do
    let port ← { port with transmitList := rest }.handleResp pkt (latency pkt)
    sendAtomics latency rest port

def sendDma (system : System) (port : DmaPort) (accepts : Bool) (latency : Packet → Nat) :
    Except Fault DmaPort :=
  if port.transmitList = [] then .error .assertion
  else if system.timingMode then
    if port.inRetry || port.sendEvent then .ok port else port.trySendTimingReq accepts
  else sendAtomics latency port.transmitList port

def recvReqRetry (port : DmaPort) (accepts : Bool) : Except Fault DmaPort :=
  if port.transmitList = [] then .error .assertion else port.trySendTimingReq accepts

/-- The state object of an action is made and its packets are queued. -/
def queueAction (system : System) (port : DmaPort) (action : DmaAction) : DmaPort :=
  let number := port.actions.length
  (action.packets number system.cacheLineSize).foldl queueDma { port with
    actions := port.actions ++ [action]
    states := update port.states number
      (some ⟨action.event, action.size, 0, action.delay⟩) }

def dmaAction (system : System) (port : DmaPort) (action : DmaAction) (accepts : Bool)
    (latency : Packet → Nat) : Except Fault DmaPort :=
  (port.queueAction system action).sendDma system accepts latency

inductive Call where
  | dmaAction (action : DmaAction) (accepts : Bool) (latency : Packet → Nat)
  | sendEvent (accepts : Bool) (latency : Packet → Nat)
  | recvReqRetry (accepts : Bool)
  | recvTimingResp (index : Nat)

/-- A response is for one of the packets that wait for one. -/
def step (system : System) (port : DmaPort) : Call → Except Fault DmaPort
  | .dmaAction action accepts latency => port.dmaAction system action accepts latency
  | .sendEvent accepts latency => { port with sendEvent := false }.sendDma system accepts latency
  | .recvReqRetry accepts => port.recvReqRetry accepts
  | .recvTimingResp index =>
    match port.outstanding[index]? with
    | none => .error .assertion
    | some pkt => { port with outstanding := port.outstanding.eraseIdx index }.handleResp pkt 0

def Allowed (port : DmaPort) : Call → Prop
  | .dmaAction action _ _ => 0 < action.size
  | .sendEvent _ _ => port.sendEvent = true
  | .recvReqRetry _ => port.inRetry = true
  | .recvTimingResp index => index < port.outstanding.length

instance (port : DmaPort) (call : Call) : Decidable (port.Allowed call) :=
  match call with
  | .dmaAction .. | .recvTimingResp _ => inferInstanceAs (Decidable (_ < _))
  | .sendEvent .. | .recvReqRetry _ => inferInstanceAs (Decidable (_ = _))

/-! ### What the state objects count -/

def events (scheduled : List Completion) (number : Nat) : List Nat :=
  (scheduled.filter (·.number = number)).map Completion.event

/-- While packets of an action wait its state object lacks their bytes; after that the object is
gone and the event is scheduled. -/
def Counted (waiting : List Packet) (states : Nat → Option DmaReqState)
    (scheduled : List Completion) (number : Nat) (action : DmaAction) : Prop :=
  (∃ numBytes, states number = some ⟨action.event, action.size, numBytes, action.delay⟩ ∧
    numBytes + bytes waiting number = action.size ∧ 0 < bytes waiting number ∧
    events scheduled number = []) ∨
  (states number = none ∧ bytes waiting number = 0 ∧
    events scheduled number = action.event.toList)

structure Accounted (actions : List DmaAction) (waiting : List Packet)
    (states : Nat → Option DmaReqState) (scheduled : List Completion) : Prop where
  known : ∀ pkt ∈ waiting, pkt.senderState < actions.length ∧ 0 < pkt.size
  past : ∀ completion ∈ scheduled, completion.number < actions.length
  counted : ∀ number action, actions[number]? = some action →
    Counted waiting states scheduled number action

theorem events_append_map (scheduled : List Completion) (number other delay : Nat)
    (event : Option Nat) :
    events (scheduled ++ event.toList.map (⟨number, ·, delay⟩)) other =
      events scheduled other ++ if number = other then event.toList else [] := by
  unfold events
  by_cases same : number = other <;> cases event <;> simp [same]

theorem Accounted.perm {actions : List DmaAction} {waiting other : List Packet}
    {states : Nat → Option DmaReqState} {scheduled : List Completion}
    (accounted : Accounted actions waiting states scheduled) (same : waiting.Perm other) :
    Accounted actions other states scheduled := by
  obtain ⟨known, past, counted⟩ := accounted
  refine ⟨fun pkt member => known pkt (same.mem_iff.mpr member), past,
    fun number action found => ?_⟩
  have now := counted number action found
  rw [Counted, bytes, ((same.filter _).map _).sum_nat] at now
  exact now

theorem handleResp_spec (port : DmaPort) {pkt : Packet} {rest : List Packet}
    (accounted : Accounted port.actions (pkt :: rest) port.states port.scheduled)
    (pending : port.pendingCount ≠ 0) (delay : Nat) :
    ∃ states scheduled, port.handleResp pkt delay = .ok { port with
        answered := port.answered ++ [pkt], pendingCount := port.pendingCount - 1
        states, scheduled } ∧
      Accounted port.actions rest states scheduled := by
  obtain ⟨known, past, counted⟩ := accounted
  obtain ⟨below, _⟩ := known pkt mem_cons_self
  have found := getElem?_eq_getElem below
  obtain ⟨numBytes, state, total, -, none⟩ | ⟨-, zero, -⟩ := counted _ _ found
  · rw [bytes_cons, if_pos rfl] at total
    have enough : ¬ port.actions[pkt.senderState].size < numBytes + pkt.size := by omega
    have others : ∀ member ∈ rest, member.senderState < port.actions.length ∧ 0 < member.size :=
      fun member later => known member (mem_cons_of_mem _ later)
    have elsewhere : ∀ number, number ≠ pkt.senderState →
        bytes (pkt :: rest) number = bytes rest number := by
      intro number other
      rw [bytes_cons, if_neg (Ne.symm other), Nat.zero_add]
    simp only [handleResp, state, if_neg pending, if_neg enough]
    by_cases last : port.actions[pkt.senderState].size = numBytes + pkt.size
    · refine ⟨_, _, if_pos last, others, ?_, fun number action at_number => ?_⟩
      · intro completion member
        rcases mem_append.mp member with earlier | now
        · exact past completion earlier
        · obtain ⟨_, -, rfl⟩ := mem_map.mp now
          exact below
      · rw [Counted, events_append_map]
        by_cases same : number = pkt.senderState
        · subst same
          cases found.symm.trans at_number
          exact .inr ⟨update_self .., by omega, by rw [none, if_pos rfl]; rfl⟩
        · rw [update_of_ne same, if_neg (Ne.symm same), append_nil, ← elsewhere number same]
          exact counted number action at_number
    · refine ⟨_, port.scheduled, if_neg last, others, past, fun number action at_number => ?_⟩
      rw [Counted]
      by_cases same : number = pkt.senderState
      · subst same
        cases found.symm.trans at_number
        exact .inl ⟨numBytes + pkt.size, update_self .., by omega, by omega, none⟩
      · rw [update_of_ne same, ← elsewhere number same]
        exact counted number action at_number
  · rw [bytes_cons, if_pos rfl] at zero
    omega

/-! ### The invariant -/

/-- What the port knows of its packets. -/
structure Records (port : DmaPort) : Prop where
  accounted : Accounted port.actions (port.transmitList ++ port.outstanding) port.states
    port.scheduled
  pending : port.pendingCount = port.transmitList.length + port.outstanding.length
  once : port.queued.Perm (port.transmitList ++ port.outstanding ++ port.answered)
  numbered : ∀ pkt ∈ port.queued, pkt.senderState < port.actions.length
  covered : ∀ number (action : DmaAction), port.actions[number]? = some action →
    action.Covers number action.addr (port.queued.filter (·.senderState = number))

/-- In timing mode what is queued waits for a retry or for the event, and not for both; in atomic
mode nothing is left over. -/
def Driven (system : System) (port : DmaPort) : Prop :=
  if system.timingMode then
    (port.transmitList ≠ [] ↔ port.inRetry = true ∨ port.sendEvent = true) ∧
      ¬ (port.inRetry = true ∧ port.sendEvent = true)
  else port.transmitList = [] ∧ port.outstanding = [] ∧ port.inRetry = false ∧
    port.sendEvent = false

structure Sound (system : System) (port : DmaPort) : Prop where
  records : port.Records
  driven : port.Driven system

variable {port : DmaPort} {system : System}

theorem foldl_queueDma (packets : List Packet) :
    packets.foldl queueDma port = { port with
      transmitList := port.transmitList ++ packets
      pendingCount := port.pendingCount + packets.length, queued := port.queued ++ packets } := by
  induction packets generalizing port with
  | nil => simp
  | cons _ _ hypothesis =>
    rw [foldl_cons, hypothesis]
    simp [queueDma, Nat.add_assoc, Nat.add_comm 1]

theorem Accounted.queue {actions : List DmaAction} {waiting packets : List Packet}
    {states : Nat → Option DmaReqState} {scheduled : List Completion}
    (accounted : Accounted actions waiting states scheduled) {action : DmaAction}
    (covers : action.Covers actions.length action.addr packets) (positive : 0 < action.size) :
    Accounted (actions ++ [action]) (waiting ++ packets)
      (update states actions.length (some ⟨action.event, action.size, 0, action.delay⟩))
      scheduled := by
  obtain ⟨known, past, counted⟩ := accounted
  have own := covers.of_number
  refine ⟨by grind, by grind, fun number other found => ?_⟩
  rw [Counted, bytes_append]
  by_cases last : number = actions.length
  · subst last
    have same : other = action := by simpa using found.symm
    have before : bytes waiting actions.length = 0 :=
      (bytes_eq_zero_iff (fun pkt member => (known pkt member).2) _).mpr fun pkt member =>
        Nat.ne_of_lt (known pkt member).1
    have none : events scheduled actions.length = [] := by
      rw [events, map_eq_nil_iff, filter_eq_nil_iff]
      exact fun completion member => by simpa using Nat.ne_of_lt (past completion member)
    have total := covers.bytes_eq
    subst same
    exact .inl ⟨0, update_self .., by omega, by omega, none⟩
  · have earlier : actions[number]? = some other := by grind
    have added : bytes packets number = 0 :=
      (bytes_eq_zero_iff (fun pkt member => (own pkt member).2) _).mpr fun pkt member same =>
        last (same.symm.trans (own pkt member).1)
    rw [update_of_ne last, added, Nat.add_zero]
    exact counted number other earlier

section

variable (records : port.Records)
include records

theorem Records.queueAction (system : System) {action : DmaAction} (positive : 0 < action.size) :
    (port.queueAction system action).Records ∧
      (port.queueAction system action).transmitList ≠ [] := by
  have covers := covers_packets positive port.actions.length system.cacheLineSize
  have own := covers.of_number
  obtain ⟨accounted, _, once, numbered, covered⟩ := records
  rw [DmaPort.queueAction, foldl_queueDma]
  generalize action.packets port.actions.length system.cacheLineSize = packets at *
  have joined : (port.transmitList ++ port.outstanding ++ packets).Perm
      (port.transmitList ++ packets ++ port.outstanding) := by
    rw [append_assoc, append_assoc]
    exact perm_append_comm.append_left _
  refine ⟨⟨(accounted.queue covers positive).perm joined, ?_, ?_, ?_, ?_⟩, ?_⟩
  · simp only [length_append]
    omega
  · refine ((once.append_right packets).trans ?_).trans (joined.append_right _)
    rw [append_assoc, append_assoc (_ ++ _)]
    exact perm_append_comm.append_left _
  · grind
  · intro number other found
    rw [filter_append]
    by_cases last : number = port.actions.length
    · subst last
      have same : other = action := by simpa using found.symm
      have before : port.queued.filter (·.senderState = port.actions.length) = [] := by
        rw [filter_eq_nil_iff]
        exact fun pkt member => by simpa using Nat.ne_of_lt (numbered pkt member)
      have all : packets.filter (·.senderState = port.actions.length) = packets := by
        rw [filter_eq_self]
        exact fun pkt member => by simpa using (own pkt member).1
      rw [before, all, same]
      exact covers
    · have earlier : port.actions[number]? = some other := by grind
      have added : packets.filter (·.senderState = number) = [] := by
        rw [filter_eq_nil_iff]
        exact fun pkt member => by simpa [(own pkt member).1] using Ne.symm last
      rw [added, append_nil]
      exact covered number other earlier
  · intro empty
    obtain ⟨-, rfl⟩ := append_eq_nil_iff.mp empty
    exact absurd covers (by rw [DmaAction.Covers]; omega)

theorem Records.move {transmitList outstanding : List Packet}
    (same : (port.transmitList ++ port.outstanding).Perm (transmitList ++ outstanding))
    (inRetry sendEvent : Bool) :
    Records { port with transmitList, outstanding, inRetry, sendEvent } := by
  obtain ⟨accounted, pending, once, numbered, covered⟩ := records
  refine ⟨accounted.perm same, ?_, once.trans (same.append_right _), numbered, covered⟩
  rw [pending, ← length_append, same.length_eq, length_append]

theorem Records.handleResp {pkt : Packet} {transmitList outstanding : List Packet}
    (taken : (port.transmitList ++ port.outstanding).Perm (pkt :: (transmitList ++ outstanding)))
    (delay : Nat) :
    ∃ next, { port with transmitList, outstanding }.handleResp pkt delay = .ok next ∧
      next.Records ∧ next.transmitList = transmitList ∧ next.outstanding = outstanding ∧
      next.inRetry = port.inRetry ∧ next.sendEvent = port.sendEvent := by
  obtain ⟨accounted, pending, once, numbered, covered⟩ := records
  have length := taken.length_eq
  rw [length_append, ← pending, length_cons, length_append] at length
  obtain ⟨_, _, handled, now⟩ := handleResp_spec
    { port with transmitList, outstanding } (accounted.perm taken) (by dsimp only; omega) delay
  refine ⟨_, handled, ⟨now, ?_, ?_, numbered, covered⟩, rfl, rfl, rfl, rfl⟩
  · dsimp only
    omega
  · refine once.trans ((taken.append_right _).trans ?_)
    rw [← append_assoc, cons_append]
    exact (perm_append_singleton _ _).symm

theorem trySendTimingReq_spec (timing : system.timingMode = true)
    (some : port.transmitList ≠ []) (unscheduled : port.sendEvent = false) (accepts : Bool) :
    ∃ next, port.trySendTimingReq accepts = .ok next ∧ next.Sound system := by
  obtain ⟨first, rest, list⟩ := exists_cons_of_ne_nil some
  rw [trySendTimingReq, list]
  cases accepts with
  | false =>
    refine ⟨_, rfl, records.move (by rw [list]) true port.sendEvent, ?_⟩
    simp [Driven, timing, unscheduled]
  | true =>
    have moved : (port.transmitList ++ port.outstanding).Perm
        (rest ++ (port.outstanding ++ [first])) := by
      rw [list, ← append_assoc, cons_append]
      exact (perm_append_singleton _ _).symm
    by_cases finished : rest = []
    · refine ⟨_, if_pos finished, records.move moved false port.sendEvent, ?_⟩
      simp [Driven, timing, finished, unscheduled]
    · refine ⟨_, (if_neg finished).trans (if_neg (by simp [unscheduled])),
        records.move moved false true, ?_⟩
      simp [Driven, timing, finished]

end

theorem sendAtomics_spec (latency : Packet → Nat) (list : List Packet) (records : port.Records)
    (same : port.transmitList = list) :
    ∃ next, sendAtomics latency list port = .ok next ∧ next.Records ∧
      next.transmitList = [] ∧ next.outstanding = port.outstanding ∧
      next.inRetry = port.inRetry ∧ next.sendEvent = port.sendEvent := by
  induction list generalizing port with
  | nil => exact ⟨port, rfl, records, same, rfl, rfl, rfl⟩
  | cons pkt rest hypothesis =>
    have taken : (port.transmitList ++ port.outstanding).Perm
        (pkt :: (rest ++ port.outstanding)) := by
      rw [same, cons_append]
    obtain ⟨_, handled, kept, list, outstanding, inRetry, sendEvent⟩ :=
      records.handleResp taken (latency pkt)
    obtain ⟨next, sent, sound, empty, out, retry, event⟩ := hypothesis kept list
    refine ⟨next, ?_, sound, empty, out.trans outstanding, retry.trans inRetry,
      event.trans sendEvent⟩
    rw [sendAtomics, handled]
    exact sent

/-- After an action was queued, or when the event fires. -/
theorem sendDma_spec (system : System) (records : port.Records) (some : port.transmitList ≠ [])
    (free : port.inRetry = true → port.sendEvent = false)
    (atomic : system.timingMode = false →
      port.outstanding = [] ∧ port.inRetry = false ∧ port.sendEvent = false)
    (accepts : Bool) (latency : Packet → Nat) :
    ∃ next, port.sendDma system accepts latency = .ok next ∧ next.Sound system := by
  rw [sendDma, if_neg some]
  cases timing : system.timingMode with
  | false =>
    obtain ⟨out, retry, event⟩ := atomic timing
    obtain ⟨next, sent, kept, empty, outstanding, inRetry, sendEvent⟩ :=
      sendAtomics_spec latency _ records rfl
    refine ⟨next, sent, kept, ?_⟩
    simp [Driven, timing, empty, outstanding, inRetry, sendEvent, out, retry, event]
  | true =>
    rw [if_pos rfl]
    by_cases waits : (port.inRetry || port.sendEvent) = true
    · refine ⟨port, if_pos waits, records, ?_⟩
      simp only [Driven, timing, if_true]
      grind
    · rw [if_neg waits]
      exact trySendTimingReq_spec records timing some (by grind) accepts

/-! ### Whole runs -/

theorem sound_start : start.Sound system := by
  refine ⟨⟨⟨?_, ?_, ?_⟩, rfl, .refl _, ?_, ?_⟩, ?_⟩
  all_goals simp [start, Driven]

theorem Sound.taken (sound : port.Sound system) {call : Call} (allowed : port.Allowed call) :
    ∃ next, port.step system call = .ok next ∧ next.Sound system := by
  obtain ⟨records, driven⟩ := sound
  have waits := driven
  rw [Driven] at waits
  cases call with
  | dmaAction action accepts latency =>
    obtain ⟨queued, some⟩ := records.queueAction system allowed
    have same : (port.queueAction system action).inRetry = port.inRetry ∧
        (port.queueAction system action).sendEvent = port.sendEvent ∧
        (port.queueAction system action).outstanding = port.outstanding := by
      rw [queueAction, foldl_queueDma]
      exact ⟨rfl, rfl, rfl⟩
    exact sendDma_spec system queued some (by grind) (by grind) accepts latency
  | sendEvent accepts latency =>
    have fires : port.sendEvent = true := allowed
    have event : Records { port with sendEvent := false } := { records with }
    exact sendDma_spec system event (by grind) (fun _ => rfl) (by grind) accepts latency
  | recvReqRetry accepts =>
    have refused : port.inRetry = true := allowed
    have timing : system.timingMode = true := by grind
    have some : port.transmitList ≠ [] := by grind
    rw [step, recvReqRetry, if_neg some]
    exact trySendTimingReq_spec records timing some (by grind) accepts
  | recvTimingResp index =>
    have below : index < port.outstanding.length := allowed
    have timing : system.timingMode = true := by grind
    have taken : (port.transmitList ++ port.outstanding).Perm
        (port.outstanding[index] :: (port.transmitList ++ port.outstanding.eraseIdx index)) := by
      refine List.Perm.trans ?_ perm_middle
      exact (getElem_cons_eraseIdx_perm below).symm.append_left _
    obtain ⟨next, handled, kept, list, -, retry, event⟩ := records.handleResp taken 0
    refine ⟨next, ?_, kept, ?_⟩
    · rw [step, getElem?_eq_getElem below]
      exact handled
    · rw [Driven, list, retry, event]
      rw [if_pos timing] at waits ⊢
      exact waits

theorem Sound.of_run {calls : List Call} (run : Run (step system) Allowed start calls port) :
    port.Sound system :=
  run.invariant_of_total (Sound system) (fun sound => sound.taken) sound_start

/-- The packets of every action cut its range in order, each with its data; each packet is queued
or sent or answered, the count of pending packets is right, the event of an action is scheduled
once and from when its last packet is answered, nothing queued in timing mode is left without an
event or a retry to come, and no call fails. -/
theorem dma_actions_complete {calls : List Call}
    (run : Run (step system) Allowed start calls port) :
    (∀ number (action : DmaAction), port.actions[number]? = some action →
      action.Covers number action.addr (port.queued.filter (·.senderState = number)) ∧
      events port.scheduled number =
        if ∀ pkt ∈ port.transmitList ++ port.outstanding, pkt.senderState ≠ number then
          action.event.toList else []) ∧
    port.queued.Perm (port.transmitList ++ port.outstanding ++ port.answered) ∧
    port.pendingCount = port.transmitList.length + port.outstanding.length ∧
    (system.timingMode = true → port.transmitList ≠ [] →
      port.inRetry = true ∨ port.sendEvent = true) ∧
    ∀ call, port.Allowed call → ∃ next, port.step system call = .ok next := by
  have sound := Sound.of_run run
  have records := sound.records
  refine ⟨fun number action found => ⟨records.covered number action found, ?_⟩, records.once,
    records.pending, fun timing some => ?_, fun call allowed => ?_⟩
  · have zero_iff := bytes_eq_zero_iff (fun pkt member =>
      (records.accounted.known pkt member).2) number
    obtain ⟨_, -, -, some, none⟩ | ⟨-, zero, all⟩ := records.accounted.counted number action found
    · rw [none, if_neg fun all => Nat.ne_of_gt some (zero_iff.mpr all)]
    · rw [all, if_pos (zero_iff.mp zero)]
  · have driven := sound.driven
    rw [Driven, if_pos timing] at driven
    exact driven.1.mp some
  · obtain ⟨next, taken, -⟩ := sound.taken allowed
    exact ⟨next, taken⟩

/-- Lines of eight bytes. -/
def timing8 : System := ⟨true, 8, .inr ⟨3, rfl⟩⟩

/-- Four bytes over the end of a line: the event is scheduled with the second response. -/
theorem dma_actions_complete_two_packets : ∃ port, Run (step timing8) Allowed start
    [.dmaAction ⟨6, 4, some 7, some 0, 0⟩ false fun _ => 0, .recvReqRetry true, .recvTimingResp 0,
      .sendEvent true fun _ => 0, .recvTimingResp 0] port ∧
    events port.scheduled 0 = [7] := by
  refine Run.exists_checked (fun port => port.transmitList ++ port.outstanding = [] ∧
      port.actions[0]?.map DmaAction.event = some (some 7))
    (by decide +kernel) fun _ run ⟨empty, first⟩ => ?_
  obtain ⟨action, found, event⟩ := Option.map_eq_some_iff.mp first
  rw [((dma_actions_complete run).1 0 action found).2, empty, event]
  rfl

end DmaPort

end Gem5.Dev.Dma
