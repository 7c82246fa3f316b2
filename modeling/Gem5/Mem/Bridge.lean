/-
This file models the bridge (`mem/bridge.cc`): requests wait in the master port's list and
responses in the slave port's, each list is sent on by one event, a full bridge refuses a
request and tells the sender later to retry. It proves for every interleaving that the order
is kept, that the limits and the count of outstanding responses are right, that no assertion
fails, and that a refused request does not lose its wake-up: a response that is sent on wakes it
only if the requests leave room, and else the next request that is sent on does.
-/

import Gem5.Library.Run
import Mathlib.Data.List.Nodup
import Mathlib.Data.List.Perm.Subperm

namespace Gem5.Mem.Bridging

open Library List

structure Packet where
  number : Nat
  needsResponse : Bool
  memInhibitAsserted : Bool
  deriving DecidableEq

def Packet.expectsResponse (pkt : Packet) : Bool := pkt.needsResponse && !pkt.memInhibitAsserted

structure DeferredPacket where
  pkt : Packet
  tick : Nat
  deriving DecidableEq

inductive Fault where
  | assertion
  deriving DecidableEq

/-! ### One port -/

/-- The list of a port and the tick of its event; `refused` tells that the peer has turned down
the first packet and will send a retry. -/
structure Port where
  transmitList : List DeferredPacket
  sendEvent : Option Nat
  refused : Bool
  deriving DecidableEq

namespace Port

/-- The event queue refuses an event that is scheduled already and a tick in the past. -/
def schedule (port : Port) (curTick time : Nat) : Except Fault Port :=
  if port.sendEvent = none ∧ curTick ≤ time then .ok { port with sendEvent := some time }
  else .error .assertion

def schedTimingResp (port : Port) (pkt : Packet) (curTick time : Nat) : Except Fault Port := do
  let port ← if port.transmitList = [] then port.schedule curTick time else .ok port
  return { port with transmitList := port.transmitList ++ [⟨pkt, time⟩] }

def schedTimingReq (port : Port) (reqQueueLimit : Nat) (pkt : Packet) (curTick time : Nat) :
    Except Fault Port := do
  let port ← if port.transmitList = [] then port.schedule curTick time else .ok port
  if port.transmitList.length = reqQueueLimit then throw .assertion
  return { port with transmitList := port.transmitList ++ [⟨pkt, time⟩] }

/-- `trySendTiming` up to the retry, with the answer of the peer. -/
def trySendTiming (port : Port) (curTick clockEdge : Nat) (accepts : Bool) :
    Except Fault (Option Packet × Port) :=
  match port.transmitList with
  | [] => .error .assertion
  | first :: rest =>
    if curTick < first.tick then .error .assertion
    else if accepts then do
      let popped := { port with transmitList := rest, refused := false }
      let port ← match rest with
        | [] => .ok popped
        | next :: _ => popped.schedule curTick (max next.tick clockEdge)
      return (some first.pkt, port)
    else .ok (none, { port with refused := true })

def packets (port : Port) : List Packet := port.transmitList.map DeferredPacket.pkt

/-- The first packet of the list is waited for by the event or by the peer. -/
structure Sound (port : Port) (curTick : Nat) : Prop where
  empty : port.transmitList = [] → port.sendEvent = none ∧ port.refused = false
  waits : port.transmitList ≠ [] → (port.sendEvent = none ↔ port.refused = true)
  due : ∀ first ∈ port.transmitList.head?, ∀ time ∈ port.sendEvent, first.tick ≤ time
  late : ∀ first ∈ port.transmitList.head?, port.refused = true → first.tick ≤ curTick
  notPast : ∀ time ∈ port.sendEvent, curTick ≤ time

variable {port : Port} {curTick clockEdge time : Nat}

theorem Sound.schedTimingResp (sound : port.Sound curTick) (pkt : Packet)
    (later : curTick ≤ time) :
    ∃ next, port.schedTimingResp pkt curTick time = .ok next ∧
      next.packets = port.packets ++ [pkt] ∧ next.Sound curTick := by
  obtain ⟨list, event, refused⟩ := port
  obtain ⟨empty, _⟩ := sound
  cases list with
  | nil =>
    obtain ⟨rfl, rfl⟩ := empty rfl
    refine ⟨⟨[⟨pkt, time⟩], some time, false⟩, ?_, rfl, ?_⟩
    · simp [Port.schedTimingResp, schedule, later]
    · constructor <;> simp [later]
  | cons first rest =>
    refine ⟨⟨first :: rest ++ [⟨pkt, time⟩], event, refused⟩, ?_, by simp [packets], ?_⟩
    · simp [Port.schedTimingResp]
    · constructor <;> grind

/-- The list of the requests is not full when one is accepted. -/
theorem schedTimingReq_eq {reqQueueLimit : Nat} (room : port.transmitList.length ≠ reqQueueLimit)
    (pkt : Packet) :
    port.schedTimingReq reqQueueLimit pkt curTick time =
      port.schedTimingResp pkt curTick time := by
  rw [schedTimingReq, schedTimingResp, schedule]
  split_ifs <;> simp [bind, Except.bind, room]

theorem trySendTiming_spec {first : DeferredPacket} {rest : List DeferredPacket}
    (list : port.transmitList = first :: rest) (unscheduled : port.sendEvent = none)
    (due : first.tick ≤ curTick) (edge : curTick ≤ clockEdge) (accepts : Bool) :
    ∃ next, port.trySendTiming curTick clockEdge accepts =
        .ok (if accepts then some first.pkt else none, next) ∧
      port.packets = (if accepts then [first.pkt] else []) ++ next.packets ∧
      next.Sound curTick := by
  obtain ⟨_, _, refused⟩ := port
  cases list
  cases unscheduled
  rw [trySendTiming]
  dsimp only
  rw [if_neg (Nat.not_lt.mpr due)]
  cases accepts with
  | false =>
    refine ⟨_, rfl, rfl, ?_⟩
    constructor <;> simp [due]
  | true =>
    cases rest with
    | nil =>
      refine ⟨_, rfl, rfl, ?_⟩
      constructor <;> simp
    | cons second rest =>
      have notPast : curTick ≤ max second.tick clockEdge :=
        Nat.le_trans edge (Nat.le_max_right _ _)
      refine ⟨⟨second :: rest, some (max second.tick clockEdge), false⟩, ?_, rfl, ?_⟩
      · have scheduled : Port.schedule ⟨second :: rest, none, false⟩ curTick
            (max second.tick clockEdge) = .ok ⟨second :: rest, some (max second.tick clockEdge),
              false⟩ := if_pos ⟨rfl, notPast⟩
        simp only [scheduled]
        rfl
      · constructor <;> simp <;> omega

theorem Sound.elapse {tick : Nat} (sound : port.Sound curTick) (later : curTick ≤ tick)
    (inTime : ∀ time ∈ port.sendEvent, tick ≤ time) : port.Sound tick := by
  obtain ⟨empty, waits, due, late, _⟩ := sound
  exact ⟨empty, waits, due, fun first member refused =>
    Nat.le_trans (late first member refused) later, inTime⟩

theorem Sound.front (sound : port.Sound curTick)
    (some : port.sendEvent ≠ none ∨ port.refused = true) :
    ∃ first rest, port.transmitList = first :: rest := by
  cases list : port.transmitList with
  | nil =>
    have empty := sound.empty list
    grind
  | cons first rest => exact ⟨first, rest, rfl⟩

end Port

/-! ### The bridge -/

structure Config where
  reqQueueLimit : Nat
  respQueueLimit : Nat

/-- The bridge in time, with what has gone through it: the requests that were accepted and those
that were sent on, the responses that came and those that were sent on, in order, and the
number of retries. -/
structure Bridge where
  masterPort : Port
  slavePort : Port
  retryReq : Bool
  outstandingResponses : Nat
  curTick : Nat
  accepted : List Packet
  reqSent : List Packet
  responses : List Packet
  respSent : List Packet
  retries : Nat

structure Clock where
  clockEdge : Nat → Nat
  delayed : Nat → Nat
  notPast : ∀ tick, tick ≤ clockEdge tick
  delayedNotPast : ∀ tick, tick ≤ delayed tick

inductive Action where
  | recvTimingReq (pkt : Packet)
  | recvTimingResp (pkt : Packet)
  | sendReq (accepts : Bool)
  | recvReqRetry (accepts : Bool)
  | sendResp (accepts : Bool)
  | recvRespRetry (accepts : Bool)
  | elapse (tick : Nat)

namespace Bridge

variable (config : Config) (clock : Clock)

def start : Bridge := ⟨⟨[], none, false⟩, ⟨[], none, false⟩, false, 0, 0, [], [], [], [], 0⟩

def reqQueueFull (bridge : Bridge) : Bool :=
  bridge.masterPort.transmitList.length == config.reqQueueLimit

def respQueueFull (bridge : Bridge) : Bool := bridge.outstandingResponses == config.respQueueLimit

def recvTimingReq (bridge : Bridge) (pkt : Packet) : Except Fault Bridge :=
  if bridge.retryReq then .error .assertion
  else if bridge.reqQueueFull config ∨ pkt.expectsResponse ∧ bridge.respQueueFull config then
    .ok { bridge with retryReq := true }
  else do
    let masterPort ← bridge.masterPort.schedTimingReq config.reqQueueLimit pkt bridge.curTick
      (clock.delayed bridge.curTick)
    return { bridge with
      masterPort, accepted := bridge.accepted ++ [pkt]
      outstandingResponses := bridge.outstandingResponses + pkt.expectsResponse.toNat }

def recvTimingResp (bridge : Bridge) (pkt : Packet) : Except Fault Bridge := do
  let slavePort ← bridge.slavePort.schedTimingResp pkt bridge.curTick
    (clock.delayed bridge.curTick)
  return { bridge with slavePort, responses := bridge.responses ++ [pkt] }

/-- The sender of a refused request is told to retry. -/
def retry (bridge : Bridge) : Bridge :=
  if bridge.retryReq then { bridge with retryReq := false, retries := bridge.retries + 1 }
  else bridge

def trySendReq (bridge : Bridge) (accepts : Bool) : Except Fault Bridge := do
  let (sent, masterPort) ← bridge.masterPort.trySendTiming bridge.curTick
    (clock.clockEdge bridge.curTick) accepts
  let bridge := { bridge with masterPort, reqSent := bridge.reqSent ++ sent.toList }
  return if sent.isSome then bridge.retry else bridge

def trySendResp (bridge : Bridge) (accepts : Bool) : Except Fault Bridge := do
  let (sent, slavePort) ← bridge.slavePort.trySendTiming bridge.curTick
    (clock.clockEdge bridge.curTick) accepts
  let bridge := { bridge with slavePort, respSent := bridge.respSent ++ sent.toList }
  if sent.isSome then
    if bridge.outstandingResponses = 0 then throw .assertion
    let bridge := { bridge with outstandingResponses := bridge.outstandingResponses - 1 }
    return if bridge.reqQueueFull config then bridge else bridge.retry
  return bridge

def step (bridge : Bridge) : Action → Except Fault Bridge
  | .recvTimingReq pkt => bridge.recvTimingReq config clock pkt
  | .recvTimingResp pkt => bridge.recvTimingResp clock pkt
  | .sendReq accepts => { bridge with
      masterPort.sendEvent := none
      curTick := bridge.masterPort.sendEvent.getD bridge.curTick }.trySendReq clock accepts
  | .recvReqRetry accepts => bridge.trySendReq clock accepts
  | .sendResp accepts => { bridge with
      slavePort.sendEvent := none
      curTick := bridge.slavePort.sendEvent.getD bridge.curTick }.trySendResp config clock accepts
  | .recvRespRetry accepts => bridge.trySendResp config clock accepts
  | .elapse tick => .ok { bridge with curTick := tick }

/-- A sender that was refused waits for its retry, a response is for a request that was sent on and
has had none, a retry comes from a peer that has refused, and events come in time. -/
def Allowed (bridge : Bridge) : Action → Prop
  | .recvTimingReq pkt => bridge.retryReq = false ∧ pkt ∉ bridge.accepted
  | .recvTimingResp pkt =>
    pkt ∈ bridge.reqSent ∧ pkt.expectsResponse = true ∧ pkt ∉ bridge.responses
  | .sendReq _ => bridge.masterPort.sendEvent ≠ none ∧
      ∀ time ∈ bridge.masterPort.sendEvent, ∀ other ∈ bridge.slavePort.sendEvent, time ≤ other
  | .recvReqRetry _ => bridge.masterPort.refused = true
  | .sendResp _ => bridge.slavePort.sendEvent ≠ none ∧
      ∀ time ∈ bridge.slavePort.sendEvent, ∀ other ∈ bridge.masterPort.sendEvent, time ≤ other
  | .recvRespRetry _ => bridge.slavePort.refused = true
  | .elapse tick => bridge.curTick ≤ tick ∧ (∀ time ∈ bridge.masterPort.sendEvent, tick ≤ time) ∧
      ∀ time ∈ bridge.slavePort.sendEvent, tick ≤ time

instance (bridge : Bridge) (action : Action) : Decidable (bridge.Allowed action) :=
  match action with
  | .recvTimingReq _ | .recvTimingResp _ | .sendReq _ | .sendResp _ | .elapse _ =>
    inferInstanceAs (Decidable (_ ∧ _))
  | .recvReqRetry _ | .recvRespRetry _ => inferInstanceAs (Decidable (_ = _))

/-- What the counters and the flag say about what has gone through. -/
structure Books (bridge : Bridge) : Prop where
  requests : bridge.accepted = bridge.reqSent ++ bridge.masterPort.packets
  answers : bridge.responses = bridge.respSent ++ bridge.slavePort.packets
  once : bridge.accepted.Nodup
  answeredOnce : bridge.responses.Nodup
  expected : ∀ pkt ∈ bridge.responses, pkt ∈ bridge.accepted ∧ pkt.expectsResponse = true
  outstanding : bridge.outstandingResponses + bridge.respSent.length =
    bridge.accepted.countP Packet.expectsResponse
  reqLimit : bridge.masterPort.packets.length ≤ config.reqQueueLimit
  respLimit : bridge.outstandingResponses ≤ config.respQueueLimit

/-- What holds in every state. -/
structure Sound (bridge : Bridge) : Prop where
  books : bridge.Books config
  stalled : bridge.retryReq = true →
    bridge.reqQueueFull config = true ∨ bridge.respQueueFull config = true
  master : bridge.masterPort.Sound bridge.curTick
  slave : bridge.slavePort.Sound bridge.curTick

/-- A request that was refused is retried when a request is sent on, and when a response is sent
on unless the requests fill their list; until then it stays refused. -/
def Woken (bridge next : Bridge) : Prop :=
  bridge.retryReq = true →
    (next.retryReq = false ∧ next.retries = bridge.retries + 1) ∨
    (next.retryReq = true ∧ next.retries = bridge.retries ∧ next.reqSent = bridge.reqSent ∧
      (next.respSent = bridge.respSent ∨ next.reqQueueFull config = true))

variable {config clock} {bridge : Bridge}

/-! ### The steps -/

theorem retry_retryReq : bridge.retry.retryReq = false := by
  unfold retry
  split
  · rfl
  · simp_all

section

variable (books : bridge.Books config)
include books

theorem Sound.retry (master : bridge.masterPort.Sound bridge.curTick)
    (slave : bridge.slavePort.Sound bridge.curTick) : bridge.retry.Sound config := by
  have stalled : bridge.retry.retryReq = true →
      bridge.retry.reqQueueFull config = true ∨ bridge.retry.respQueueFull config = true := by
    intro set
    rw [retry_retryReq] at set
    exact absurd set Bool.false_ne_true
  refine ⟨?_, stalled, ?_, ?_⟩
  all_goals unfold Bridge.retry; split
  all_goals first | exact { books with } | exact master | exact slave

theorem Books.unsent_le :
    bridge.slavePort.packets.length ≤ bridge.outstandingResponses := by
  have among : bridge.responses.length ≤ bridge.accepted.countP Packet.expectsResponse := by
    rw [countP_eq_length_filter]
    refine (subperm_of_subset books.answeredOnce fun pkt member => ?_).length_le
    exact mem_filter.mpr (books.expected pkt member)
  rw [books.answers, length_append, ← books.outstanding] at among
  omega

section

variable (stalled : bridge.retryReq = true →
  bridge.reqQueueFull config = true ∨ bridge.respQueueFull config = true)
include stalled

theorem trySendReq_spec (slave : bridge.slavePort.Sound bridge.curTick) {first : DeferredPacket}
    {rest : List DeferredPacket} (list : bridge.masterPort.transmitList = first :: rest)
    (unscheduled : bridge.masterPort.sendEvent = none) (due : first.tick ≤ bridge.curTick)
    {accepts : Bool} :
    ∃ next, bridge.trySendReq clock accepts = .ok next ∧ next.Sound config ∧
      bridge.Woken config next := by
  obtain ⟨port, tried, split, sound⟩ := Port.trySendTiming_spec list unscheduled due
    (clock.notPast bridge.curTick) accepts
  have requests := books.requests
  have reqLimit := books.reqLimit
  rw [trySendReq, tried, ok_bind]
  rw [split, ← append_assoc] at requests
  rw [split] at reqLimit
  cases accepts with
  | false =>
    have unchanged : port.transmitList.length = bridge.masterPort.transmitList.length := by
      have lengths := congrArg length split
      simpa [Port.packets] using lengths.symm
    refine ⟨_, rfl, ⟨{ books with requests, reqLimit }, ?_, sound, slave⟩, ?_⟩
    · simpa [reqQueueFull, respQueueFull, unchanged] using stalled
    · intro set
      exact .inr ⟨set, rfl, append_nil _, .inl rfl⟩
  | true =>
    have reqLimit := Nat.le_trans (Nat.le_add_right _ _) reqLimit
    refine ⟨_, rfl, Sound.retry { books with requests, reqLimit } sound slave, ?_⟩
    intro set
    left
    simp [retry, set]

theorem trySendResp_spec (master : bridge.masterPort.Sound bridge.curTick) {first : DeferredPacket}
    {rest : List DeferredPacket} (list : bridge.slavePort.transmitList = first :: rest)
    (unscheduled : bridge.slavePort.sendEvent = none) (due : first.tick ≤ bridge.curTick)
    {accepts : Bool} :
    ∃ next, bridge.trySendResp config clock accepts = .ok next ∧ next.Sound config ∧
      bridge.Woken config next := by
  obtain ⟨port, tried, split, sound⟩ := Port.trySendTiming_spec list unscheduled due
    (clock.notPast bridge.curTick) accepts
  rw [trySendResp, tried, ok_bind]
  have unsent := books.unsent_le
  have answers := books.answers
  rw [split, ← append_assoc] at answers
  cases accepts with
  | false =>
    have outstanding := books.outstanding
    rw [← append_nil bridge.respSent] at outstanding
    refine ⟨_, rfl, ⟨{ books with answers, outstanding }, stalled, master, sound⟩, ?_⟩
    intro set
    exact .inr ⟨set, rfl, rfl, .inl (append_nil _)⟩
  | true =>
    have positive : bridge.outstandingResponses ≠ 0 := by
      rw [split] at unsent
      simp at unsent
      omega
    simp only [Option.isSome_some, if_true, if_neg positive]
    have fewer : bridge.outstandingResponses - 1 + (bridge.respSent ++ [first.pkt]).length =
        bridge.accepted.countP Packet.expectsResponse := by
      rw [← books.outstanding, length_append, length_singleton]
      omega
    have books : Books config { bridge with
        slavePort := port, respSent := bridge.respSent ++ [first.pkt]
        outstandingResponses := bridge.outstandingResponses - 1 } :=
      { books with
        answers, outstanding := fewer, respLimit := Nat.le_trans (Nat.sub_le _ _) books.respLimit }
    by_cases full : bridge.reqQueueFull config = true
    · refine ⟨_, congrArg Except.ok (if_pos full), ⟨books, fun _ => .inl full, master, sound⟩, ?_⟩
      intro set
      exact .inr ⟨set, rfl, rfl, .inr full⟩
    · refine ⟨_, congrArg Except.ok (if_neg full), Sound.retry books master sound, ?_⟩
      intro set
      left
      simp [retry, set]

end

end

section

variable (sound : bridge.Sound config)
include sound

theorem recvTimingReq_spec {pkt : Packet}
    (ready : bridge.retryReq = false) (fresh : pkt ∉ bridge.accepted) :
    ∃ next, bridge.recvTimingReq config clock pkt = .ok next ∧ next.Sound config := by
  have running : ¬ bridge.retryReq = true := by simp [ready]
  rw [recvTimingReq, if_neg running]
  obtain ⟨books, _, master, slave⟩ := sound
  split
  · rename_i full
    exact ⟨_, rfl, ⟨{ books with }, fun _ => full.imp_right And.right, master, slave⟩⟩
  · rename_i room
    rw [not_or, not_and] at room
    obtain ⟨_, scheduled, packets, portSound⟩ := master.schedTimingResp pkt
      (clock.delayedNotPast bridge.curTick)
    have notFull : bridge.masterPort.transmitList.length ≠ config.reqQueueLimit := by
      simpa [reqQueueFull] using room.1
    have counted : (bridge.accepted ++ [pkt]).countP Packet.expectsResponse =
        bridge.accepted.countP Packet.expectsResponse + pkt.expectsResponse.toNat := by
      cases expects : pkt.expectsResponse <;> simp [countP_append, expects]
    rw [Port.schedTimingReq_eq notFull, scheduled]
    obtain ⟨requests, answers, once, answeredOnce, expected, outstanding, reqLimit, respLimit⟩ :=
      books
    refine ⟨_, rfl, ⟨⟨?_, answers, ?_, answeredOnce, ?_, ?_, ?_, ?_⟩, ?_, portSound, slave⟩⟩
    · rw [packets, requests, append_assoc]
    · exact nodup_append.mpr ⟨once, nodup_singleton _, by grind⟩
    · intro answered member
      have known := expected answered member
      exact ⟨mem_append_left _ known.1, known.2⟩
    · dsimp only
      omega
    · rw [packets, length_append, length_singleton, Port.packets, length_map]
      rw [Port.packets, length_map] at reqLimit
      omega
    · cases expects : pkt.expectsResponse with
      | false => exact respLimit
      | true =>
        have notFull := room.2 expects
        simp only [respQueueFull, beq_iff_eq] at notFull
        exact Nat.lt_of_le_of_ne respLimit notFull
    · exact fun set => absurd set running

theorem recvTimingResp_spec {pkt : Packet} (sent : pkt ∈ bridge.reqSent)
    (expects : pkt.expectsResponse = true) (fresh : pkt ∉ bridge.responses) :
    ∃ next, bridge.recvTimingResp clock pkt = .ok next ∧ next.Sound config ∧
      bridge.Woken config next := by
  obtain ⟨books, stalled, master, slave⟩ := sound
  obtain ⟨_, scheduled, packets, portSound⟩ := slave.schedTimingResp pkt
    (clock.delayedNotPast bridge.curTick)
  rw [recvTimingResp, scheduled]
  refine ⟨_, rfl, ⟨{ books with answers := ?_, answeredOnce := ?_, expected := ?_ }, stalled,
    master, portSound⟩, fun set => .inr ⟨set, rfl, rfl, .inl rfl⟩⟩
  · rw [packets, books.answers, append_assoc]
  · exact nodup_append.mpr ⟨books.answeredOnce, nodup_singleton _, by grind⟩
  · intro answered member
    rcases mem_append.mp member with earlier | last
    · exact books.expected answered earlier
    · cases mem_singleton.mp last
      exact ⟨by rw [books.requests]; exact mem_append_left _ sent, expects⟩

theorem Sound.taken (clock : Clock) {action : Action} (allowed : bridge.Allowed action) :
    ∃ next, bridge.step config clock action = .ok next ∧ next.Sound config ∧
      bridge.Woken config next := by
  cases action with
  | recvTimingReq =>
    obtain ⟨next, taken, kept⟩ := recvTimingReq_spec sound allowed.1 allowed.2
    exact ⟨next, taken, kept, fun set => absurd (set.symm.trans allowed.1) (by decide)⟩
  | recvTimingResp => exact recvTimingResp_spec sound allowed.1 allowed.2.1 allowed.2.2
  | sendReq =>
    obtain ⟨first, _, list⟩ := sound.master.front (.inl allowed.1)
    obtain ⟨time, event⟩ := Option.ne_none_iff_exists'.mp allowed.1
    have later := sound.master.notPast time event
    simp only [Bridge.step, event, Option.getD_some]
    have books : Books config { bridge with masterPort.sendEvent := none, curTick := time } :=
      { sound.books with }
    refine trySendReq_spec books sound.stalled
      (sound.slave.elapse later (allowed.2 time event)) list rfl ?_
    exact sound.master.due first (by rw [list]; rfl) time event
  | recvReqRetry =>
    obtain ⟨first, _, list⟩ := sound.master.front (.inr allowed)
    have nonempty : bridge.masterPort.transmitList ≠ [] := by
      rw [list]
      exact cons_ne_nil _ _
    exact trySendReq_spec sound.books sound.stalled sound.slave list
      ((sound.master.waits nonempty).mpr allowed)
      (sound.master.late first (by rw [list]; rfl) allowed)
  | sendResp =>
    obtain ⟨first, _, list⟩ := sound.slave.front (.inl allowed.1)
    obtain ⟨time, event⟩ := Option.ne_none_iff_exists'.mp allowed.1
    have later := sound.slave.notPast time event
    simp only [Bridge.step, event, Option.getD_some]
    have books : Books config { bridge with slavePort.sendEvent := none, curTick := time } :=
      { sound.books with }
    refine trySendResp_spec books sound.stalled
      (sound.master.elapse later (allowed.2 time event)) list rfl ?_
    exact sound.slave.due first (by rw [list]; rfl) time event
  | recvRespRetry =>
    obtain ⟨first, _, list⟩ := sound.slave.front (.inr allowed)
    have nonempty : bridge.slavePort.transmitList ≠ [] := by
      rw [list]
      exact cons_ne_nil _ _
    exact trySendResp_spec sound.books sound.stalled sound.master list
      ((sound.slave.waits nonempty).mpr allowed)
      (sound.slave.late first (by rw [list]; rfl) allowed)
  | elapse =>
    exact ⟨_, rfl, ⟨{ sound.books with }, sound.stalled, sound.master.elapse allowed.1 allowed.2.1,
      sound.slave.elapse allowed.1 allowed.2.2⟩, fun set => .inr ⟨set, rfl, rfl, .inl rfl⟩⟩

end

/-! ### Whole runs -/

theorem sound_start : start.Sound config := by
  refine ⟨⟨rfl, rfl, nodup_nil, nodup_nil, ?_, rfl, Nat.zero_le _, Nat.zero_le _⟩, ?_, ?_,
    ?_⟩
  · exact fun pkt member => absurd member not_mem_nil
  · exact fun set => absurd set Bool.false_ne_true
  all_goals constructor <;> simp [start]

theorem Sound.of_run {actions : List Action}
    (run : Run (step config clock) Allowed start actions bridge) : bridge.Sound config := by
  refine run.invariant_of_total (Sound config) (fun sound meets => ?_) sound_start
  obtain ⟨next, reached, kept, _⟩ := sound.taken clock meets
  exact ⟨next, reached, kept⟩

/-- The requests of which the response has not been sent on. -/
def owed (bridge : Bridge) : List Packet :=
  bridge.accepted.filter fun pkt => pkt.expectsResponse && pkt ∉ bridge.respSent

theorem Books.length_owed (books : bridge.Books config) :
    bridge.outstandingResponses = bridge.owed.length := by
  have among : ((bridge.accepted.filter Packet.expectsResponse).filter
      (· ∈ bridge.respSent)).Perm bridge.respSent := by
    have distinct : bridge.respSent.Nodup := by
      have answeredOnce := books.answeredOnce
      rw [books.answers] at answeredOnce
      exact answeredOnce.of_append_left
    refine (perm_ext_iff_of_nodup ((books.once.filter _).filter _) distinct).mpr fun pkt => ?_
    have expected := books.expected pkt
    rw [books.answers] at expected
    grind
  have split := length_eq_length_filter_add (l := bridge.accepted.filter Packet.expectsResponse)
    (· ∈ bridge.respSent)
  have counted := books.outstanding
  rw [countP_eq_length_filter, split, among.length_eq] at counted
  have same : bridge.owed = (bridge.accepted.filter Packet.expectsResponse).filter
      (fun pkt => !decide (pkt ∈ bridge.respSent)) := by
    rw [filter_filter, owed]
    congr 1
    funext pkt
    simp [Bool.and_comm]
  rw [same]
  omega

/-- Requests and responses leave in the order they came in, each once, the limits hold and the
count of outstanding responses is right, no allowed action fails, what is queued is waited for, and
a refused request is retried by the next request that is sent on and by the next response that is
sent on while the requests leave room. -/
theorem bridge_sound {actions : List Action}
    (run : Run (step config clock) Allowed start actions bridge) :
    bridge.accepted = bridge.reqSent ++ bridge.masterPort.packets ∧ bridge.accepted.Nodup ∧
    bridge.responses = bridge.respSent ++ bridge.slavePort.packets ∧ bridge.responses.Nodup ∧
    bridge.masterPort.packets.length ≤ config.reqQueueLimit ∧
    bridge.outstandingResponses = bridge.owed.length ∧
    bridge.outstandingResponses ≤ config.respQueueLimit ∧
    (∀ port ∈ [bridge.masterPort, bridge.slavePort], port.transmitList ≠ [] →
      port.sendEvent ≠ none ∨ port.refused = true) ∧
    (bridge.retryReq = true → bridge.masterPort.packets.length = config.reqQueueLimit ∨
      bridge.owed.length = config.respQueueLimit) ∧
    ∀ action, bridge.Allowed action →
      ∃ next, bridge.step config clock action = .ok next ∧ bridge.Woken config next := by
  have sound := Sound.of_run run
  have books := sound.books
  refine ⟨books.requests, books.once, books.answers, books.answeredOnce, books.reqLimit,
    books.length_owed, books.respLimit, ?_, ?_, ?_⟩
  · have waited : ∀ {port : Port}, port.Sound bridge.curTick → port.transmitList ≠ [] →
        port.sendEvent ≠ none ∨ port.refused = true := by
      intro port sound nonempty
      have waits := sound.waits nonempty
      grind
    intro port member
    rcases mem_pair.mp member with rfl | rfl
    · exact waited sound.master
    · exact waited sound.slave
  · intro set
    rw [← books.length_owed]
    simpa [reqQueueFull, respQueueFull, Port.packets] using sound.stalled set
  · intro action allowed
    obtain ⟨next, taken, _, woken⟩ := sound.taken clock allowed
    exact ⟨next, taken, woken⟩

/-- A clock of one tick and a delay of two. -/
def unitClock : Clock := ⟨id, (· + 2), fun _ => Nat.le_refl _, fun _ => Nat.le_add_right _ _⟩

/-- With room for one request and one response, the second request is refused until the first has
been sent on, and again until the response has been. -/
theorem bridge_sound_two_refusals : ∃ bridge, Run (step ⟨1, 1⟩ unitClock) Allowed start
    [.recvTimingReq ⟨0, true, false⟩, .recvTimingReq ⟨1, true, false⟩, .sendReq false,
      .recvReqRetry true, .recvTimingReq ⟨1, true, false⟩,
      .recvTimingResp ⟨0, true, false⟩] bridge ∧
    bridge.retryReq = true ∧ bridge.retries = 1 ∧
    ∃ next, bridge.step ⟨1, 1⟩ unitClock (.sendResp true) = .ok next ∧
      bridge.Woken ⟨1, 1⟩ next := by
  refine Run.exists_checked (fun bridge => bridge.retryReq = true ∧ bridge.retries = 1 ∧
      bridge.Allowed (.sendResp true))
    (by decide +kernel) fun _ run ⟨refused, retried, allowed⟩ => ?_
  exact ⟨refused, retried, (bridge_sound run).2.2.2.2.2.2.2.2.2 _ allowed⟩

def refusedActions : List Action :=
  [.recvTimingReq ⟨0, true, false⟩, .sendReq true, .recvTimingReq ⟨1, true, false⟩,
    .recvTimingReq ⟨2, true, false⟩, .recvTimingResp ⟨0, true, false⟩]

/-- With room for one request and two responses, a response that is sent on wakes nobody while the
list of the requests is full. -/
theorem response_wakes_nobody :
    (∃ bridge, Run (step ⟨1, 2⟩ unitClock) Allowed start refusedActions bridge ∧
      bridge.respSent = [] ∧ bridge.retryReq = true ∧ bridge.retries = 0) ∧
    ∃ bridge, Run (step ⟨1, 2⟩ unitClock) Allowed start (refusedActions ++ [.sendResp true])
        bridge ∧
      bridge.respSent = [⟨0, true, false⟩] ∧ bridge.retryReq = true ∧ bridge.retries = 0 :=
  ⟨Run.exists_check (by decide +kernel), Run.exists_check (by decide +kernel)⟩

end Bridge

end Gem5.Mem.Bridging
