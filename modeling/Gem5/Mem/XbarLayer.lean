/-
This file models a layer of the crossbar (`mem/xbar.cc`): the ports that converge at one
destination port take turns, a port that comes while the layer is occupied waits in line,
and a port that the peer has turned down is put back at the front of the line. It proves
that no assertion of the layer fails and that no wake-up is lost, and counts the wake-ups
until a waiting port is told to retry. A peer that keeps turning down the port at the
front keeps the others waiting for ever.
-/

import Gem5.Library.Run
import Mathlib

namespace Gem5.Mem.Xbar

open Library List

/-! ### The layer -/

inductive Fault where
  | assertion
  deriving DecidableEq

inductive LayerState where
  | idle
  | busy
  | retry
  deriving DecidableEq

/-- A layer; its release event is given by the tick that it is scheduled at. -/
structure Layer (Port : Type) where
  state : LayerState
  waitingForLayer : List Port
  waitingForPeer : Option Port
  releaseEvent : Option Nat
  deriving DecidableEq

variable {Port : Type} [DecidableEq Port]

namespace Layer

/-- The event is scheduled, which the event queue refuses for one that is scheduled already
and for a tick in the past. -/
def occupyLayer (layer : Layer Port) (curTick time : Nat) : Except Fault (Layer Port) :=
  if layer.state = .busy ∧ time ≠ 0 ∧ layer.releaseEvent = none ∧ curTick ≤ time then
    .ok { layer with releaseEvent := some time }
  else .error .assertion

omit [DecidableEq Port] in
theorem occupyLayer_eq {layer : Layer Port} {curTick time : Nat} (busy : layer.state = .busy)
    (unscheduled : layer.releaseEvent = none) (notPast : curTick ≤ time) (late : 0 < time) :
    layer.occupyLayer curTick time = .ok { layer with releaseEvent := some time } :=
  if_pos ⟨busy, Nat.ne_of_gt late, unscheduled, notPast⟩

/-- A port offers a packet. -/
def tryTiming (layer : Layer Port) (srcPort : Port) : Except Fault (Bool × Layer Port) :=
  if layer.state = .busy ∨ layer.waitingForPeer ≠ none then
    if srcPort ∈ layer.waitingForLayer then .error .assertion
    else .ok (false, { layer with waitingForLayer := layer.waitingForLayer ++ [srcPort] })
  else .ok (true, { layer with state := .busy })

def succeededTiming (layer : Layer Port) (curTick busyTime : Nat) : Except Fault (Layer Port) :=
  if layer.state = .busy then layer.occupyLayer curTick busyTime else .error .assertion

def failedTiming (layer : Layer Port) (srcPort : Port) (curTick busyTime : Nat) :
    Except Fault (Layer Port) :=
  if layer.waitingForPeer = none ∧ layer.state = .busy then
    { layer with waitingForPeer := some srcPort }.occupyLayer curTick busyTime
  else .error .assertion

/-- What comes before the call of `sendRetry`, and the port that is called. -/
def retryWaiting (layer : Layer Port) : Except Fault (Option Port × Layer Port) :=
  match layer.waitingForLayer with
  | [] => .error .assertion
  | retryingPort :: rest =>
    if layer.state = .idle then
      .ok (some retryingPort, { layer with state := .retry, waitingForLayer := rest })
    else .error .assertion

/-- What comes after the call of `sendRetry`. -/
def retryReturned (layer : Layer Port) (curTick clockEdge : Nat) : Except Fault (Layer Port) :=
  if layer.state = .retry then { layer with state := .busy }.occupyLayer curTick clockEdge
  else .ok layer

def releaseLayer (layer : Layer Port) : Except Fault (Option Port × Layer Port) :=
  if layer.state = .busy ∧ layer.releaseEvent = none then
    if layer.waitingForLayer ≠ [] ∧ layer.waitingForPeer = none then
      { layer with state := .idle }.retryWaiting
    else .ok (none, { layer with state := .idle })
  else .error .assertion

def recvRetry (layer : Layer Port) : Except Fault (Option Port × Layer Port) :=
  match layer.waitingForPeer with
  | none => .error .assertion
  | some port =>
    let queued := { layer with
      waitingForLayer := port :: layer.waitingForLayer, waitingForPeer := none }
    match layer.state with
    | .idle => queued.retryWaiting
    | .busy => .ok (none, queued)
    | .retry => .error .assertion

end Layer

/-! ### The layer among its ports and its peer -/

/-- A layer in time: the port whose packet has been let through and is being offered to the
peer, whether a call of `sendRetry` has not returned yet, and the ports that were told to
retry, the latest first. -/
structure Machine (Port : Type) where
  layer : Layer Port
  curTick : Nat
  inHand : Option Port
  retrying : Bool
  retried : List Port
  deriving DecidableEq

/-- The clock edge that comes next. -/
structure Clock where
  clockEdge : Nat → Nat
  notPast : ∀ tick, tick ≤ clockEdge tick

inductive Action (Port : Type) where
  | tryTiming (srcPort : Port)
  | succeededTiming (busyTime : Nat)
  | failedTiming (busyTime : Nat)
  | releaseLayer
  | recvRetry
  | retryReturned
  | elapse (tick : Nat)

namespace Machine

def start : Machine Port := ⟨⟨.idle, [], none, none⟩, 0, none, false, []⟩

/-- A call has told a port to retry, or none. -/
def retry (machine : Machine Port) (called : Option Port × Layer Port) : Machine Port :=
  { machine with layer := called.2, retrying := called.1.isSome || machine.retrying,
                 retried := called.1.toList ++ machine.retried }

def step (clock : Clock) (machine : Machine Port) : Action Port → Except Fault (Machine Port)
  | .tryTiming srcPort => do
    let (passes, layer) ← machine.layer.tryTiming srcPort
    return { machine with layer, inHand := if passes then some srcPort else machine.inHand }
  | .succeededTiming busyTime => do
    let layer ← machine.layer.succeededTiming machine.curTick busyTime
    return { machine with layer, inHand := none }
  | .failedTiming busyTime =>
    match machine.inHand with
    | none => .error .assertion
    | some srcPort => do
      let layer ← machine.layer.failedTiming srcPort machine.curTick busyTime
      return { machine with layer, inHand := none }
  | .releaseLayer => do
    let called ← { machine.layer with releaseEvent := none }.releaseLayer
    return { machine with curTick := machine.layer.releaseEvent.getD 0 }.retry called
  | .recvRetry => do
    let called ← machine.layer.recvRetry
    return machine.retry called
  | .retryReturned => do
    let layer ← machine.layer.retryReturned machine.curTick (clock.clockEdge machine.curTick)
    return { machine with layer, retrying := false }
  | .elapse tick => .ok { machine with curTick := tick }

/-- The ports that wait: the one that the peer has turned down comes first. -/
def waiting (machine : Machine Port) : List Port :=
  machine.layer.waitingForPeer.toList ++ machine.layer.waitingForLayer

/-- No call of the layer is under way. -/
def Settled (machine : Machine Port) : Prop := machine.inHand = none ∧ machine.retrying = false
deriving Decidable

/-- A port that waits does not offer a packet, the answer of the peer comes while its packet is
in hand, the peer retries after it has turned down a port, and events are processed in the
order of their ticks when no call is under way. -/
def Allowed (machine : Machine Port) : Action Port → Prop
  | .tryTiming srcPort => srcPort ∉ machine.waiting ∧ machine.inHand ≠ some srcPort
  | .succeededTiming busyTime => machine.inHand ≠ none ∧ machine.curTick < busyTime
  | .failedTiming busyTime => machine.inHand ≠ none ∧ machine.curTick < busyTime
  | .releaseLayer => machine.layer.releaseEvent ≠ none ∧ machine.Settled
  | .recvRetry => machine.layer.waitingForPeer ≠ none
  | .retryReturned => machine.retrying = true ∧ machine.inHand = none
  | .elapse tick => machine.Settled ∧ machine.curTick ≤ tick ∧
      ∀ time ∈ machine.layer.releaseEvent, tick ≤ time

instance (machine : Machine Port) (action : Action Port) : Decidable (machine.Allowed action) :=
  match action with
  | .tryTiming _ | .succeededTiming _ | .failedTiming _ | .releaseLayer | .retryReturned =>
    inferInstanceAs (Decidable (_ ∧ _))
  | .elapse _ => inferInstanceAs (Decidable (_ ∧ _ ∧ _))
  | .recvRetry => inferInstanceAs (Decidable (_ ≠ _))

/-! ### What holds in every state -/

/-- The states that a machine can be in. A retry is never sent at the first tick. -/
inductive Shape : Machine Port → Prop where
  | free (curTick : Nat) (retried : List Port) :
      Shape ⟨⟨.idle, [], none, none⟩, curTick, none, false, retried⟩
  | turnedDown {curTick : Nat} {port : Port} {line : List Port} (retried : List Port)
      (once : (port :: line).Nodup) (late : 0 < curTick) :
      Shape ⟨⟨.idle, line, some port, none⟩, curTick, none, false, retried⟩
  | passing {port : Port} {line : List Port} (curTick : Nat) (retrying : Bool)
      (retried : List Port) (once : (port :: line).Nodup) :
      Shape ⟨⟨.busy, line, none, none⟩, curTick, some port, retrying, retried⟩
  | occupied {curTick time : Nat} {line : List Port} (peer : Option Port) (retrying : Bool)
      (retried : List Port) (once : (peer.toList ++ line).Nodup) (notPast : curTick ≤ time)
      (late : 0 < time) :
      Shape ⟨⟨.busy, line, peer, some time⟩, curTick, none, retrying, retried⟩
  | retrying {curTick : Nat} {line : List Port} (retried : List Port) (once : line.Nodup)
      (late : 0 < curTick) :
      Shape ⟨⟨.retry, line, none, none⟩, curTick, none, true, retried⟩

/-- How many wake-ups a port that waits is away from its retry, unless the peer turns down
a port in between. -/
def distance (machine : Machine Port) (port : Port) : Nat :=
  machine.waiting.idxOf port +
    if machine.layer.waitingForPeer ≠ none ∧ machine.layer.state = .busy then 1 else 0

end Machine

/-- The layer is woken up by its event or by the peer. -/
def Action.wakes : Action Port → Nat
  | .releaseLayer | .recvRetry => 1
  | _ => 0

/-- The peer turns down a port. -/
def Action.failures : Action Port → Nat
  | .failedTiming _ => 1
  | _ => 0

namespace Machine

/-- A port that waits is told to retry, or waits on with its distance accounted for. -/
def Advances (machine : Machine Port) (action : Action Port) (next : Machine Port) : Prop :=
  ∀ port ∈ machine.waiting, next.retried = port :: machine.retried ∨
    next.retried.count port = machine.retried.count port ∧ port ∈ next.waiting ∧
      next.distance port + action.wakes = machine.distance port + 2 * action.failures

/-- A port that comes too late joins the line. -/
theorem step_tryTiming_waits {clock : Clock} {machine : Machine Port} {srcPort : Port}
    (blocked : machine.layer.state = .busy ∨ machine.layer.waitingForPeer ≠ none)
    (apart : srcPort ∉ machine.waiting) :
    machine.step clock (.tryTiming srcPort) = .ok { machine with
      layer.waitingForLayer := machine.layer.waitingForLayer ++ [srcPort] } ∧
    machine.Advances (.tryTiming srcPort) { machine with
      layer.waitingForLayer := machine.layer.waitingForLayer ++ [srcPort] } := by
  have absent : srcPort ∉ machine.layer.waitingForLayer := fun member =>
    apart (mem_append_right _ member)
  constructor
  · rw [Machine.step, Layer.tryTiming, if_pos blocked, if_neg absent]
    rfl
  · intro port member
    have same : (machine.waiting ++ [srcPort]).idxOf port = machine.waiting.idxOf port :=
      idxOf_append_of_mem member
    rw [waiting, append_assoc] at same
    refine .inr ⟨rfl, ?_, ?_⟩
    · grind [waiting]
    · simp [distance, waiting, same, Action.wakes, Action.failures]

theorem advances_retry {machine next : Machine Port} {action : Action Port} {front : Port}
    (before : machine.waiting = front :: next.waiting)
    (told : next.retried = front :: machine.retried) (woken : action.wakes = 1)
    (noFailure : action.failures = 0) (free : machine.distance = machine.waiting.idxOf)
    (freeNext : next.distance = next.waiting.idxOf) : machine.Advances action next := by
  intro port member
  grind

theorem Shape.step {clock : Clock} {machine : Machine Port} (shape : machine.Shape)
    {action : Action Port} (allowed : machine.Allowed action) :
    ∃ next, machine.step clock action = .ok next ∧ next.Shape ∧ machine.Advances action next := by
  cases action with
  | tryTiming =>
    obtain ⟨apart, _⟩ := allowed
    cases shape with
    | free =>
      exact ⟨_, rfl, .passing _ _ _ (nodup_singleton _),
        fun _ member => absurd member not_mem_nil⟩
    | turnedDown _ _ late =>
      obtain ⟨taken, advances⟩ := step_tryTiming_waits (.inr (Option.some_ne_none _)) apart
      exact ⟨_, taken, .turnedDown _ (by grind [waiting]) late, advances⟩
    | passing =>
      obtain ⟨taken, advances⟩ := step_tryTiming_waits (.inl rfl) apart
      exact ⟨_, taken, .passing _ _ _ (by grind [waiting]), advances⟩
    | occupied _ _ _ _ notPast late =>
      obtain ⟨taken, advances⟩ := step_tryTiming_waits (.inl rfl) apart
      exact ⟨_, taken, .occupied _ _ _ (by grind [waiting]) notPast late, advances⟩
    | retrying _ once =>
      exact ⟨_, rfl, .passing _ _ _ (nodup_cons.mpr ⟨apart, once⟩),
        fun _ member => .inr ⟨rfl, member, rfl⟩⟩
  | succeededTiming =>
    obtain ⟨held, later⟩ := allowed
    cases shape with
    | @passing _ _ _ retrying retried once =>
      refine ⟨_, ?_, .occupied none retrying retried (nodup_cons.mp once).2 (Nat.le_of_lt later)
        (Nat.zero_lt_of_lt later), fun _ member => .inr ⟨rfl, member, rfl⟩⟩
      rw [Machine.step, Layer.succeededTiming, if_pos rfl, Layer.occupyLayer_eq rfl rfl
        (Nat.le_of_lt later) (Nat.zero_lt_of_lt later)]
      rfl
    | _ => exact absurd rfl held
  | failedTiming =>
    obtain ⟨held, later⟩ := allowed
    cases shape with
    | @passing port _ _ retrying retried once =>
      refine ⟨_, ?_, .occupied (some port) retrying retried once (Nat.le_of_lt later)
        (Nat.zero_lt_of_lt later), fun other member => ?_⟩
      · rw [Machine.step]
        dsimp only
        rw [Layer.failedTiming, if_pos ⟨rfl, rfl⟩, Layer.occupyLayer_eq rfl rfl
          (Nat.le_of_lt later) (Nat.zero_lt_of_lt later)]
        rfl
      · have apart : port ≠ other := fun same => (nodup_cons.mp once).1 (same ▸ member)
        refine .inr ⟨rfl, mem_cons_of_mem _ member, ?_⟩
        simp [distance, waiting, idxOf_cons_ne _ apart, Action.wakes, Action.failures]
    | _ => exact absurd rfl held
  | releaseLayer =>
    obtain ⟨due, _, returned⟩ := allowed
    cases shape with
    | @occupied _ _ line peer _ retried once _ late =>
      cases returned
      cases peer with
      | some port =>
        have once : (port :: line).Nodup := once
        refine ⟨_, ?_, .turnedDown retried once late, fun other member => .inr ⟨rfl, member, ?_⟩⟩
        · rw [Machine.step, Layer.releaseLayer, if_pos ⟨rfl, rfl⟩,
            if_neg fun both => nomatch both.2]
          rfl
        · simp [distance, waiting, Action.wakes, Action.failures]
      | none =>
        cases line with
        | nil => exact ⟨_, rfl, .free _ _, fun _ member => absurd member not_mem_nil⟩
        | cons =>
          exact ⟨_, rfl, .retrying _ (nodup_cons.mp once).2 late,
            advances_retry rfl rfl rfl rfl rfl rfl⟩
    | _ => exact absurd rfl due
  | recvRetry =>
    cases shape with
    | turnedDown _ once late =>
      exact ⟨_, rfl, .retrying _ (nodup_cons.mp once).2 late,
        advances_retry rfl rfl rfl rfl rfl rfl⟩
    | @occupied _ _ _ peer _ _ once notPast late =>
      cases peer with
      | none => exact absurd rfl allowed
      | some =>
        exact ⟨_, rfl, .occupied none _ _ once notPast late,
          fun other member => .inr ⟨rfl, member, rfl⟩⟩
    | _ => exact absurd rfl allowed
  | retryReturned =>
    obtain ⟨called, idle⟩ := allowed
    cases shape with
    | occupied _ _ _ once notPast late =>
      exact ⟨_, rfl, .occupied _ _ _ once notPast late, fun _ member => .inr ⟨rfl, member, rfl⟩⟩
    | @retrying curTick _ retried once late =>
      have later := clock.notPast curTick
      refine ⟨_, ?_, .occupied none false retried once later (Nat.lt_of_lt_of_le late later),
        fun _ member => .inr ⟨rfl, member, rfl⟩⟩
      rw [Machine.step, Layer.retryReturned, if_pos rfl, Layer.occupyLayer_eq rfl rfl later
        (Nat.lt_of_lt_of_le late later)]
      rfl
    | passing => cases idle
    | _ => cases called
  | elapse =>
    obtain ⟨⟨idle, returned⟩, later, inTime⟩ := allowed
    cases shape with
    | free => exact ⟨_, rfl, .free _ _, fun _ member => .inr ⟨rfl, member, rfl⟩⟩
    | turnedDown _ once late =>
      exact ⟨_, rfl, .turnedDown _ once (Nat.lt_of_lt_of_le late later),
        fun _ member => .inr ⟨rfl, member, rfl⟩⟩
    | occupied _ _ _ once _ late =>
      exact ⟨_, rfl, .occupied _ _ _ once (inTime _ rfl) late,
        fun _ member => .inr ⟨rfl, member, rfl⟩⟩
    | passing => cases idle
    | retrying => cases returned

/-! ### Runs -/

/-- The wake-ups of a run. -/
def wakeups (actions : List (Action Port)) : Nat := (actions.map Action.wakes).sum

/-- The packets that the peer has turned down in a run. -/
def failures (actions : List (Action Port)) : Nat := (actions.map Action.failures).sum

variable {clock : Clock} {machine final : Machine Port} {actions : List (Action Port)}

theorem Shape.run (shape : machine.Shape)
    (run : Run (Machine.step clock) Allowed machine actions final) : final.Shape := by
  refine run.invariant_of_total Shape (fun shape allowed => ?_) shape
  obtain ⟨next, taken, kept, _⟩ := shape.step allowed
  exact ⟨next, taken, kept⟩

theorem step_retried {next : Machine Port} {action : Action Port}
    (taken : machine.step clock action = .ok next) : machine.retried <:+ next.retried := by
  cases action with
  | releaseLayer | recvRetry =>
    obtain ⟨_, _, rfl⟩ := map_eq_ok taken
    exact suffix_append _ _
  | elapse =>
    cases taken
    exact suffix_refl _
  | failedTiming =>
    rw [Machine.step] at taken
    split at taken
    · cases taken
    · obtain ⟨_, _, rfl⟩ := map_eq_ok taken
      exact suffix_refl _
  | tryTiming _ | succeededTiming _ | retryReturned =>
    obtain ⟨_, _, rfl⟩ := map_eq_ok taken
    exact suffix_refl _

theorem Shape.advances (shape : machine.Shape)
    (run : Run (Machine.step clock) Allowed machine actions final) {port : Port}
    (waits : port ∈ machine.waiting) :
    machine.retried.count port < final.retried.count port ∨
      final.distance port + wakeups actions = machine.distance port + 2 * failures actions := by
  induction run with
  | nil => exact .inr rfl
  | @cons _ next final _ rest allowed taken continued hypothesis =>
    obtain ⟨_, same, kept, advances⟩ := shape.step allowed
    cases taken.symm.trans same
    have later : next.retried.count port ≤ final.retried.count port :=
      List.Sublist.count_le _ (List.IsSuffix.sublist (continued.invariant
        (next.retried <:+ ·.retried) (fun before _ taken => before.trans (step_retried taken))
        (suffix_refl _)))
    rcases advances port waits with told | ⟨sameCount, stays, _⟩
    · rw [told, count_cons_self] at later
      exact .inl later
    · rw [← sameCount]
      refine (hypothesis kept stays).imp_right fun rest => ?_
      simp only [wakeups, failures, map_cons, sum_cons] at rest ⊢
      omega

/-- In every run no assertion fails, no port is in line twice, and a port that waits is told to
retry after more wake-ups than its distance and twice the packets that the peer turns down. -/
theorem layer_wakes_waiting (run : Run (step clock) Allowed start actions machine) :
    (∀ action, machine.Allowed action → ∃ next, machine.step clock action = .ok next) ∧
    machine.layer.waitingForLayer.Nodup ∧
    (machine.Settled → machine.waiting ≠ [] →
      machine.layer.state = .busy ∧ machine.layer.releaseEvent ≠ none ∨
        machine.layer.waitingForPeer ≠ none) ∧
    ∀ port ∈ machine.waiting, ∀ later final, Run (step clock) Allowed machine later final →
      machine.distance port + 2 * failures later < wakeups later →
      machine.retried.count port < final.retried.count port := by
  have shape := Shape.run (.free 0 []) run
  refine ⟨fun action allowed => ?_, ?_, fun settled waits => ?_,
    fun port waits later final continued often => ?_⟩
  · obtain ⟨next, taken, _⟩ := shape.step allowed
    exact ⟨next, taken⟩
  · cases shape with
    | free => exact .nil
    | turnedDown _ once => exact (nodup_cons.mp once).2
    | passing _ _ _ once => exact (nodup_cons.mp once).2
    | occupied _ _ _ once => exact once.of_append_right
    | retrying _ once => exact once
  · cases shape with
    | free => exact absurd rfl waits
    | turnedDown => exact .inr (Option.some_ne_none _)
    | passing => cases settled.1
    | occupied => exact .inl ⟨rfl, Option.some_ne_none _⟩
    | retrying => cases settled.2
  · rcases shape.advances continued waits with told | accounted
    · exact told
    · omega

def everyTick : Clock := ⟨id, Nat.le_refl⟩

theorem layer_wakes_waiting_second_port : ∃ machine final : Machine Nat,
    Run (step everyTick) Allowed start [.tryTiming 0, .tryTiming 1, .succeededTiming 1] machine ∧
    Run (step everyTick) Allowed machine [.releaseLayer] final ∧ 1 ∈ machine.waiting ∧
    machine.retried.count 1 < final.retried.count 1 := by
  have run : Run (step everyTick) Allowed start [.tryTiming 0, .tryTiming 1, .succeededTiming 1]
      ⟨⟨.busy, [1], none, some 1⟩, 0, none, false, []⟩ := .of_guardedRun (by decide +kernel)
  have released : Run (step everyTick) Allowed ⟨⟨.busy, [1], none, some 1⟩, 0, none, false, []⟩
      [.releaseLayer] ⟨⟨.retry, [], none, none⟩, 1, none, true, [1]⟩ :=
    .of_guardedRun (by decide +kernel)
  exact ⟨_, _, run, released, by decide,
    (layer_wakes_waiting run).2.2.2 1 (by decide) _ _ released (by decide)⟩

/-- Port 0, turned down for the `n`th time, and port 1 behind it. -/
def starving (n : Nat) : Machine Nat :=
  ⟨⟨.idle, [1], some 0, none⟩, n + 1, none, false, replicate n 0⟩

/-- A peer that retries every time, and turns down port 0 every time, keeps port 1 waiting
for ever. -/
theorem port_starves :
    Run (step everyTick) Allowed start
      [.tryTiming 0, .tryTiming 1, .failedTiming 1, .releaseLayer] (starving 0) ∧
    ∀ n, Run (step everyTick) Allowed (starving n)
        [.recvRetry, .tryTiming 0, .failedTiming (n + 2), .retryReturned, .releaseLayer]
        (starving (n + 1)) ∧
      1 ∈ (starving n).waiting ∧ 1 ∉ (starving n).retried := by
  refine ⟨.of_guardedRun (by decide +kernel), fun n => ⟨.of_guardedRun ?_, ?_, ?_⟩⟩
  · simp [guardedRun, Allowed, starving, Machine.step, Layer.recvRetry, Layer.retryWaiting,
      retry, Layer.tryTiming, Layer.failedTiming, Layer.occupyLayer, Layer.retryReturned,
      Layer.releaseLayer, Settled, waiting, replicate_succ]
  · exact mem_cons_of_mem _ (mem_singleton_self _)
  · exact fun told => absurd (eq_of_mem_replicate told) (by decide)

end Machine

end Gem5.Mem.Xbar
