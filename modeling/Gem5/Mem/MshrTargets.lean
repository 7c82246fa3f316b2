/-
This file follows one miss status register through all its uses. The requests
that wait in it are answered in the order they came, once each, and the flags
that snoops set are looked at only while a request is in service, as long as
deferred targets are sent again at once when they have been promoted and no
target comes between two fills of one request. Both provisos are needed: the two
orders of calls that break them are given at the end.
-/

import Gem5.Mem.Mshr

namespace Gem5.Mem

open Library List Mshr

/-! ### The calls of one register -/

/-- How far the response to the request in service has come. -/
inductive FillPhase where
  | awaited
  | filled
  | filledThenAdded
deriving DecidableEq, Repr

/-- A register with the requests that have arrived and those that have been popped, both in order.
Deferred targets are promoted until the request has been marked to be sent again. -/
structure MshrHistory where
  mshr : Mshr
  arrived : List Nat
  popped : List Nat
  promoted : Bool
  fill : FillPhase
deriving DecidableEq, Repr

inductive MshrAction where
  | allocate (pkt : Packet) (whenReady order : Nat)
  | allocateTarget (pkt : Packet) (whenReady order : Nat)
  | handleSnoop (pkt : Packet) (order curTick : Nat)
  | setForward (isForward : Bool)
  | markInService (pendingDirtyResp : Bool)
  | handleFill (pkt : Packet)
  | popTarget
  | promoteDeferredTargets (curTick : Nat)
  | reissue
  | deallocate
  | markDownstreamPending
  | clearDownstreamPending
deriving DecidableEq, Repr

namespace MshrHistory

def create : MshrHistory := ⟨.new, [], [], false, .awaited⟩

/-- The request of the first target, if it is one. -/
def front (history : MshrHistory) : List Nat :=
  { history.mshr.targets with targets := history.mshr.targets.targets.take 1 }.requested

def step (history : MshrHistory) : MshrAction → Except MshrFault MshrHistory
  | .allocate pkt whenReady order => do
    let mshr ← history.mshr.allocate pkt whenReady order
    return { history with mshr := mshr, arrived := history.arrived ++ [pkt.number] }
  | .allocateTarget pkt whenReady order => do
    let mshr ← history.mshr.allocateTarget pkt whenReady order
    return { history with
      mshr := mshr
      arrived := history.arrived ++ [pkt.number]
      fill := if history.fill = .awaited then .awaited else .filledThenAdded }
  | .handleSnoop pkt order curTick => do
    let result ← history.mshr.handleSnoop pkt order curTick
    return { history with mshr := result.1 }
  | .setForward isForward =>
    .ok { history with mshr := { history.mshr with isForward := isForward } }
  | .markInService pendingDirtyResp => do
    let result ← history.mshr.markInService pendingDirtyResp
    return { history with
      mshr := result.1
      popped := if result.2 then history.popped ++ history.front else history.popped
      fill := .awaited }
  | .handleFill pkt => do
    let mshr ← history.mshr.handleFill pkt
    return { history with mshr := mshr, fill := .filled }
  | .popTarget => do
    let mshr ← history.mshr.popTarget
    return { history with mshr := mshr, popped := history.popped ++ history.front }
  | .promoteDeferredTargets curTick => do
    let result ← history.mshr.promoteDeferredTargets curTick
    return { history with mshr := result.1, promoted := result.2 }
  | .reissue => .ok { history with
      mshr := { history.mshr with inService := false }, promoted := false }
  | .deallocate => do
    let mshr ← history.mshr.deallocate
    return { history with mshr := mshr }
  | .markDownstreamPending => do
    let mshr ← history.mshr.markDownstreamPending
    return { history with mshr := mshr }
  | .clearDownstreamPending => do
    let mshr ← history.mshr.clearDownstreamPending
    return { history with mshr := mshr }

/-- Any order of calls in which a register is allocated when it has no targets, and a fill and a
request that is sent again belong to a request in service. -/
def Called (history : MshrHistory) : MshrAction → Prop
  | .allocate _ _ _ => history.mshr.getNumTargets = 0
  | .handleFill _ | .reissue => history.mshr.inService = true
  | .setForward _ => history.mshr.inService = false
  | _ => True

instance (history : MshrHistory) : (action : MshrAction) → Decidable (history.Called action)
  | .allocate .. | .handleFill _ | .reissue | .setForward _ => inferInstanceAs (Decidable (_ = _))
  | .allocateTarget .. | .handleSnoop .. | .markInService _ | .popTarget
  | .promoteDeferredTargets _ | .deallocate | .markDownstreamPending | .clearDownstreamPending =>
    inferInstanceAs (Decidable True)

/-- What the cache keeps to in addition: promoted targets are sent again at once, and only they
are; a forwarded request is not filled and no target is added between two fills; a register is
deallocated when no deferred target is left. -/
def Kept (history : MshrHistory) (action : MshrAction) : Prop :=
  history.Called action ∧ (history.promoted = true ↔ action = .reissue) ∧
    match action with
    | .handleFill _ => history.mshr.isForward = false ∧ history.fill ≠ .filledThenAdded
    | .deallocate => history.mshr.deferredTargets.targets = []
    | _ => True

instance (history : MshrHistory) (action : MshrAction) : Decidable (history.Kept action) :=
  match action with
  | .handleFill _ => inferInstanceAs (Decidable (_ ∧ _ ∧ _ ∧ _))
  | .deallocate => inferInstanceAs (Decidable (_ ∧ _ ∧ _))
  | .allocate .. | .allocateTarget .. | .handleSnoop .. | .setForward _ | .markInService _
  | .popTarget | .promoteDeferredTargets _ | .reissue | .markDownstreamPending
  | .clearDownstreamPending => inferInstanceAs (Decidable (_ ∧ _ ∧ True))

/-! ### What every run keeps -/

/-- A request of the cache itself is in service, and no snoop has set a flag. -/
structure Unmarked (history : MshrHistory) : Prop where
  served : history.mshr.inService = true
  forward : history.mshr.isForward = false
  promoted : history.promoted = false
  invalidate : history.mshr.postInvalidate = false
  downgrade : history.mshr.postDowngrade = false

/-- The requests are in order, a register that is not in service has no deferred targets, and as
long as no snoop has set a flag, deferred targets wait for an exclusive copy only if the targets
before them do not. -/
structure Tidy (history : MshrHistory) : Prop where
  ordered : history.arrived = history.popped ++ history.mshr.targets.requested ++
    history.mshr.deferredTargets.requested
  settled : history.mshr.inService = false ∨ history.promoted = true →
    history.mshr.deferredTargets.targets = []
  reset : history.mshr.deferredTargets.targets = [] →
    history.mshr.deferredTargets.needsExclusive = false
  awaited : history.Unmarked → history.fill = .awaited →
    (history.mshr.pendingDirty = true → history.mshr.deferredTargets.targets = []) ∧
      (history.mshr.pendingDirty = false → history.mshr.targets.needsExclusive = false)
  filled : history.Unmarked → history.fill = .filled →
    history.mshr.deferredTargets.needsExclusive = true → history.mshr.targets.needsExclusive = false

theorem tidy_create : create.Tidy :=
  ⟨rfl, fun _ => rfl, fun _ => rfl, fun unmarked => (by cases unmarked.served),
    fun unmarked => (by cases unmarked.served)⟩

variable {history next : MshrHistory} {mshr : Mshr} {action : MshrAction}
  {actions : List MshrAction}

theorem requested_eq_nil {list : TargetList} (empty : list.targets = []) : list.requested = [] := by
  rw [TargetList.requested, empty]
  rfl

section

variable (tidy : history.Tidy)
include tidy

theorem Tidy.allocate (empty : history.mshr.getNumTargets = 0) {pkt : Packet}
    {whenReady order : Nat} (taken : history.mshr.allocate pkt whenReady order = .ok mshr) :
    Tidy { history with mshr := mshr, arrived := history.arrived ++ [pkt.number] } := by
  obtain ⟨free, _, _, sameDeferred, _, _, request, targets⟩ := allocate_cases taken
  rw [Mshr.getNumTargets, Nat.add_eq_zero_iff] at empty
  have noTargets := eq_nil_of_length_eq_zero empty.1
  have noDeferred := eq_nil_of_length_eq_zero empty.2
  have none := requested_eq_nil noDeferred
  refine ⟨?_, fun _ => sameDeferred ▸ noDeferred, fun _ => ?_, fun unmarked => ?_,
    fun unmarked => ?_⟩
  · rw [tidy.ordered, targets, sameDeferred, none,
      TargetList.requested_add _ _ _ _ _ request, requested_eq_nil noTargets]
    simp
  · rw [sameDeferred]
    exact tidy.reset noDeferred
  · exact absurd unmarked.served (by simp [free])
  · exact absurd unmarked.served (by simp [free])

theorem Tidy.allocateTarget (unpromoted : history.promoted = false) {pkt : Packet}
    {whenReady order : Nat} (taken : history.mshr.allocateTarget pkt whenReady order = .ok mshr) :
    Tidy { history with
      mshr := mshr
      arrived := history.arrived ++ [pkt.number]
      fill := if history.fill = .awaited then .awaited else .filledThenAdded } := by
  have unfilled : (if history.fill = .awaited then FillPhase.awaited else .filledThenAdded) ≠
      .filled := by
    split <;> simp
  have awaits (phase : (if history.fill = .awaited then FillPhase.awaited else .filledThenAdded) =
      .awaited) : history.fill = .awaited := by
    by_contra different
    rw [if_neg different] at phase
    cases phase
  rcases allocateTarget_cases taken with
    ⟨replaced, defers, number, _, rfl⟩ | ⟨appends, rfl⟩
  · obtain ⟨served, isDeferred⟩ := Bool.and_eq_true_iff.mp defers
    refine ⟨?_, fun idle => ?_, fun empty => ?_,
      fun unmarked phase => ⟨fun dirty => ?_, fun clean => ?_⟩,
      fun _ phase => absurd phase unfilled⟩
    · rw [tidy.ordered, TargetList.requested_add _ _ _ _ _ (by simp), number, append_assoc]
    · rcases idle with idle | promoted
      · exact absurd idle (by simp [served])
      · exact absurd promoted (by simp [unpromoted])
    · simp at empty
    · have before : history.Unmarked := { unmarked with }
      have none := (tidy.awaited before (awaits phase)).1 dirty
      dsimp only at dirty
      simp [Mshr.defers, none, before.forward, before.invalidate, before.downgrade, dirty]
        at isDeferred
    · exact (tidy.awaited { unmarked with } (awaits phase)).2 clean
  · refine ⟨?_, tidy.settled, tidy.reset,
      fun unmarked phase => ⟨fun dirty => ?_, fun clean => ?_⟩,
      fun _ phase => absurd phase unfilled⟩
    · rw [tidy.ordered, TargetList.requested_add _ _ _ _ _ (by simp)]
      rcases Bool.and_eq_false_iff.mp appends with idle | stays
      · rw [requested_eq_nil (tidy.settled (.inl idle))]
        simp
      · have none : history.mshr.deferredTargets.targets = [] := by
          simp only [Mshr.defers, Bool.or_eq_false_iff, Bool.not_eq_false',
            List.isEmpty_iff] at stays
          exact stays.1.1
        rw [requested_eq_nil none]
        simp
    · exact (tidy.awaited { unmarked with } (awaits phase)).1 dirty
    · have before := (tidy.awaited { unmarked with } (awaits phase)).2 clean
      have served : history.mshr.inService = true := unmarked.served
      dsimp only at clean
      rw [served, Bool.true_and] at appends
      simp only [Mshr.defers, clean, Bool.not_false, Bool.true_or, Bool.and_true,
        Bool.or_eq_false_iff] at appends
      simp [TargetList.add, before, appends.2]

/-- A change that keeps the requests and the flags of the two lists, and clears no flag that a
snoop has set. -/
theorem Tidy.congr (inService : mshr.inService = history.mshr.inService)
    (isForward : mshr.isForward = history.mshr.isForward)
    (pendingDirty : mshr.pendingDirty = history.mshr.pendingDirty)
    (postInvalidate : history.mshr.postInvalidate = true → mshr.postInvalidate = true)
    (postDowngrade : history.mshr.postDowngrade = true → mshr.postDowngrade = true)
    (needsExclusive : mshr.targets.needsExclusive = history.mshr.targets.needsExclusive)
    (deferredNeedsExclusive : mshr.deferredTargets.needsExclusive =
      history.mshr.deferredTargets.needsExclusive)
    (deferredEmpty : mshr.deferredTargets.targets = [] ↔ history.mshr.deferredTargets.targets = [])
    {popped : List Nat} (ordered : history.arrived =
      popped ++ mshr.targets.requested ++ mshr.deferredTargets.requested) :
    Tidy { history with mshr := mshr, popped := popped } := by
  have unset {old new : Bool} (kept : old = true → new = true) (clear : new = false) :
      old = false := by
    cases old with
    | false => rfl
    | true => rw [kept rfl] at clear; cases clear
  have before (unmarked : Unmarked { history with mshr := mshr, popped := popped }) :
      history.Unmarked :=
    ⟨inService ▸ unmarked.served, isForward ▸ unmarked.forward, unmarked.promoted,
      unset postInvalidate unmarked.invalidate, unset postDowngrade unmarked.downgrade⟩
  refine ⟨ordered, ?_, ?_, ?_, ?_⟩
  · rw [inService, deferredEmpty]
    exact tidy.settled
  · rw [deferredEmpty, deferredNeedsExclusive]
    exact tidy.reset
  · rw [pendingDirty, needsExclusive, deferredEmpty]
    exact fun unmarked => tidy.awaited (before unmarked)
  · rw [needsExclusive, deferredNeedsExclusive]
    exact fun unmarked => tidy.filled (before unmarked)

theorem Tidy.handleSnoop (snooped : Mshr.Snooped history.mshr mshr) :
    Tidy { history with mshr := mshr } := by
  refine tidy.congr snooped.inService snooped.isForward snooped.pendingDirty snooped.postInvalidate
    snooped.postDowngrade snooped.needsExclusive snooped.deferredNeedsExclusive
    snooped.deferredEmpty ?_
  rw [snooped.requested, snooped.deferredRequested]
  exact tidy.ordered

end

section

variable (tidy : history.Tidy)
include tidy

theorem Tidy.popTarget (taken : history.mshr.popTarget = .ok mshr) :
    Tidy { history with mshr := mshr, popped := history.popped ++ history.front } := by
  obtain ⟨_, _, listed, rfl⟩ := popTarget_cases taken
  refine tidy.congr (by rfl) (by rfl) (by rfl) (by exact id) (by exact id) (by rfl) (by rfl)
    (by rfl) ?_
  rw [tidy.ordered, front, append_assoc, append_assoc, append_assoc]
  refine congrArg (history.popped ++ ·) ?_
  simp only [TargetList.requested, listed, ← map_append, ← filter_append]
  rfl

theorem Tidy.markInService {pendingDirtyResp released : Bool}
    (taken : history.mshr.markInService pendingDirtyResp = .ok (mshr, released)) :
    Tidy { history with
      mshr := mshr
      popped := if released then history.popped ++ history.front else history.popped
      fill := .awaited } := by
  obtain ⟨idle, ⟨rfl, _, popped⟩ | ⟨rfl, rfl⟩⟩ := markInService_cases taken
  · have tidyPopped := tidy.popTarget popped
    obtain ⟨_, _, _, rfl⟩ := popTarget_cases popped
    exact { tidyPopped with
      awaited := fun unmarked => absurd unmarked.served (by simp [idle])
      filled := fun unmarked => absurd unmarked.served (by simp [idle]) }
  · have none := tidy.settled (.inl idle)
    refine ⟨tidy.ordered, fun _ => none, tidy.reset,
      fun _ _ => ⟨fun _ => none, fun clean => ?_⟩, fun _ phase => (by cases phase)⟩
    exact (Bool.or_eq_false_iff.mp clean).1

theorem Tidy.shared (inTime : history.fill ≠ .filledThenAdded) (unmarked : history.Unmarked)
    (waits : history.mshr.deferredTargets.needsExclusive = true) :
    history.mshr.targets.needsExclusive = false := by
  cases phase : history.fill with
  | awaited =>
    obtain ⟨none, clean⟩ := tidy.awaited unmarked phase
    cases dirty : history.mshr.pendingDirty with
    | false => exact clean dirty
    | true => exact absurd waits (by simp [tidy.reset (none dirty)])
  | filled => exact tidy.filled unmarked phase waits
  | filledThenAdded => exact absurd phase inTime

theorem Tidy.handleFill (inTime : history.fill ≠ .filledThenAdded)
    {pkt : Packet} (taken : history.mshr.handleFill pkt = .ok mshr) :
    Tidy { history with mshr := mshr, fill := .filled } := by
  rcases handleFill_cases taken with rfl | rfl
  · exact { tidy with
      awaited := fun _ phase => (by cases phase)
      filled := fun unmarked _ => tidy.shared inTime { unmarked with } }
  · refine ⟨?_, fun _ => rfl, fun _ => rfl, fun _ phase => (by cases phase),
      fun _ _ waits => (by cases waits)⟩
    rw [tidy.ordered]
    simp [Mshr.movedUp, TargetList.requested, TargetList.new]

theorem Tidy.promoteDeferredTargets {curTick : Nat} {promoted : Bool}
    (unpromoted : history.promoted = false)
    (taken : history.mshr.promoteDeferredTargets curTick = .ok (mshr, promoted)) :
    Tidy { history with mshr := mshr, promoted := promoted } := by
  obtain ⟨empty, ⟨rfl, rfl, _⟩ | ⟨rfl, _, _, rfl⟩⟩ :=
    promoteDeferredTargets_cases taken
  · rw [← unpromoted]
    exact tidy
  · refine ⟨?_, fun _ => empty, fun _ => rfl, fun unmarked => (by cases unmarked.promoted),
      fun unmarked => (by cases unmarked.promoted)⟩
    rw [tidy.ordered, TargetList.requested_resetFlags, requested_eq_nil empty]
    simp

theorem Tidy.idle (none : history.mshr.deferredTargets.targets = []) (free : mshr.inService = false)
    (sameDeferred : mshr.deferredTargets = history.mshr.deferredTargets)
    (sameRequested : mshr.targets.requested = history.mshr.targets.requested) (promoted : Bool) :
    Tidy { history with mshr := mshr, promoted := promoted } := by
  refine ⟨?_, fun _ => sameDeferred ▸ none, fun _ => ?_, fun unmarked => ?_, fun unmarked => ?_⟩
  · rw [sameDeferred, sameRequested]
    exact tidy.ordered
  · rw [sameDeferred]
    exact tidy.reset none
  · exact absurd unmarked.served (by simp [free])
  · exact absurd unmarked.served (by simp [free])

theorem Tidy.step (kept : history.Kept action) (taken : history.step action = .ok next) :
    next.Tidy := by
  obtain ⟨called, promoted, further⟩ := kept
  have unpromoted (other : action ≠ .reissue) : history.promoted = false :=
    Bool.eq_false_iff.mpr (mt promoted.mp other)
  cases action with
  | allocate =>
    obtain ⟨_, done, rfl⟩ := map_eq_ok taken
    exact tidy.allocate called done
  | allocateTarget =>
    obtain ⟨_, done, rfl⟩ := map_eq_ok taken
    exact tidy.allocateTarget (unpromoted (by simp)) done
  | handleSnoop pkt order curTick =>
    obtain ⟨_, _, _, done, snooped⟩ :=
      handleSnoop_spec history.mshr pkt order curTick
    rw [MshrHistory.step, done] at taken
    cases taken
    exact tidy.handleSnoop snooped
  | setForward =>
    cases taken
    exact tidy.idle (tidy.settled (.inl called)) (by exact called) (by rfl) (by rfl)
      history.promoted
  | markInService =>
    obtain ⟨_, done, rfl⟩ := map_eq_ok taken
    exact tidy.markInService done
  | handleFill =>
    obtain ⟨_, done, rfl⟩ := map_eq_ok taken
    exact tidy.handleFill further.2 done
  | popTarget =>
    obtain ⟨_, done, rfl⟩ := map_eq_ok taken
    exact tidy.popTarget done
  | promoteDeferredTargets =>
    obtain ⟨_, done, rfl⟩ := map_eq_ok taken
    exact tidy.promoteDeferredTargets (unpromoted (by simp)) done
  | reissue =>
    cases taken
    exact tidy.idle (tidy.settled (.inr (promoted.mpr rfl))) rfl (by rfl) (by rfl) false
  | deallocate =>
    obtain ⟨_, done, rfl⟩ := map_eq_ok taken
    rw [Mshr.deallocate] at done
    obtain ⟨-, done⟩ := then_eq_ok done
    split at done
    · cases done
      exact tidy.idle further rfl (by rfl) (by rfl) history.promoted
    · cases done
  | markDownstreamPending =>
    obtain ⟨_, done, rfl⟩ := map_eq_ok taken
    rw [Mshr.markDownstreamPending] at done
    split at done
    · cases done
    · cases done
      exact tidy.congr (by rfl) (by rfl) (by rfl) (by exact id) (by exact id) (by rfl) (by rfl)
        (by rfl) tidy.ordered
  | clearDownstreamPending =>
    obtain ⟨_, done, rfl⟩ := map_eq_ok taken
    rw [Mshr.clearDownstreamPending] at done
    split at done
    · cases done
      exact tidy.congr (by rfl) (by rfl) (by rfl) (by exact id) (by exact id) (by rfl) (by rfl)
        (by rfl) tidy.ordered
    · cases done

end

/-- The faults that are not about the flags of snoops and not about targets that need an exclusive
copy already. -/
def Other (fault : MshrFault) : Prop := fault ≠ .flagsNotInService ∧ fault ≠ .alreadyExclusive
deriving Decidable

theorem Tidy.handleFill_raises (tidy : history.Tidy) {pkt : Packet}
    (kept : history.Kept (.handleFill pkt)) : Raises Other (history.mshr.handleFill pkt) := by
  obtain ⟨served, promoted, forward, inTime⟩ := kept
  have unpromoted : history.promoted = false :=
    Bool.eq_false_iff.mpr (mt promoted.mp (by simp))
  rw [Mshr.handleFill, movesUp_eq served, ok_bind]
  refine .ite (fun moves => ?_) fun _ => .ok _
  simp only [Bool.and_eq_true_iff, Bool.not_eq_true'] at moves
  obtain ⟨⟨⟨_, invalidate⟩, downgrade⟩, waits⟩ := moves
  have shared := tidy.shared inTime ⟨served, forward, unpromoted, invalidate, downgrade⟩ waits
  rw [if_neg (by simp [shared])]
  exact .ite (fun _ => .error (by decide)) fun _ => .ok _

theorem popTarget_raises (mshr : Mshr) : Raises Other mshr.popTarget := by
  rw [Mshr.popTarget]
  split
  · exact .error (by decide)
  · exact .ok _

theorem markInService_raises (mshr : Mshr) (pendingDirtyResp : Bool) :
    Raises Other (mshr.markInService pendingDirtyResp) := by
  have forwards : Raises Other mshr.isForwardNoResponse := by
    refine .ite (fun _ => .ok _) fun _ => ?_
    split
    · exact .error (by decide)
    · exact .ok _
  refine .ite (fun _ => .error (by decide)) fun _ =>
    forwards.bind fun _ _ => .ite (fun _ => ?_) fun _ => .ok _
  exact (popTarget_raises mshr).map

theorem promoteDeferredTargets_raises (mshr : Mshr) (curTick : Nat) :
    Raises Other (mshr.promoteDeferredTargets curTick) := by
  refine .ite (fun _ => ?_) fun _ => .error (by decide)
  split
  · exact .ok _
  · exact .ok _

theorem Tidy.raises (tidy : history.Tidy) (kept : history.Kept action) :
    Raises Other (history.step action) := by
  cases action with
  | allocate =>
    exact (Raises.ite (fun _ => .ite (fun _ => .ok _) fun _ =>
      .error (by decide)) fun _ => .error (by decide)).map
  | allocateTarget =>
    refine .map fun fault failed => ?_
    rcases allocateTarget_raises fault failed with rfl | rfl
    · decide
    · decide
  | handleSnoop pkt order curTick =>
    obtain ⟨_, _, _, done, _⟩ := handleSnoop_spec history.mshr pkt order curTick
    rw [MshrHistory.step, done]
    exact .ok _
  | setForward => exact .ok _
  | markInService pendingDirtyResp =>
    exact (markInService_raises _ pendingDirtyResp).map
  | handleFill => exact (tidy.handleFill_raises kept).map
  | popTarget => exact (popTarget_raises _).map
  | promoteDeferredTargets curTick =>
    exact (promoteDeferredTargets_raises _ curTick).map
  | reissue => exact .ok _
  | deallocate =>
    exact (Raises.ite (fun _ => .ite (fun _ => .ok _) fun _ =>
      .error (by decide)) fun _ => .error (by decide)).map
  | markDownstreamPending =>
    exact (Raises.ite (fun _ => .error (by decide)) fun _ => .ok _).map
  | clearDownstreamPending =>
    exact (Raises.ite (fun _ => .ok _) fun _ => .error (by decide)).map

/-- In every run the requests that have been popped, followed by those that wait, are the requests
that have arrived, in order and each as often as it arrived; the flags of snoops are not looked at
out of service, and a fill finds no targets that need an exclusive copy when it moves the deferred
ones up. -/
theorem targets_in_order (run : Run step Kept create actions history) :
    history.arrived = history.popped ++
        (history.mshr.targets.requested ++ history.mshr.deferredTargets.requested) ∧
      ∀ action, history.Kept action → Raises Other (history.step action) := by
  have tidy : history.Tidy := run.invariant Tidy Tidy.step tidy_create
  refine ⟨?_, fun action kept => tidy.raises kept⟩
  rw [tidy.ordered, append_assoc]

/-- A write is put off behind a read and moved up when the read gets an exclusive copy. -/
theorem targets_in_order_moved_up :
    ∃ history, Run step Kept create [.allocate (.plain 0 .readReq) 0 0, .markInService false,
        .allocateTarget (.plain 1 .writeReq) 1 1, .handleSnoop (.plain 2 .readReq) 2 2,
        .allocateTarget (.plain 3 .readReq) 3 3, .handleFill (.plain 0 .readResp), .popTarget,
        .promoteDeferredTargets 5, .reissue, .markInService true,
        .handleFill (.plain 1 .readExResp), .popTarget] history ∧ history.popped = [0, 1] ∧
      (history.arrived = history.popped ++
        (history.mshr.targets.requested ++ history.mshr.deferredTargets.requested) ∧
      ∀ action, history.Kept action → Raises Other (history.step action)) := by
  exact Run.exists_checked (fun history => history.popped = [0, 1])
    (by decide +kernel) fun _ run popped => ⟨popped, targets_in_order run⟩

/-- A target between the promotion and the call that sends the request again is popped after a later
one, and a target between two fills of one request makes the second fill fail. -/
theorem targets_out_of_order :
    (∃ history, Run step Called create [.allocate (.plain 0 .readReq) 0 0, .markInService false,
        .allocateTarget (.plain 1 .writeReq) 1 1, .popTarget, .promoteDeferredTargets 2,
        .allocateTarget (.plain 2 .writeReq) 3 2, .reissue,
        .allocateTarget (.plain 3 .readReq) 4 3, .popTarget, .popTarget] history ∧
      history.arrived = [0, 1, 2, 3] ∧ history.popped = [0, 1, 3]) ∧
    ∃ history, Run step Called create [.allocate (.plain 0 .readReq) 0 0, .markInService false,
        .allocateTarget (.plain 1 .writeReq) 1 1, .handleFill (.plain 0 .readResp),
        .allocateTarget (.plain 2 .writeReq) 3 2] history ∧
      history.step (.handleFill (.plain 0 .readResp)) = .error .alreadyExclusive := by
  constructor
  · exact Run.exists_check (by decide +kernel)
  · exact Run.exists_checked (fun history =>
        raised (history.step (.handleFill (.plain 0 .readResp))) = some .alreadyExclusive)
      (by decide +kernel) fun _ _ failed => eq_error_of_raised failed

end MshrHistory

end Gem5.Mem
