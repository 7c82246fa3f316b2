/-
This file models one miss status register: the requests it has to answer, those
it has to put off until the request in service has been answered, and the flags
that snoops leave behind. Every function gets a lemma that says what it changes
of the parts the later files are about.
-/

import Gem5.Library.Run
import Gem5.Mem.Packet

namespace Gem5.Mem

open Library List

/-! ### Targets -/

inductive Source where
  | fromCPU
  | fromSnoop
  | fromPrefetcher
deriving DecidableEq, Repr

structure Target where
  readyTime : Nat
  order : Nat
  pkt : Packet
  source : Source
  markedPending : Bool
deriving DecidableEq, Repr

structure TargetList where
  targets : List Target
  needsExclusive : Bool
  hasUpgrade : Bool
deriving DecidableEq, Repr

def replaceUpgrade (pkt : Packet) : Packet :=
  match pkt.cmd with
  | .upgradeReq => { pkt with cmd := .readExReq }
  | .scUpgradeReq => { pkt with cmd := .scUpgradeFailReq }
  | .storeCondReq => { pkt with cmd := .storeCondFailReq }
  | _ => pkt

namespace TargetList

def new : TargetList := ⟨[], false, false⟩

def resetFlags (list : TargetList) : TargetList :=
  { list with needsExclusive := false, hasUpgrade := false }

def isReset (list : TargetList) : Bool := !list.needsExclusive && !list.hasUpgrade

def add (list : TargetList) (pkt : Packet) (readyTime order : Nat) (source : Source)
    (markPending : Bool) : TargetList where
  targets := list.targets ++ [⟨readyTime, order, pkt, source, markPending⟩]
  needsExclusive := list.needsExclusive || (source != .fromSnoop && pkt.needsExclusive)
  hasUpgrade := list.hasUpgrade ||
    (source != .fromSnoop && (pkt.isUpgrade || pkt.cmd == .storeCondReq))

def replaceUpgrades (list : TargetList) : TargetList :=
  if list.hasUpgrade then
    { list with
      targets := list.targets.map fun target => { target with pkt := replaceUpgrade target.pkt }
      hasUpgrade := false }
  else list

/-- The packets that do not come from a snoop, in order. -/
def requested (list : TargetList) : List Nat :=
  (list.targets.filter fun target => target.source != .fromSnoop).map fun target =>
    target.pkt.number

end TargetList

/-! ### The register -/

/-- A register. The iterators are the nodes of its entries in the lists of the queue. -/
structure Mshr where
  readyTime : Nat
  isUncacheable : Bool
  downstreamPending : Bool
  pendingDirty : Bool
  postInvalidate : Bool
  postDowngrade : Bool
  order : Nat
  inService : Bool
  isForward : Bool
  readyIter : Nat
  allocIter : Nat
  targets : TargetList
  deferredTargets : TargetList
deriving DecidableEq, Repr

/-- The assertions about a register, and the uses of a target that is not there. -/
inductive MshrFault where
  | flagsNotInService
  | notReset
  | deferredNotReset
  | alreadyInService
  | notPending
  | pending
  | targetsLeft
  | hardPrefetch
  | uncacheable
  | alreadyExclusive
  | noTarget
deriving DecidableEq, Repr

namespace Mshr

def new : Mshr :=
  ⟨0, false, false, false, false, false, 0, false, false, 0, 0, .new, .new⟩

def isPendingDirty (mshr : Mshr) : Except MshrFault Bool :=
  if mshr.inService then .ok mshr.pendingDirty else .error .flagsNotInService

def hasPostInvalidate (mshr : Mshr) : Except MshrFault Bool :=
  if mshr.inService then .ok mshr.postInvalidate else .error .flagsNotInService

def hasPostDowngrade (mshr : Mshr) : Except MshrFault Bool :=
  if mshr.inService then .ok mshr.postDowngrade else .error .flagsNotInService

def getNumTargets (mshr : Mshr) : Nat :=
  mshr.targets.targets.length + mshr.deferredTargets.targets.length

def hasTargets (mshr : Mshr) : Bool := !mshr.targets.targets.isEmpty

def popTarget (mshr : Mshr) : Except MshrFault Mshr :=
  match mshr.targets.targets with
  | [] => .error .noTarget
  | _ :: rest => .ok { mshr with targets := { mshr.targets with targets := rest } }

def isForwardNoResponse (mshr : Mshr) : Except MshrFault Bool :=
  if mshr.getNumTargets ≠ 1 then .ok false
  else match mshr.targets.targets with
    | [] => .error .noTarget
    | target :: _ => .ok (target.source == .fromCPU && !target.pkt.needsResponse)

def allocate (mshr : Mshr) (target : Packet) (whenReady order : Nat) : Except MshrFault Mshr :=
  if mshr.targets.isReset then
    if mshr.deferredTargets.isReset then
      .ok { mshr with
        readyTime := whenReady
        order := order
        isForward := false
        isUncacheable := target.isUncacheable
        inService := false
        downstreamPending := false
        targets := mshr.targets.add target whenReady order
          (if target.cmd = .hardPFReq then .fromPrefetcher else .fromCPU) true }
    else .error .deferredNotReset
  else .error .notReset

/-- A cache below holds the request back. -/
def markDownstreamPending (mshr : Mshr) : Except MshrFault Mshr :=
  if mshr.downstreamPending then .error .pending
  else .ok { mshr with downstreamPending := true }

def clearDownstreamPending (mshr : Mshr) : Except MshrFault Mshr :=
  if mshr.downstreamPending then .ok { mshr with downstreamPending := false }
  else .error .notPending

/-- The request is sent. It is not kept if no response is expected. -/
def markInService (mshr : Mshr) (pendingDirtyResp : Bool) : Except MshrFault (Mshr × Bool) :=
  if mshr.inService then .error .alreadyInService
  else do
    let forwarded ← mshr.isForwardNoResponse
    if forwarded then
      let popped ← mshr.popTarget
      return (popped, true)
    else
      return ({ mshr with
        inService := true
        pendingDirty := mshr.targets.needsExclusive || pendingDirtyResp
        postInvalidate := false
        postDowngrade := false }, false)

def deallocate (mshr : Mshr) : Except MshrFault Mshr :=
  if mshr.targets.targets.isEmpty then
    if mshr.deferredTargets.isReset then
      .ok { mshr with targets := mshr.targets.resetFlags, inService := false }
    else .error .deferredNotReset
  else .error .targetsLeft

/-- The new target has to wait until the request in service has been answered. -/
def mustDefer (mshr : Mshr) (pkt : Packet) : Except MshrFault Bool :=
  if mshr.inService then
    if mshr.deferredTargets.targets.isEmpty then do
      let postInvalidate ← mshr.hasPostInvalidate
      if postInvalidate then return true
      else if pkt.needsExclusive then
        let pendingDirty ← mshr.isPendingDirty
        if pendingDirty then
          let postDowngrade ← mshr.hasPostDowngrade
          return postDowngrade || mshr.isForward
        else return true
      else return false
    else .ok true
  else .ok false

def allocateTarget (mshr : Mshr) (pkt : Packet) (whenReady order : Nat) :
    Except MshrFault Mshr :=
  if pkt.cmd = .hardPFReq then .error .hardPrefetch
  else if mshr.isUncacheable then .error .uncacheable
  else do
    let defers ← mshr.mustDefer pkt
    if defers then
      let postInvalidate ← mshr.hasPostInvalidate
      return { mshr with
        deferredTargets := mshr.deferredTargets.add
          (if postInvalidate then replaceUpgrade pkt else pkt) whenReady order .fromCPU true }
    else
      return { mshr with
        targets := mshr.targets.add pkt whenReady order .fromCPU (!mshr.inService) }

/-- The snoop is remembered as a target of its own. -/
def recordSnoop (mshr : Mshr) (pkt : Packet) (order curTick : Nat) (pendingDirty : Bool) :
    Mshr × Packet :=
  ({ mshr with
      targets := mshr.targets.add { Packet.plain pkt.number pkt.cmd with
          isUncacheable := pkt.isUncacheable } curTick order .fromSnoop
        (mshr.downstreamPending && mshr.targets.needsExclusive)
      postInvalidate := mshr.postInvalidate || pkt.needsExclusive },
    if pendingDirty then { pkt with memInhibitAsserted := true, supplyExclusive := true } else pkt)

/-- A snoop that leaves others a shared copy. -/
def downgrade (mshr : Mshr) (pkt : Packet) : Mshr × Packet :=
  if !pkt.needsExclusive && !pkt.isUncacheable then
    ({ mshr with postDowngrade := true }, { pkt with sharedAsserted := true })
  else (mshr, pkt)

def handleSnoop (mshr : Mshr) (pkt : Packet) (order curTick : Nat) :
    Except MshrFault (Mshr × Packet × Bool) :=
  if !mshr.inService || (pkt.isExpressSnoop && mshr.downstreamPending) then
    if pkt.needsExclusive then
      .ok ({ mshr with
        targets := mshr.targets.replaceUpgrades
        deferredTargets := mshr.deferredTargets.replaceUpgrades }, pkt, false)
    else .ok (mshr, pkt, false)
  else do
    let waiting : Mshr := if pkt.needsExclusive then
      { mshr with deferredTargets := mshr.deferredTargets.replaceUpgrades } else mshr
    let postInvalidate ← waiting.hasPostInvalidate
    if postInvalidate then return (waiting, pkt, true)
    else
      let pendingDirty ← waiting.isPendingDirty
      let recorded := if pendingDirty || pkt.isInvalidate then
        waiting.recordSnoop pkt order curTick pendingDirty else (waiting, pkt)
      let downgraded := recorded.1.downgrade recorded.2
      return (downgraded.1, downgraded.2, true)

def promoteDeferredTargets (mshr : Mshr) (curTick : Nat) : Except MshrFault (Mshr × Bool) :=
  if mshr.targets.targets.isEmpty then
    match mshr.deferredTargets.targets with
    | [] => .ok (mshr, false)
    | first :: _ =>
      .ok ({ mshr with
        targets := mshr.deferredTargets
        deferredTargets := mshr.targets.resetFlags
        order := first.order
        readyTime := max curTick first.readyTime }, true)
  else .error .targetsLeft

/-- The response lets the deferred targets be answered as well. -/
def movesUp (mshr : Mshr) (pkt : Packet) : Except MshrFault Bool :=
  if pkt.sharedAsserted then .ok false
  else do
    let postInvalidate ← mshr.hasPostInvalidate
    if postInvalidate then return false
    else
      let postDowngrade ← mshr.hasPostDowngrade
      return !postDowngrade && mshr.deferredTargets.needsExclusive

def handleFill (mshr : Mshr) (pkt : Packet) : Except MshrFault Mshr := do
  let moves ← mshr.movesUp pkt
  if moves then
    if mshr.targets.needsExclusive then .error .alreadyExclusive
    else if mshr.downstreamPending then .error .pending
    else
      return { mshr with
        targets := { mshr.targets with
          targets := mshr.targets.targets ++ mshr.deferredTargets.targets
          needsExclusive := true }
        deferredTargets := .new }
  else return mshr

end Mshr

/-! ### What the functions change -/

theorem replaceUpgrade_number (pkt : Packet) : (replaceUpgrade pkt).number = pkt.number := by
  unfold replaceUpgrade
  split <;> rfl

namespace TargetList

variable (list : TargetList)

@[simp]
theorem add_targets (pkt : Packet) (readyTime order : Nat) (source : Source) (mark : Bool) :
    (list.add pkt readyTime order source mark).targets =
      list.targets ++ [⟨readyTime, order, pkt, source, mark⟩] := rfl

theorem requested_add (pkt : Packet) (readyTime order : Nat) {source : Source} (mark : Bool)
    (request : source ≠ .fromSnoop) :
    (list.add pkt readyTime order source mark).requested = list.requested ++ [pkt.number] := by
  simp [requested, request]

@[simp]
theorem requested_add_fromSnoop (pkt : Packet) (readyTime order : Nat) (mark : Bool) :
    (list.add pkt readyTime order .fromSnoop mark).requested = list.requested := by
  simp [requested]

@[simp]
theorem requested_resetFlags : list.resetFlags.requested = list.requested := rfl

@[simp]
theorem requested_replaceUpgrades : list.replaceUpgrades.requested = list.requested := by
  unfold replaceUpgrades
  split
  · simp only [requested, filter_map, map_map]
    exact map_congr_left fun target _ => replaceUpgrade_number target.pkt
  · rfl

@[simp]
theorem replaceUpgrades_needsExclusive :
    list.replaceUpgrades.needsExclusive = list.needsExclusive := by
  unfold replaceUpgrades
  split <;> rfl

@[simp]
theorem replaceUpgrades_eq_nil : list.replaceUpgrades.targets = [] ↔ list.targets = [] := by
  unfold replaceUpgrades
  split
  · exact map_eq_nil_iff
  · rfl

end TargetList

namespace Mshr

variable {mshr next : Mshr} {pkt : Packet} {whenReady order curTick : Nat}

theorem allocate_cases (taken : mshr.allocate pkt whenReady order = .ok next) :
    next.inService = false ∧ next.isForward = false ∧ next.readyIter = mshr.readyIter ∧
      next.deferredTargets = mshr.deferredTargets ∧ mshr.deferredTargets.isReset = true ∧
      ∃ source, source ≠ .fromSnoop ∧
        next.targets = mshr.targets.add pkt whenReady order source true := by
  rw [allocate] at taken
  obtain ⟨-, taken⟩ := then_eq_ok taken
  obtain ⟨reset, taken⟩ := then_eq_ok taken
  cases taken
  refine ⟨rfl, rfl, rfl, rfl, reset, _, ?_, rfl⟩
  split
  · simp
  · simp

/-- A target for this packet is put off. -/
def defers (mshr : Mshr) (pkt : Packet) : Bool :=
  !mshr.deferredTargets.targets.isEmpty || mshr.postInvalidate ||
    (pkt.needsExclusive && (!mshr.pendingDirty || mshr.postDowngrade || mshr.isForward))

theorem mustDefer_eq : mshr.mustDefer pkt = .ok (mshr.inService && mshr.defers pkt) := by
  unfold mustDefer defers
  by_cases served : mshr.inService = true
  · simp only [served, if_true, hasPostInvalidate, isPendingDirty, hasPostDowngrade, ok_bind]
    cases mshr.deferredTargets.targets.isEmpty <;> cases mshr.postInvalidate <;>
      cases pkt.needsExclusive <;> cases mshr.pendingDirty <;> rfl
  · simp [served]

/-- A new target goes to the end of one of the two lists. -/
theorem allocateTarget_cases (taken : mshr.allocateTarget pkt whenReady order = .ok next) :
    (∃ replaced : Packet, (mshr.inService && mshr.defers pkt) = true ∧
        replaced.number = pkt.number ∧ replaced.needsExclusive = pkt.needsExclusive ∧
        next = { mshr with
          deferredTargets := mshr.deferredTargets.add replaced whenReady order .fromCPU true }) ∨
      (mshr.inService && mshr.defers pkt) = false ∧
        next = { mshr with
          targets := mshr.targets.add pkt whenReady order .fromCPU (!mshr.inService) } := by
  rw [allocateTarget, mustDefer_eq] at taken
  obtain ⟨-, taken⟩ := else_eq_ok taken
  obtain ⟨-, taken⟩ := else_eq_ok taken
  rw [ok_bind] at taken
  cases deferred : mshr.inService && mshr.defers pkt with
  | false =>
    rw [deferred] at taken
    cases taken
    exact .inr ⟨rfl, rfl⟩
  | true =>
    rw [deferred, if_pos rfl, hasPostInvalidate, if_pos (Bool.and_eq_true_iff.mp deferred).1,
      ok_bind] at taken
    cases taken
    refine .inl ⟨_, rfl, ?_, ?_, rfl⟩
    · split
      · exact replaceUpgrade_number pkt
      · rfl
    · split
      · obtain ⟨_, cmd⟩ := pkt
        cases cmd <;> rfl
      · rfl

/-- Adding a target only fails its two assertions about the packet. -/
theorem allocateTarget_raises :
    Raises (fun fault => fault = .hardPrefetch ∨ fault = .uncacheable)
      (mshr.allocateTarget pkt whenReady order) := by
  rw [allocateTarget, mustDefer_eq]
  refine .ite (fun _ error failed => ?_) fun _ => .ite (fun _ error failed => ?_)
    fun _ => ?_
  · cases failed
    exact .inl rfl
  · cases failed
    exact .inr rfl
  · rw [ok_bind]
    cases deferred : mshr.inService && mshr.defers pkt with
    | false => exact .ok _
    | true =>
      rw [if_pos rfl, hasPostInvalidate, if_pos (Bool.and_eq_true_iff.mp deferred).1, ok_bind]
      exact .ok _

/-- What a snoop can do to a register. -/
structure Snooped (mshr next : Mshr) : Prop where
  inService : next.inService = mshr.inService
  isForward : next.isForward = mshr.isForward
  pendingDirty : next.pendingDirty = mshr.pendingDirty
  postInvalidate : mshr.postInvalidate = true → next.postInvalidate = true
  postDowngrade : mshr.postDowngrade = true → next.postDowngrade = true
  readyTime : next.readyTime = mshr.readyTime
  readyIter : next.readyIter = mshr.readyIter
  allocIter : next.allocIter = mshr.allocIter
  requested : next.targets.requested = mshr.targets.requested
  needsExclusive : next.targets.needsExclusive = mshr.targets.needsExclusive
  deferredRequested : next.deferredTargets.requested = mshr.deferredTargets.requested
  deferredNeedsExclusive :
    next.deferredTargets.needsExclusive = mshr.deferredTargets.needsExclusive
  deferredEmpty : next.deferredTargets.targets = [] ↔ mshr.deferredTargets.targets = []

theorem Snooped.refl (mshr : Mshr) : Snooped mshr mshr :=
  ⟨rfl, rfl, rfl, id, id, rfl, rfl, rfl, rfl, rfl, rfl, rfl, Iff.rfl⟩

theorem Snooped.trans {middle : Mshr} (first : Snooped mshr middle) (second : Snooped middle next) :
    Snooped mshr next where
  inService := second.inService.trans first.inService
  isForward := second.isForward.trans first.isForward
  pendingDirty := second.pendingDirty.trans first.pendingDirty
  postInvalidate := second.postInvalidate ∘ first.postInvalidate
  postDowngrade := second.postDowngrade ∘ first.postDowngrade
  readyTime := second.readyTime.trans first.readyTime
  readyIter := second.readyIter.trans first.readyIter
  allocIter := second.allocIter.trans first.allocIter
  requested := second.requested.trans first.requested
  needsExclusive := second.needsExclusive.trans first.needsExclusive
  deferredRequested := second.deferredRequested.trans first.deferredRequested
  deferredNeedsExclusive := second.deferredNeedsExclusive.trans first.deferredNeedsExclusive
  deferredEmpty := second.deferredEmpty.trans first.deferredEmpty

theorem snooped_recordSnoop (mshr : Mshr) (pkt : Packet) (order curTick : Nat) (dirty : Bool) :
    Snooped mshr (mshr.recordSnoop pkt order curTick dirty).1 := by
  refine ⟨rfl, rfl, rfl, fun post => ?_, id, rfl, rfl, rfl, by simp [recordSnoop], ?_, rfl, rfl,
    Iff.rfl⟩
  · show (mshr.postInvalidate || pkt.needsExclusive) = true
    rw [post, Bool.true_or]
  · simp [recordSnoop, TargetList.add]

theorem snooped_downgrade (mshr : Mshr) (pkt : Packet) : Snooped mshr (mshr.downgrade pkt).1 := by
  unfold downgrade
  split
  · exact ⟨rfl, rfl, rfl, id, fun _ => rfl, rfl, rfl, rfl, rfl, rfl, rfl, rfl, Iff.rfl⟩
  · exact .refl mshr

theorem handleSnoop_spec (mshr : Mshr) (pkt : Packet) (order curTick : Nat) :
    ∃ next seen answer, mshr.handleSnoop pkt order curTick = .ok (next, seen, answer) ∧
      Snooped mshr next := by
  rw [handleSnoop]
  by_cases early : (!mshr.inService || (pkt.isExpressSnoop && mshr.downstreamPending)) = true
  · rw [if_pos early]
    split
    · exact ⟨_, _, _, rfl, rfl, rfl, rfl, id, id, rfl, rfl, rfl, by simp, by simp, by simp,
        by simp, by simp⟩
    · exact ⟨_, _, _, rfl, .refl mshr⟩
  · rw [if_neg early]
    have served : mshr.inService = true := by
      cases inService : mshr.inService with
      | true => rfl
      | false => simp [inService] at early
    generalize replaced : (if pkt.needsExclusive = true then
      { mshr with deferredTargets := mshr.deferredTargets.replaceUpgrades } else mshr) = waiting
    have snooped : Snooped mshr waiting := by
      rw [← replaced]
      split
      · exact ⟨rfl, rfl, rfl, id, id, rfl, rfl, rfl, rfl, rfl, by simp, by simp, by simp⟩
      · exact .refl mshr
    have waitingServed := snooped.inService.trans served
    simp only [hasPostInvalidate, isPendingDirty, waitingServed, if_true, ok_bind]
    split
    · exact ⟨_, _, _, rfl, snooped⟩
    · refine ⟨_, _, _, rfl, snooped.trans (.trans ?_ (snooped_downgrade _ _))⟩
      split
      · exact snooped_recordSnoop _ _ _ _ _
      · exact .refl waiting

theorem movesUp_eq (served : mshr.inService = true) :
    mshr.movesUp pkt = .ok (!pkt.sharedAsserted && !mshr.postInvalidate && !mshr.postDowngrade &&
      mshr.deferredTargets.needsExclusive) := by
  simp only [movesUp, hasPostInvalidate, hasPostDowngrade, served, if_true, ok_bind]
  cases pkt.sharedAsserted <;> cases mshr.postInvalidate <;> rfl

/-- The deferred targets moved up. -/
def movedUp (mshr : Mshr) : Mshr :=
  { mshr with
    targets := { mshr.targets with
      targets := mshr.targets.targets ++ mshr.deferredTargets.targets
      needsExclusive := true }
    deferredTargets := .new }

theorem handleFill_cases (taken : mshr.handleFill pkt = .ok next) :
    next = mshr ∨ next = mshr.movedUp := by
  rw [handleFill] at taken
  obtain ⟨_, _, taken⟩ := bind_eq_ok taken
  split at taken
  · obtain ⟨-, taken⟩ := else_eq_ok taken
    split at taken
    · cases taken
    · cases taken
      exact .inr rfl
  · cases taken
    exact .inl rfl

theorem promoteDeferredTargets_cases {promoted : Bool}
    (taken : mshr.promoteDeferredTargets curTick = .ok (next, promoted)) :
    mshr.targets.targets = [] ∧
      (promoted = false ∧ next = mshr ∧ mshr.deferredTargets.targets = [] ∨
        promoted = true ∧ ∃ readyTime order, next = { mshr with
          targets := mshr.deferredTargets
          deferredTargets := mshr.targets.resetFlags
          order := order
          readyTime := readyTime }) := by
  rw [promoteDeferredTargets] at taken
  obtain ⟨empty, taken⟩ := then_eq_ok taken
  refine ⟨isEmpty_iff.mp empty, ?_⟩
  split at taken
  · rename_i none
    cases taken
    exact .inl ⟨rfl, rfl, none⟩
  · cases taken
    exact .inr ⟨rfl, _, _, rfl⟩

theorem popTarget_cases (taken : mshr.popTarget = .ok next) :
    ∃ first rest, mshr.targets.targets = first :: rest ∧
      next = { mshr with targets := { mshr.targets with targets := rest } } := by
  rw [popTarget] at taken
  split at taken
  · cases taken
  · rename_i first rest listed
    cases taken
    exact ⟨first, rest, listed, rfl⟩

theorem markInService_cases {pendingDirtyResp released : Bool}
    (taken : mshr.markInService pendingDirtyResp = .ok (next, released)) :
    mshr.inService = false ∧
      (released = true ∧ mshr.getNumTargets = 1 ∧ mshr.popTarget = .ok next ∨
        released = false ∧ next = { mshr with
          inService := true
          pendingDirty := mshr.targets.needsExclusive || pendingDirtyResp
          postInvalidate := false
          postDowngrade := false }) := by
  rw [markInService] at taken
  obtain ⟨free, taken⟩ := else_eq_ok taken
  refine ⟨Bool.eq_false_iff.mpr free, ?_⟩
  obtain ⟨_, forwards, taken⟩ := bind_eq_ok taken
  split at taken
  · rename_i isForwarded
    obtain ⟨_, pops, taken⟩ := bind_eq_ok taken
    cases taken
    refine .inl ⟨rfl, ?_, pops⟩
    rw [isForwardNoResponse] at forwards
    split at forwards
    · cases forwards
      cases isForwarded
    · rename_i one
      exact not_not.mp one
  · cases taken
    exact .inr ⟨rfl, rfl⟩

end Mshr

end Gem5.Mem
