/-
This file models the requests of the snoop filter (`mem/snoop_filter.cc`). A look-up marks the
port of a request at the line of its address, and the update of a request that has to come again
takes the mark away. The mark is not set for every request that it is taken away for. The file
proves that the two cancel exactly if the request is uncacheable or its port has no mark at the
line yet.
-/

import Gem5.Library.Run
import Gem5.Mem.Packet
import Mathlib.Data.BitVec

namespace Gem5.Mem.Snooping

open Library Function

inductive Fault where
  | doubleRequest
  | needToHold
  | notHolder
  | assertion
  deriving DecidableEq

/-- The ports with an outstanding request to a line, and the ports that share it. -/
structure SnoopItem where
  requested : BitVec 64
  holder : BitVec 64
  deriving DecidableEq

/-- The part of a packet that the filter reads. -/
structure SnoopPacket where
  addr : BitVec 64
  cmd : MemCmd
  isUncacheable : Bool
  memInhibitAsserted : Bool

structure SnoopFilter where
  cachedLocations : BitVec 64 → Option SnoopItem
  slavePorts : List (Fin 64)
  linesize : BitVec 32

def portToMask (port : Fin 64) : BitVec 64 := 1#64 <<< port.val

namespace SnoopFilter

variable (filter : SnoopFilter) (pkt : SnoopPacket) (port : Fin 64)

/-- The complement has the width of `linesize`. -/
def lineAddr : BitVec 64 := pkt.addr &&& (~~~(filter.linesize - 1)).setWidth 64

/-- The masks of a line; a line that is absent has empty ones. -/
def item (line : BitVec 64) : SnoopItem := (filter.cachedLocations line).getD ⟨0, 0⟩

def setItem (line : BitVec 64) (item : SnoopItem) : SnoopFilter :=
  { filter with cachedLocations := update filter.cachedLocations line (some item) }

def maskToPortList (mask : BitVec 64) : List (Fin 64) :=
  filter.slavePorts.filter fun other => mask &&& portToMask other != 0

def lookupRequest : Except Fault (List (Fin 64) × SnoopFilter) :=
  let line := filter.lineAddr pkt
  let item := filter.item line
  let reqPort := portToMask port
  let interested := filter.maskToPortList ((item.holder ||| item.requested) &&& ~~~reqPort)
  if pkt.isUncacheable = false ∧ pkt.cmd.needsResponse = true then
    if pkt.memInhibitAsserted = false then
      if item.requested &&& reqPort ≠ 0 then .error .doubleRequest
      else .ok (interested,
        filter.setItem line { item with requested := item.requested ||| reqPort })
    else if item.holder &&& reqPort = 0 then .error .needToHold
    else .ok (interested, filter.setItem line item)
  else .ok (interested, filter.setItem line item)

def updateRequest (willRetry : Bool) : Except Fault SnoopFilter :=
  let line := filter.lineAddr pkt
  let item := filter.item line
  let reqPort := portToMask port
  if pkt.isUncacheable then .ok filter
  else if willRetry then
    .ok (filter.setItem line { item with requested := item.requested &&& ~~~reqPort })
  else if pkt.cmd.needsResponse then .ok (filter.setItem line item)
  else if pkt.cmd ≠ .writeback then .error .assertion
  else if item.requested &&& reqPort ≠ 0 then .error .doubleRequest
  else if item.holder &&& reqPort = 0 then .error .notHolder
  else .ok (filter.setItem line { item with holder := item.holder &&& ~~~reqPort })

variable {filter pkt port}

theorem item_setItem (line : BitVec 64) (masks : SnoopItem) :
    (filter.setItem line masks).item = update filter.item line masks :=
  comp_update (fun found : Option SnoopItem => found.getD ⟨0, 0⟩) filter.cachedLocations line
    (some masks)

theorem clear_eq_self_iff (mask bits : BitVec 64) :
    mask &&& ~~~bits = mask ↔ mask &&& bits = 0 := by
  simp only [BitVec.eq_of_getLsbD_eq_iff, BitVec.getLsbD_and, BitVec.getLsbD_not]
  refine forall₂_congr fun index bound => ?_
  cases mask.getLsbD index <;> simp [bound]

theorem set_clear (mask bits : BitVec 64) : (mask ||| bits) &&& ~~~bits = mask &&& ~~~bits := by
  refine BitVec.eq_of_getLsbD_eq fun index bound => ?_
  simp only [BitVec.getLsbD_and, BitVec.getLsbD_or, BitVec.getLsbD_not]
  cases bits.getLsbD index <;> simp

theorem lookupRequest_spec {targets : List (Fin 64)} {looked : SnoopFilter}
    (accepted : filter.lookupRequest pkt port = .ok (targets, looked)) :
    let line := filter.lineAddr pkt
    let marks := (filter.item line).requested
    looked = filter.setItem line (filter.item line) ∨
      pkt.isUncacheable = false ∧ marks &&& portToMask port = 0 ∧
        looked = filter.setItem line
          { filter.item line with requested := marks ||| portToMask port } := by
  dsimp only [lookupRequest] at accepted
  split at accepted
  · rename_i marks
    split at accepted
    · obtain ⟨free, accepted⟩ := else_eq_ok accepted
      cases accepted
      exact .inr ⟨marks.1, not_not.mp free, rfl⟩
    · obtain ⟨_, accepted⟩ := else_eq_ok accepted
      cases accepted
      exact .inl rfl
  · cases accepted
    exact .inl rfl

theorem updateRequest_unchanged_iff (cacheable : pkt.isUncacheable = false) (marks : BitVec 64) :
    let line := filter.lineAddr pkt
    (∃ updated, (filter.setItem line ⟨marks, (filter.item line).holder⟩).updateRequest pkt port
      true = .ok updated ∧ updated.item = filter.item) ↔
      marks &&& ~~~portToMask port = (filter.item line).requested := by
  intro line
  rw [updateRequest, cacheable, if_neg Bool.false_ne_true, if_pos rfl]
  have same : (filter.setItem line ⟨marks, (filter.item line).holder⟩).lineAddr pkt = line := rfl
  rw [same, item_setItem, update_self]
  constructor
  · rintro ⟨_, done, unchanged⟩
    cases done
    rw [item_setItem, item_setItem, update_idem, update_eq_self_iff] at unchanged
    exact congrArg SnoopItem.requested unchanged
  · intro unchanged
    refine ⟨_, rfl, ?_⟩
    rw [item_setItem, item_setItem, update_idem, update_eq_self_iff, unchanged]

/-- The two calls leave all masks as they were exactly if the request is uncacheable or its port
has no mark at the line. -/
theorem retry_unchanged_iff {targets : List (Fin 64)} {looked : SnoopFilter}
    (accepted : filter.lookupRequest pkt port = .ok (targets, looked)) :
    (∃ updated, looked.updateRequest pkt port true = .ok updated ∧ updated.item = filter.item) ↔
      pkt.isUncacheable = true ∨
        (filter.item (filter.lineAddr pkt)).requested &&& portToMask port = 0 := by
  rcases lookupRequest_spec accepted with rfl | ⟨cacheable, free, rfl⟩
  · cases uncacheable : pkt.isUncacheable with
    | true =>
      refine iff_of_true ⟨_, if_pos uncacheable, ?_⟩ (.inl rfl)
      rw [item_setItem, update_eq_self]
    | false =>
      rw [or_iff_right Bool.false_ne_true, ← clear_eq_self_iff]
      exact updateRequest_unchanged_iff uncacheable _
  · refine iff_of_true ((updateRequest_unchanged_iff cacheable _).mpr ?_) (.inr free)
    rw [set_clear, (clear_eq_self_iff _ _).mpr free]

/-- A filter that holds one line, requested and held by port 0. -/
def requestedAndHeld : SnoopFilter where
  cachedLocations := update (fun _ => none) 0 (some ⟨1, 1⟩)
  slavePorts := [0, 1]
  linesize := 64

/-- Port 1 asks for the line. -/
theorem retry_unchanged_iff_other_port : ∃ targets looked updated,
    requestedAndHeld.lookupRequest ⟨8, .readReq, false, false⟩ 1 = .ok (targets, looked) ∧
    looked.updateRequest ⟨8, .readReq, false, false⟩ 1 true = .ok updated ∧
      updated.item = requestedAndHeld.item := by
  have looked : requestedAndHeld.lookupRequest ⟨8, .readReq, false, false⟩ 1 = .ok ([0], _) := rfl
  obtain ⟨updated, done, same⟩ := (retry_unchanged_iff looked).mpr (.inr (by decide))
  exact ⟨_, _, updated, looked, done, same⟩

/-- A writeback of port 0 is turned down, and its outstanding request is forgotten. -/
theorem writeback_forgets_request : ∃ targets looked updated,
    requestedAndHeld.lookupRequest ⟨0, .writeback, false, false⟩ 0 = .ok (targets, looked) ∧
    looked.updateRequest ⟨0, .writeback, false, false⟩ 0 true = .ok updated ∧
      requestedAndHeld.item 0 = ⟨1, 1⟩ ∧ updated.item 0 = ⟨0, 1⟩ :=
  ⟨_, _, _, rfl, rfl, by decide, by decide⟩

end SnoopFilter

end Gem5.Mem.Snooping
