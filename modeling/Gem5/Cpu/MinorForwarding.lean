/-
This file models how the load/store queue of the in-order processor looks a load up in the
store buffer. A load gets the bytes of a buffered store that covers it, waits for a store that
covers it partly, and goes to memory if no store has a byte of it.

The comparison of two ranges uses the addresses just past their ends, but with the comparisons
for last addresses. Two ranges that only touch are taken for a partial coverage. The file
proves that this is the only case in which the classification differs from the intended one,
and that a load is treated as intended exactly when no touching store stops the scan of the
buffer before the stores that matter.
-/

import Gem5.Library.Run
import Mathlib

namespace Gem5.Cpu.Minor

open Library List

/-- The bytes of a memory access: at least one, and not around the end of the address space. -/
structure AccessRange where
  addr : Nat
  size : Nat
  positive : 0 < size
  noWrap : addr + size < 2 ^ 64
deriving DecidableEq, Repr

inductive AddrRangeCoverage where
  | noAddrRangeCoverage
  | fullAddrRangeCoverage
  | partialAddrRangeCoverage
deriving DecidableEq, Repr

inductive ForwardingFault where
  | slotRange
  | noPacket
  | notCovered
deriving DecidableEq, Repr

/-- Addresses have 64 bits. -/
def endAddr (addr size : Nat) : Nat :=
  (addr + size) % 2 ^ 64

def containsAddrRangeOf (first second : AccessRange) : AddrRangeCoverage :=
  let secondEnd := endAddr second.addr second.size
  let firstEnd := endAddr first.addr first.size
  if secondEnd < first.addr ∨ firstEnd < second.addr then .noAddrRangeCoverage
  else if first.addr ≤ second.addr ∧ secondEnd ≤ firstEnd then .fullAddrRangeCoverage
  else .partialAddrRangeCoverage

/-- The packet of a store in the buffer. -/
structure Store extends AccessRange where
  data : List UInt8
  dataLength : data.length = size
deriving DecidableEq, Repr

/-- The loop over the slots from the youngest on. Barriers have no packet. -/
def scan (load : AccessRange) : List (Option Store) → Nat → AddrRangeCoverage × Nat
  | [], _ => (.noAddrRangeCoverage, 0)
  | none :: rest, slotIndex => scan load rest (slotIndex - 1)
  | some store :: rest, slotIndex =>
    match containsAddrRangeOf store.toAccessRange load with
    | .noAddrRangeCoverage => scan load rest (slotIndex - 1)
    | .fullAddrRangeCoverage => (.fullAddrRangeCoverage, slotIndex)
    | .partialAddrRangeCoverage => (.partialAddrRangeCoverage, slotIndex)

/-- The coverage of a load by the store buffer, and the slot it is found in. The slots are in
the order of their insertion. -/
def canForwardDataToLoad (slots : List (Option Store)) (load : AccessRange) :
    AddrRangeCoverage × Nat :=
  scan load slots.reverse (slots.length - 1)

/-- The bytes that a load gets from a slot. -/
def forwardStoreData (slots : List (Option Store)) (load : AccessRange) (slotNumber : Nat) :
    Except ForwardingFault (List UInt8) :=
  match slots[slotNumber]? with
  | none => .error .slotRange
  | some none => .error .noPacket
  | some (some store) =>
    if containsAddrRangeOf store.toAccessRange load = .fullAddrRangeCoverage then
      .ok ((store.data.drop (load.addr - store.addr)).take load.size)
    else .error .notCovered

/-- What becomes of a load. -/
inductive Outcome where
  | forward (bytes : List UInt8)
  | wait
  | memory
deriving DecidableEq, Repr

/-- The part of the sending of a load that looks at the store buffer. The loads that may not be
buffered, which wait until no store touches them, are left out. -/
def tryToForward (slots : List (Option Store)) (load : AccessRange) :
    Except ForwardingFault Outcome :=
  match canForwardDataToLoad slots load with
  | (.fullAddrRangeCoverage, slot) => do
    let bytes ← forwardStoreData slots load slot
    return .forward bytes
  | (.partialAddrRangeCoverage, _) => .ok .wait
  | (.noAddrRangeCoverage, _) => .ok .memory

/-! ### The bytes of a range -/

namespace AccessRange

def Has (range : AccessRange) (byte : Nat) : Prop :=
  range.addr ≤ byte ∧ byte < range.addr + range.size

def SharesByte (first second : AccessRange) : Prop :=
  ∃ byte, first.Has byte ∧ second.Has byte

def Covers (first second : AccessRange) : Prop :=
  ∀ byte, second.Has byte → first.Has byte

/-- One range ends where the other begins. -/
def Adjacent (first second : AccessRange) : Prop :=
  first.addr + first.size = second.addr ∨ second.addr + second.size = first.addr
deriving Decidable

variable {first second : AccessRange}

theorem sharesByte_iff : SharesByte first second ↔
    first.addr < second.addr + second.size ∧ second.addr < first.addr + first.size := by
  have firstPositive := first.positive
  have secondPositive := second.positive
  constructor
  · rintro ⟨_, inFirst, inSecond⟩
    exact ⟨Nat.lt_of_le_of_lt inFirst.1 inSecond.2, Nat.lt_of_le_of_lt inSecond.1 inFirst.2⟩
  · rintro ⟨before, after⟩
    refine ⟨max first.addr second.addr, ⟨Nat.le_max_left _ _, ?_⟩, Nat.le_max_right _ _, ?_⟩
    · exact Nat.max_lt.mpr ⟨Nat.lt_add_of_pos_right firstPositive, after⟩
    · exact Nat.max_lt.mpr ⟨before, Nat.lt_add_of_pos_right secondPositive⟩

theorem covers_iff : Covers first second ↔
    first.addr ≤ second.addr ∧ second.addr + second.size ≤ first.addr + first.size := by
  have positive := second.positive
  constructor
  · intro covers
    refine ⟨(covers second.addr ⟨Nat.le_refl _, Nat.lt_add_of_pos_right positive⟩).1, ?_⟩
    have last := (covers (second.addr + second.size - 1) ⟨by omega, by omega⟩).2
    omega
  · rintro ⟨before, after⟩ byte inSecond
    exact ⟨Nat.le_trans before inSecond.1, Nat.lt_of_lt_of_le inSecond.2 after⟩

instance (first second : AccessRange) : Decidable (SharesByte first second) :=
  decidable_of_iff' _ sharesByte_iff

instance (first second : AccessRange) : Decidable (Covers first second) :=
  decidable_of_iff' _ covers_iff

theorem endAddr_eq (range : AccessRange) :
    endAddr range.addr range.size = range.addr + range.size :=
  Nat.mod_eq_of_lt range.noWrap

/-- Without wrapping, the classification compares the ends themselves. -/
theorem containsAddrRangeOf_eq (first second : AccessRange) : containsAddrRangeOf first second =
    if second.addr + second.size < first.addr ∨ first.addr + first.size < second.addr then
      .noAddrRangeCoverage
    else if first.addr ≤ second.addr ∧ second.addr + second.size ≤ first.addr + first.size then
      .fullAddrRangeCoverage
    else .partialAddrRangeCoverage := by
  rw [containsAddrRangeOf, endAddr_eq, endAddr_eq]

theorem containsAddrRangeOf_eq_none_iff :
    containsAddrRangeOf first second = .noAddrRangeCoverage ↔
      ¬ SharesByte first second ∧ ¬ Adjacent first second := by
  rw [containsAddrRangeOf_eq, sharesByte_iff, Adjacent]
  split
  · exact ⟨fun _ => by omega, fun _ => rfl⟩
  · split
    · exact ⟨nofun, fun _ => by omega⟩
    · exact ⟨nofun, fun _ => by omega⟩

theorem containsAddrRangeOf_eq_full_iff :
    containsAddrRangeOf first second = .fullAddrRangeCoverage ↔ Covers first second := by
  rw [containsAddrRangeOf_eq, covers_iff]
  split
  · exact ⟨nofun, fun _ => by omega⟩
  · split
    · rename_i covers
      exact ⟨fun _ => covers, fun _ => rfl⟩
    · rename_i notCovers
      exact ⟨nofun, fun covers => absurd covers notCovers⟩

theorem SharesByte.not_adjacent (shares : SharesByte first second) : ¬ Adjacent first second := by
  rw [sharesByte_iff] at shares
  rintro (before | after)
  · omega
  · omega

theorem Covers.sharesByte (covers : Covers first second) : SharesByte first second :=
  have first := Nat.lt_add_of_pos_right second.positive
  ⟨second.addr, covers _ ⟨Nat.le_refl _, first⟩, Nat.le_refl _, first⟩

theorem containsAddrRangeOf_of_adjacent (adjacent : Adjacent first second) :
    containsAddrRangeOf first second = .partialAddrRangeCoverage := by
  cases coverage : containsAddrRangeOf first second with
  | noAddrRangeCoverage =>
    exact absurd adjacent (containsAddrRangeOf_eq_none_iff.mp coverage).2
  | fullAddrRangeCoverage =>
    have covers := containsAddrRangeOf_eq_full_iff.mp coverage
    exact absurd adjacent covers.sharesByte.not_adjacent
  | partialAddrRangeCoverage => rfl

def coverage (first second : AccessRange) : AddrRangeCoverage :=
  if ¬ SharesByte first second then .noAddrRangeCoverage
  else if Covers first second then .fullAddrRangeCoverage
  else .partialAddrRangeCoverage

theorem containsAddrRangeOf_eq_coverage_iff :
    containsAddrRangeOf first second = coverage first second ↔ ¬ Adjacent first second := by
  rw [coverage]
  constructor
  · intro right adjacent
    have notShared : ¬ SharesByte first second := fun shares => shares.not_adjacent adjacent
    rw [if_pos notShared, containsAddrRangeOf_of_adjacent adjacent] at right
    cases right
  · intro notAdjacent
    split
    · rename_i notShared
      exact containsAddrRangeOf_eq_none_iff.mpr ⟨notShared, notAdjacent⟩
    · rename_i shares
      split
      · rename_i covers
        exact containsAddrRangeOf_eq_full_iff.mpr covers
      · rename_i notCovered
        cases given : containsAddrRangeOf first second with
        | noAddrRangeCoverage =>
          exact absurd (not_not.mp shares) (containsAddrRangeOf_eq_none_iff.mp given).1
        | fullAddrRangeCoverage =>
          exact absurd (containsAddrRangeOf_eq_full_iff.mp given) notCovered
        | partialAddrRangeCoverage => rfl

end AccessRange

/-! ### The scan of the buffer -/

section Scan

open AccessRange

variable {load : AccessRange}

/-- The stores of the buffer that have a packet, the youngest first. -/
def youngestFirst (slots : List (Option Store)) : List Store :=
  slots.reverse.filterMap id

def Store.byteAt (store : Store) (address : Nat) : UInt8 :=
  store.data.getD (address - store.addr) 0

/-- The bytes of the load as the store writes them. -/
def Store.bytesFor (store : Store) (load : AccessRange) : List UInt8 :=
  (range load.size).map fun offset => store.byteAt (load.addr + offset)

/-- What is to become of a load: the youngest store with a byte of it decides. -/
def intended (load : AccessRange) (stores : List Store) : Outcome :=
  match stores.find? fun store => decide (SharesByte store.toAccessRange load) with
  | none => .memory
  | some store =>
    if Covers store.toAccessRange load then .forward (store.bytesFor load) else .wait

def scanned (load : AccessRange) : List Store → Outcome
  | [] => .memory
  | store :: older =>
    match containsAddrRangeOf store.toAccessRange load with
    | .noAddrRangeCoverage => scanned load older
    | .fullAddrRangeCoverage => .forward (store.bytesFor load)
    | .partialAddrRangeCoverage => .wait

theorem Store.copied_eq (store : Store) (covers : Covers store.toAccessRange load) :
    (store.data.drop (load.addr - store.addr)).take load.size = store.bytesFor load := by
  rw [covers_iff] at covers
  have dataLength := store.dataLength
  refine ext_getElem ?_ fun offset inCopy inRange => ?_
  · rw [length_take, length_drop, Store.bytesFor, length_map, length_range]
    omega
  · simp only [getElem_take, getElem_drop, bytesFor, getElem_map, getElem_range, byteAt]
    rw [bytesFor, length_map, length_range] at inRange
    have place : load.addr + offset - store.addr = load.addr - store.addr + offset := by omega
    rw [place, getD_eq_getElem?_getD, getElem?_eq_getElem, Option.getD_some]

variable {store : Store} {older : List Store}

theorem scan_outcome {slots : List (Option Store)} {older : List (Option Store)}
    {younger : List (Option Store)} (isSlots : slots.reverse = younger ++ older) :
    (match scan load older (older.length - 1) with
      | (.fullAddrRangeCoverage, slot) => do
        let bytes ← forwardStoreData slots load slot
        return .forward bytes
      | (.partialAddrRangeCoverage, _) => .ok .wait
      | (.noAddrRangeCoverage, _) => .ok .memory) =
      (.ok (scanned load (older.filterMap id)) : Except ForwardingFault Outcome) := by
  induction older generalizing younger with
  | nil => rfl
  | cons slot rest hypothesis =>
    have continued := hypothesis (isSlots.trans (append_cons younger slot rest))
    cases slot with
    | none => exact continued
    | some store =>
      rw [scan, filterMap_cons_some (show id (some store) = some store from rfl), scanned]
      cases found : containsAddrRangeOf store.toAccessRange load with
      | noAddrRangeCoverage => exact continued
      | partialAddrRangeCoverage => rfl
      | fullAddrRangeCoverage =>
        have isSlot : slots[rest.length]? = some (some store) := by
          have whole : slots = rest.reverse ++ (some store :: younger.reverse) := by
            rw [← reverse_reverse slots, isSlots, reverse_append, reverse_cons,
              append_assoc, singleton_append]
          rw [whole, getElem?_append_right (Nat.le_of_eq (length_reverse)),
            length_reverse, Nat.sub_self]
          rfl
        dsimp only
        rw [length_cons, Nat.add_sub_cancel, forwardStoreData, isSlot]
        dsimp only
        rw [if_pos found, store.copied_eq (containsAddrRangeOf_eq_full_iff.mp found)]
        rfl

theorem tryToForward_eq (slots : List (Option Store)) (load : AccessRange) :
    tryToForward slots load = .ok (scanned load (youngestFirst slots)) := by
  have outcome := @scan_outcome load slots _ _ (nil_append slots.reverse).symm
  rw [length_reverse] at outcome
  exact outcome

/-- A store that has a byte of the load or touches it stops the scan. -/
def Touches (load : AccessRange) (store : Store) : Prop :=
  SharesByte store.toAccessRange load ∨ Adjacent store.toAccessRange load

theorem scanned_cons_of_not_touches (apart : ¬ Touches load store) :
    scanned load (store :: older) = scanned load older := by
  rw [scanned, containsAddrRangeOf_eq_none_iff.mpr (not_or.mp apart)]

theorem intended_cons_of_not_sharesByte (apart : ¬ SharesByte store.toAccessRange load) :
    intended load (store :: older) = intended load older := by
  rw [intended, find?_cons, decide_eq_false apart]
  rfl

theorem scanned_cons_of_adjacent (adjacent : Adjacent store.toAccessRange load) :
    scanned load (store :: older) = .wait := by
  rw [scanned, containsAddrRangeOf_of_adjacent adjacent]

theorem scanned_cons_of_sharesByte (shares : SharesByte store.toAccessRange load) :
    scanned load (store :: older) = intended load (store :: older) := by
  rw [scanned, intended, find?_cons, decide_eq_true shares,
    containsAddrRangeOf_eq_coverage_iff.mpr shares.not_adjacent, coverage,
    if_neg (not_not.mpr shares)]
  by_cases covers : Covers store.toAccessRange load
  · rw [if_pos covers]
    exact (if_pos covers).symm
  · rw [if_neg covers]
    exact (if_neg covers).symm

theorem scanned_eq_intended_iff (load : AccessRange) (stores : List Store) :
    scanned load stores = intended load stores ↔
      ∀ younger store older, stores = younger ++ store :: older →
        Adjacent store.toAccessRange load → (∀ other ∈ younger, ¬ Touches load other) →
        intended load older = .wait := by
  induction stores with
  | nil =>
    refine ⟨fun _ younger store older isStores => ?_, fun _ => rfl⟩
    exact absurd isStores.symm (append_ne_nil_of_right_ne_nil younger (cons_ne_nil _ _))
  | cons first rest hypothesis =>
    by_cases shares : SharesByte first.toAccessRange load
    · refine ⟨fun _ younger store older isStores adjacent apart => ?_, fun _ =>
        scanned_cons_of_sharesByte shares⟩
      cases younger with
      | nil =>
        cases isStores
        exact absurd adjacent shares.not_adjacent
      | cons =>
        cases isStores
        exact absurd (.inl shares) (apart first mem_cons_self)
    · rw [intended_cons_of_not_sharesByte shares]
      by_cases adjacent : Adjacent first.toAccessRange load
      · rw [scanned_cons_of_adjacent adjacent]
        constructor
        · intro waits younger store older isStores _ apart
          cases younger with
          | nil =>
            cases isStores
            exact waits.symm
          | cons =>
            cases isStores
            exact absurd (.inr adjacent) (apart first mem_cons_self)
        · intro hidden
          exact (hidden [] first rest rfl adjacent nofun).symm
      · have apartFirst : ¬ Touches load first := not_or.mpr ⟨shares, adjacent⟩
        rw [scanned_cons_of_not_touches apartFirst, hypothesis]
        constructor
        · intro hidden younger store older isStores isAdjacent apart
          cases younger with
          | nil =>
            cases isStores
            exact absurd isAdjacent adjacent
          | cons _ tail =>
            cases isStores
            exact hidden tail store older rfl isAdjacent fun other isOther =>
              apart other (mem_cons_of_mem first isOther)
        · intro hidden younger store older isStores isAdjacent apart
          refine hidden (first :: younger) store older (congrArg (first :: ·) isStores) isAdjacent
            (forall_mem_cons.mpr ⟨apartFirst, apart⟩)

/-- The classification of a store and a load is right exactly when they are not adjacent. And
for any buffer, the load is forwarded the bytes of the youngest store with a byte of it, waits,
or goes to memory as intended, exactly when each adjacent store that the scan reaches before
any other store that touches the load hides only stores that make the load wait too. -/
theorem forwarding_iff (load : AccessRange) :
    (∀ store : AccessRange, containsAddrRangeOf store load = coverage store load ↔
      ¬ Adjacent store load) ∧
    ∀ slots, tryToForward slots load = .ok (intended load (youngestFirst slots)) ↔
      ∀ younger store older, youngestFirst slots = younger ++ store :: older →
        Adjacent store.toAccessRange load → (∀ other ∈ younger, ¬ Touches load other) →
        intended load older = .wait := by
  refine ⟨fun store => containsAddrRangeOf_eq_coverage_iff, fun slots => ?_⟩
  rw [tryToForward_eq, ← scanned_eq_intended_iff]
  exact ⟨Except.ok.inj, congrArg Except.ok⟩

/-- A buffered store of four bytes at 16. -/
def storeAt16 : Store where
  addr := 16
  size := 4
  positive := Nat.succ_pos 3
  noWrap := by decide
  data := [1, 2, 3, 4]
  dataLength := rfl

/-- A load of four bytes at 20. -/
def loadAt20 : AccessRange where
  addr := 20
  size := 4
  positive := Nat.succ_pos 3
  noWrap := by decide

/-- The load right behind a buffered store shares no byte with it, is classified as partly
covered and waits. -/
theorem adjacent_load_waits :
    ¬ SharesByte storeAt16.toAccessRange loadAt20 ∧
      containsAddrRangeOf storeAt16.toAccessRange loadAt20 = .partialAddrRangeCoverage ∧
      tryToForward [some storeAt16] loadAt20 = .ok .wait ∧
      intended loadAt20 (youngestFirst [some storeAt16]) = .memory := by
  refine ⟨?_, by decide, rfl, by decide⟩
  decide

end Scan

end Gem5.Cpu.Minor
