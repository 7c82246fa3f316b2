/-
This file models the store set predictor of the out-of-order processor. The store set
identifier table maps the instructions to their sets, the last fetched store table gives for
each set the last store that was inserted, and the store list holds the stores that have been
inserted and are neither issued nor squashed, the youngest first.

A squash takes the squashed stores from the front of the list. Its loop makes no progress at a
store whose set has meanwhile recorded an older store, which happens when the stores of two
threads are inserted against the order of their sequence numbers. It also does not see an entry
of the last fetched store table whose store has left the list: a store that issues after its
instruction has been moved to another set leaves the list but not the table. The file proves
that these are the only two ways in which a squash can fail.
-/

import Gem5.Library.Run
import Mathlib

namespace Gem5.Cpu.MemDep

open Library

inductive Fault where
  | indexRange
  | setRange
  | diverges
deriving DecidableEq, Repr

structure Config where
  ssitSize : Nat
  lfstSize : Nat
  clearPeriod : Nat
  ssitPower : ∃ exponent, ssitSize = 2 ^ exponent
  lfstPower : ∃ exponent, lfstSize = 2 ^ exponent

/-- The tables of the predictor. The store list maps sequence numbers to sets, and is kept in
descending order of the sequence numbers. -/
structure StoreSet where
  ssit : Nat → Nat
  validSSIT : Nat → Bool
  lfst : Nat → Nat
  validLFST : Nat → Bool
  storeList : List (Nat × Nat)
  memOpsPred : Nat

def StoreSet.init : StoreSet where
  ssit _ := 0
  validSSIT _ := false
  lfst _ := 0
  validLFST _ := false
  storeList := []
  memOpsPred := 0

def calcIndex (config : Config) (pc : Nat) : Nat :=
  (pc >>> 2) &&& (config.ssitSize - 1)

def calcSSID (config : Config) (pc : Nat) : Nat :=
  (pc ^^^ (pc >>> 10)) % config.lfstSize

/-- Assignment to the place of a key in a map with descending keys. -/
def assign (key value : Nat) : List (Nat × Nat) → List (Nat × Nat)
  | [] => [(key, value)]
  | entry :: rest =>
    if entry.1 < key then (key, value) :: entry :: rest
    else if entry.1 = key then (key, value) :: rest
    else entry :: assign key value rest

namespace StoreSet

def clear (set : StoreSet) : StoreSet :=
  { set with validSSIT := fun _ => false, validLFST := fun _ => false, storeList := [] }

def checkClear (config : Config) (set : StoreSet) : StoreSet :=
  if config.clearPeriod < set.memOpsPred + 1 then
    { set with memOpsPred := 0 }.clear
  else { set with memOpsPred := set.memOpsPred + 1 }

/-- The instruction at an index of the table is put into a set. -/
def place (index ssid : Nat) (set : StoreSet) : StoreSet :=
  { set with
    validSSIT := Function.update set.validSSIT index true
    ssit := Function.update set.ssit index ssid }

def violation (config : Config) (storePC loadPC : Nat) (set : StoreSet) : Except Fault StoreSet :=
  let loadIndex := calcIndex config loadPC
  let storeIndex := calcIndex config storePC
  if ¬ (loadIndex < config.ssitSize ∧ storeIndex < config.ssitSize) then .error .indexRange
  else
    match set.validSSIT loadIndex, set.validSSIT storeIndex with
    | false, false =>
      let newSet := calcSSID config loadPC
      if newSet < config.lfstSize then
        .ok ((set.place loadIndex newSet).place storeIndex newSet)
      else .error .setRange
    | true, false =>
      let loadSSID := set.ssit loadIndex
      if loadSSID < config.lfstSize then .ok (set.place storeIndex loadSSID)
      else .error .setRange
    | false, true => .ok (set.place loadIndex (set.ssit storeIndex))
    | true, true =>
      let loadSSID := set.ssit loadIndex
      let storeSSID := set.ssit storeIndex
      if ¬ (loadSSID < config.lfstSize ∧ storeSSID < config.lfstSize) then .error .setRange
      else if loadSSID < storeSSID then
        .ok { set with ssit := Function.update set.ssit storeIndex loadSSID }
      else .ok { set with ssit := Function.update set.ssit loadIndex storeSSID }

def insertLoad (config : Config) (set : StoreSet) : StoreSet :=
  set.checkClear config

/-- The store becomes the last fetched one of its set. -/
def record (ssid storeSeqNum : Nat) (set : StoreSet) : StoreSet :=
  { set with
    lfst := Function.update set.lfst ssid storeSeqNum
    validLFST := Function.update set.validLFST ssid true
    storeList := assign storeSeqNum ssid set.storeList }

def insertStore (config : Config) (storePC storeSeqNum : Nat) (set : StoreSet) :
    Except Fault StoreSet :=
  let index := calcIndex config storePC
  let set := set.checkClear config
  if ¬ index < config.ssitSize then .error .indexRange
  else if ¬ set.validSSIT index then .ok set
  else if set.ssit index < config.lfstSize then .ok (set.record (set.ssit index) storeSeqNum)
  else .error .setRange

def erase (seqNum : Nat) (set : StoreSet) : StoreSet :=
  { set with storeList := set.storeList.filter fun entry => entry.1 ≠ seqNum }

def issued (config : Config) (issuedPC issuedSeqNum : Nat) (isStore : Bool) (set : StoreSet) :
    Except Fault StoreSet :=
  if ¬ isStore then .ok set
  else
    let index := calcIndex config issuedPC
    if ¬ index < config.ssitSize then .error .indexRange
    else
      let set := set.erase issuedSeqNum
      if ¬ set.validSSIT index then .ok set
      else
        let storeSSID := set.ssit index
        if ¬ storeSSID < config.lfstSize then .error .setRange
        else if set.validLFST storeSSID ∧ set.lfst storeSSID = issuedSeqNum then
          .ok { set with validLFST := Function.update set.validLFST storeSSID false }
        else .ok set

/-- The loop of a squash, with the number of its rounds bounded by the first argument. The
last branch leaves everything, its iterator included, as it was. -/
def squashLoop (squashedNum : Nat) : Nat → StoreSet → Option StoreSet
  | 0, _ => none
  | fuel + 1, set =>
    match set.storeList with
    | [] => some set
    | (first, idx) :: rest =>
      if first ≤ squashedNum then some set
      else if set.validLFST idx ∧ squashedNum < set.lfst idx then
        squashLoop squashedNum fuel
          { set with validLFST := Function.update set.validLFST idx false, storeList := rest }
      else if ¬ set.validLFST idx ∧ squashedNum < set.lfst idx then
        squashLoop squashedNum fuel { set with storeList := rest }
      else squashLoop squashedNum fuel set

/-- A squash of any thread. A loop that has not ended when the list is used up never ends. -/
def squash (squashedNum : Nat) (set : StoreSet) : Except Fault StoreSet :=
  match set.squashLoop squashedNum (set.storeList.length + 1) with
  | some after => .ok after
  | none => .error .diverges

end StoreSet

/-! ### The loop of a squash -/

section Loop

variable {squashedNum : Nat}

/-- The keys of a store list descend. -/
def Descending (list : List (Nat × Nat)) : Prop :=
  list.Pairwise fun first second => second.1 < first.1

/-- Every store to be squashed belongs to a set whose last recorded store is squashed too. -/
def Followed (squashedNum : Nat) (set : StoreSet) : Prop :=
  ∀ entry ∈ set.storeList, squashedNum < entry.1 → squashedNum < set.lfst entry.2
deriving Decidable

theorem Followed.tail {set : StoreSet} {entry : Nat × Nat} {rest : List (Nat × Nat)}
    (followed : Followed squashedNum set) (isList : set.storeList = entry :: rest)
    (valid : Nat → Bool) :
    Followed squashedNum { set with validLFST := valid, storeList := rest } := by
  intro other isOther
  exact followed other (isList ▸ List.mem_cons_of_mem entry isOther)

theorem squashLoop_of_not_followed (fuel : Nat) (set : StoreSet)
    (descending : Descending set.storeList) (fails : ¬ Followed squashedNum set) :
    set.squashLoop squashedNum fuel = none := by
  induction fuel generalizing set with
  | zero => rfl
  | succ _ hypothesis =>
    rw [StoreSet.squashLoop]
    split
    · rename_i isList
      refine absurd (fun entry isEntry => ?_) fails
      rw [isList] at isEntry
      cases isEntry
    · rename_i first idx rest isList
      rw [isList] at descending
      obtain ⟨belowFirst, descendingRest⟩ := List.pairwise_cons.mp descending
      have squashed : ¬ first ≤ squashedNum := by
        intro kept
        refine fails fun entry isEntry above => ?_
        rw [isList] at isEntry
        obtain rfl | isRest := List.mem_cons.mp isEntry
        · exact absurd above (Nat.not_lt.mpr kept)
        · exact absurd (Nat.lt_trans above (belowFirst entry isRest)) (Nat.not_lt.mpr kept)
      have failsRest (younger : squashedNum < set.lfst idx) (valid : Nat → Bool) :
          ¬ Followed squashedNum { set with validLFST := valid, storeList := rest } := by
        intro followed
        refine fails fun entry isEntry above => ?_
        rw [isList] at isEntry
        obtain rfl | isRest := List.mem_cons.mp isEntry
        · exact younger
        · exact followed entry isRest above
      rw [if_neg squashed]
      split
      · rename_i younger
        exact hypothesis _ descendingRest (failsRest younger.2 _)
      · split
        · rename_i younger
          exact hypothesis _ descendingRest (failsRest younger.2 _)
        · exact hypothesis _ (isList ▸ descending) fails

theorem squashLoop_of_followed {fuel : Nat} {set : StoreSet}
    (enough : set.storeList.length < fuel) (followed : Followed squashedNum set) :
    ∃ after, set.squashLoop squashedNum fuel = some after := by
  induction fuel generalizing set with
  | zero => exact absurd enough (Nat.not_lt_zero _)
  | succ fuel hypothesis =>
    rw [StoreSet.squashLoop]
    split
    · exact ⟨set, rfl⟩
    · rename_i first idx rest isList
      have enoughRest : rest.length < fuel := by
        rw [isList, List.length_cons] at enough
        exact Nat.lt_of_succ_lt_succ enough
      split
      · exact ⟨set, rfl⟩
      · rename_i squashed
        have younger : squashedNum < set.lfst idx :=
          followed (first, idx) (isList ▸ List.mem_cons_self) (Nat.lt_of_not_le squashed)
        split
        · exact hypothesis enoughRest (followed.tail isList _)
        · rename_i notValid
          rw [if_pos ⟨fun valid => notValid ⟨valid, younger⟩, younger⟩]
          exact hypothesis enoughRest (followed.tail isList _)

/-- What a squash that ends has done. -/
structure Squashed (squashedNum : Nat) (set after : StoreSet) : Prop where
  lfst : after.lfst = set.lfst
  storeList : after.storeList = set.storeList.filter fun entry => entry.1 ≤ squashedNum
  validLFST : ∀ ssid, after.validLFST ssid = true ↔ set.validLFST ssid = true ∧
    ∀ entry ∈ set.storeList, squashedNum < entry.1 → entry.2 ≠ ssid

theorem Squashed.refl {set : StoreSet} (kept : ∀ entry ∈ set.storeList, entry.1 ≤ squashedNum) :
    Squashed squashedNum set set where
  lfst := rfl
  storeList := (List.filter_eq_self.mpr fun entry isEntry =>
    decide_eq_true (kept entry isEntry)).symm
  validLFST _ := ⟨fun valid => ⟨valid, fun entry isEntry above =>
    absurd above (Nat.not_lt.mpr (kept entry isEntry))⟩, And.left⟩

theorem Squashed.cons {set after : StoreSet} {first idx : Nat} {rest : List (Nat × Nat)}
    {valid : Nat → Bool} (isList : set.storeList = (first, idx) :: rest)
    (squashed : squashedNum < first)
    (isValid : ∀ ssid, valid ssid = true ↔ set.validLFST ssid = true ∧ idx ≠ ssid)
    (remaining : Squashed squashedNum { set with validLFST := valid, storeList := rest } after) :
    Squashed squashedNum set after where
  lfst := remaining.lfst
  storeList := by
    rw [remaining.storeList, isList, List.filter_cons_of_neg]
    exact fun kept => absurd squashed (Nat.not_lt.mpr (of_decide_eq_true kept))
  validLFST ssid := by
    rw [remaining.validLFST, isValid, isList, List.forall_mem_cons, and_assoc]
    refine and_congr_right fun _ => and_congr_left fun _ => ⟨fun other _ => other, fun other => ?_⟩
    exact other squashed

theorem squashed_of_squashLoop {fuel : Nat} {set after : StoreSet}
    (descending : Descending set.storeList) (ended : set.squashLoop squashedNum fuel = some after) :
    Squashed squashedNum set after := by
  induction fuel generalizing set with
  | zero => cases ended
  | succ _ hypothesis =>
    rw [StoreSet.squashLoop] at ended
    split at ended
    · rename_i isList
      cases ended
      refine .refl fun entry isEntry => ?_
      rw [isList] at isEntry
      cases isEntry
    · rename_i first idx rest isList
      have descendingAll := descending
      rw [isList] at descending
      obtain ⟨belowFirst, descendingRest⟩ := List.pairwise_cons.mp descending
      split at ended
      · rename_i kept
        cases ended
        refine .refl fun entry isEntry => ?_
        rw [isList] at isEntry
        obtain rfl | isRest := List.mem_cons.mp isEntry
        · exact kept
        · exact Nat.le_trans (Nat.le_of_lt (belowFirst entry isRest)) kept
      · rename_i squashed
        split at ended
        · refine .cons isList (Nat.lt_of_not_le squashed) (fun ssid => ?_)
            (hypothesis descendingRest ended)
          by_cases same : ssid = idx
          · subst same
            rw [Function.update_self]
            exact ⟨nofun, fun valid => absurd rfl valid.2⟩
          · rw [Function.update_of_ne same]
            exact ⟨fun valid => ⟨valid, fun equal => same equal.symm⟩, And.left⟩
        · split at ended
          · rename_i _ notValid
            refine .cons isList (Nat.lt_of_not_le squashed) (fun ssid => ?_)
              (hypothesis descendingRest ended)
            exact ⟨fun valid => ⟨valid, fun equal => notValid.1 (equal ▸ valid)⟩, And.left⟩
          · exact hypothesis descendingAll ended

end Loop

/-! ### Calls -/

inductive Call where
  | violation (storePC loadPC : Nat)
  | insertLoad (loadPC loadSeqNum : Nat)
  | insertStore (storePC storeSeqNum tid : Nat)
  | issued (issuedPC issuedSeqNum : Nat) (isStore : Bool)
  | squash (squashedNum tid : Nat)
deriving Repr

/-- The predictor, with what it does not record itself: the stores that were inserted and the
thread whose store an entry of the last fetched store table is about. -/
structure Trace where
  set : StoreSet
  inserted : List Nat
  owner : Nat → Nat

namespace Trace

def start : Trace where
  set := .init
  inserted := []
  owner _ := 0

/-- The set that an inserted store is recorded in, if it has one. -/
def entered (config : Config) (storePC : Nat) (set : StoreSet) : Option Nat :=
  let set := set.checkClear config
  if set.validSSIT (calcIndex config storePC) then some (set.ssit (calcIndex config storePC))
  else none

def step (config : Config) (trace : Trace) : Call → Except Fault Trace
  | .violation storePC loadPC => do
    let set ← trace.set.violation config storePC loadPC
    return { trace with set }
  | .insertLoad _ _ => return { trace with set := trace.set.insertLoad config }
  | .insertStore storePC storeSeqNum tid => do
    let set ← trace.set.insertStore config storePC storeSeqNum
    return {
      set
      inserted := storeSeqNum :: trace.inserted
      owner := match entered config storePC trace.set with
        | some ssid => Function.update trace.owner ssid tid
        | none => trace.owner }
  | .issued issuedPC issuedSeqNum isStore => do
    let set ← trace.set.issued config issuedPC issuedSeqNum isStore
    return { trace with set }
  | .squash squashedNum _ => do
    let set ← trace.set.squash squashedNum
    return { trace with set }

end Trace

end Gem5.Cpu.MemDep
