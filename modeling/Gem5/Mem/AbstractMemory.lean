/-
This file models the load-locked and store-conditional accesses of a memory
(`mem/abstract_mem.cc`): one reservation a context, kept by the masked address of its
request. It says for every history of accesses when a store conditional is answered as the
history of written bytes asks. A swap erases no reservation, a store erases those of the
granule that its request begins in only, and a failed upgrade of a store conditional reserves.
-/

import Gem5.Library.Run
import Gem5.Mem.Packet
import Mathlib.Data.List.Nodup

namespace Gem5.Mem

open Library List

namespace MemCmd

def isRead (command : MemCmd) : Bool := command.testCmdAttrib .isRead

def isWrite (command : MemCmd) : Bool := command.testCmdAttrib .isWrite

def isLLSC (command : MemCmd) : Bool := command.testCmdAttrib .isLlsc

end MemCmd

namespace Locked

abbrev Byte := BitVec 8

/-- A packet with its request: the request's address is not always the packet's. -/
structure Packet where
  cmd : MemCmd
  addr : Nat
  paddr : Nat
  contextId : Nat
  data : List Byte
  memInhibitAsserted : Bool
  isInstFetch : Bool
  isCondSwap : Bool
  extraData : BitVec 64
  deriving DecidableEq

structure LockedAddr where
  addr : Nat
  contextId : Nat
  deriving DecidableEq

/-- The lower four bits are masked off. -/
def LockedAddr.mask (paddr : Nat) : Nat := paddr - paddr % 16

structure AbstractMemory where
  start : Nat
  stop : Nat
  null : Bool
  bytes : Nat → Byte
  lockedAddrList : List LockedAddr

inductive Fault where
  | assertion
  | swapWithoutMemory
  | invalidSize
  | unimplemented
  deriving DecidableEq

/-- What the packet gets: the bytes that were read, and whether bytes were written. -/
structure Answer where
  data : List Byte
  wrote : Bool

/-! ### The reservations -/

/-- The record of a context, if it has one, is changed in place. -/
def modifyRecord (contextId paddr : Nat) : List LockedAddr → Option (List LockedAddr)
  | [] => none
  | record :: rest =>
    if record.contextId = contextId then some ({ record with addr := paddr } :: rest)
    else (modifyRecord contextId paddr rest).map (record :: ·)

def trackLoadLocked (pkt : Packet) (list : List LockedAddr) : List LockedAddr :=
  let paddr := LockedAddr.mask pkt.paddr
  (modifyRecord pkt.contextId paddr list).getD (⟨paddr, pkt.contextId⟩ :: list)

def checkLockedAddrList (pkt : Packet) (list : List LockedAddr) : Bool × List LockedAddr :=
  let paddr := LockedAddr.mask pkt.paddr
  let allowStore := !pkt.cmd.isLLSC ||
    list.any fun record => record.addr = paddr ∧ record.contextId = pkt.contextId
  (allowStore, if allowStore then list.filter (·.addr ≠ paddr) else list)

def writeOK (pkt : Packet) (list : List LockedAddr) : Bool × List LockedAddr :=
  if list = [] then (!pkt.cmd.isLLSC, list) else checkLockedAddrList pkt list

/-! ### The access -/

namespace AbstractMemory

def read (memory : AbstractMemory) (addr size : Nat) : List Byte :=
  (range size).map fun index => memory.bytes (addr + index)

def write (memory : AbstractMemory) (addr : Nat) (data : List Byte) : AbstractMemory :=
  { memory with bytes := fun place =>
      if addr ≤ place then data[place - addr]?.getD (memory.bytes place) else memory.bytes place }

/-- The bytes of the condition as the host stores them. -/
def conditionBytes (extraData : BitVec 64) (size : Nat) : List Byte :=
  (range size).map fun index => (extraData >>> (8 * index)).setWidth 8

def swap (memory : AbstractMemory) (pkt : Packet) : Except Fault (Answer × AbstractMemory) :=
  let held := memory.read pkt.addr pkt.data.length
  if memory.null then .error .swapWithoutMemory
  else if pkt.isCondSwap ∧ pkt.data.length ≠ 8 ∧ pkt.data.length ≠ 4 then .error .invalidSize
  else
    let overwrites := !pkt.isCondSwap || held == conditionBytes pkt.extraData pkt.data.length
    if pkt.isInstFetch then .error .assertion
    else .ok (⟨held, overwrites⟩, if overwrites then memory.write pkt.addr pkt.data else memory)

def access (memory : AbstractMemory) (pkt : Packet) : Except Fault (Answer × AbstractMemory) :=
  if ¬ (memory.start ≤ pkt.addr ∧ pkt.addr + pkt.data.length ≤ memory.stop) then
    .error .assertion
  else if pkt.memInhibitAsserted then .ok (⟨[], false⟩, memory)
  else if pkt.cmd = .swapReq then memory.swap pkt
  else if pkt.cmd.isRead then
    if pkt.cmd.isWrite then .error .assertion
    else .ok (⟨if memory.null then [] else memory.read pkt.addr pkt.data.length, false⟩,
      if pkt.cmd.isLLSC then
        { memory with lockedAddrList := trackLoadLocked pkt memory.lockedAddrList }
      else memory)
  else if pkt.cmd.isInvalidate then .ok (⟨[], false⟩, memory)
  else if pkt.cmd.isWrite then
    let (allowed, list) := writeOK pkt memory.lockedAddrList
    let erased := { memory with lockedAddrList := list }
    if ¬ allowed then .ok (⟨[], false⟩, erased)
    else if pkt.isInstFetch then .error .assertion
    else .ok (⟨[], true⟩, if memory.null then erased else erased.write pkt.addr pkt.data)
  else .error .unimplemented

end AbstractMemory

/-! ### Histories -/

/-- What the history of a memory tells about reservations. -/
inductive Event where
  | loadLocked (contextId paddr : Nat)
  /-- A read with the LLSC attribute that is no load-locked access: `SCUpgradeFailReq`. -/
  | upgradeFailed (contextId paddr : Nat)
  | stored (paddr addr size : Nat)
  | swapped (addr size : Nat)
  deriving DecidableEq

def Event.Writes (granule : Nat) : Event → Prop
  | .loadLocked _ _ | .upgradeFailed _ _ => False
  | .stored _ addr size | .swapped addr size =>
    ∃ index, index < size ∧ LockedAddr.mask (addr + index) = granule

def Event.Begins (granule : Nat) : Event → Prop
  | .stored paddr _ _ => LockedAddr.mask paddr = granule
  | _ => False

instance (granule : Nat) (event : Event) : Decidable (event.Writes granule) :=
  match event with
  | .loadLocked .. | .upgradeFailed .. => .isFalse id
  | .stored .. | .swapped .. => inferInstanceAs (Decidable (∃ _, _ ∧ _))

instance (granule : Nat) (event : Event) : Decidable (event.Begins granule) :=
  match event with
  | .stored .. => inferInstanceAs (Decidable (_ = _))
  | .loadLocked .. | .upgradeFailed .. | .swapped .. => .isFalse id

/-- A memory and what has happened to it, the latest first. -/
structure History where
  memory : AbstractMemory
  events : List Event

/-- The event that a read with the LLSC attribute is. -/
def Packet.locks (pkt : Packet) : Event :=
  if pkt.cmd = .loadLockedReq then .loadLocked pkt.contextId pkt.paddr
  else .upgradeFailed pkt.contextId pkt.paddr

/-- The event that an access is. -/
def Packet.event (pkt : Packet) (answer : Answer) : List Event :=
  if answer.wrote then
    if pkt.cmd = .swapReq then [.swapped pkt.addr pkt.data.length]
    else [.stored pkt.paddr pkt.addr pkt.data.length]
  else if pkt.cmd.isRead ∧ pkt.cmd.isLLSC ∧ ¬ pkt.memInhibitAsserted then
    [pkt.locks]
  else []

namespace History

/-- A memory without reservations. -/
def start (start stop : Nat) (null : Bool) (bytes : Nat → Byte) : History :=
  ⟨⟨start, stop, null, bytes, []⟩, []⟩

def step (history : History) (pkt : Packet) : Except Fault History := do
  let (answer, memory) ← history.memory.access pkt
  return ⟨memory, pkt.event answer ++ history.events⟩

end History

/-- The address of a load-locked access of a context. -/
def Event.loads (contextId : Nat) : Event → Option Nat
  | .loadLocked context paddr => if context = contextId then some paddr else none
  | _ => none

/-- The address of a read of a context that the memory tracks. -/
def Event.tracks (contextId : Nat) : Event → Option Nat
  | .loadLocked context paddr | .upgradeFailed context paddr =>
    if context = contextId then some paddr else none
  | _ => none

/-- The events since the latest one of a kind. -/
def eventsSince (kind : Event → Option Nat) (events : List Event) : List Event :=
  events.takeWhile fun event => (kind event).isNone

/-- The latest access of a kind was to the granule, and no event since then is one that ends the
reservation. -/
def Reserved (kind : Event → Option Nat) (ends : Event → Prop) (granule : Nat)
    (events : List Event) : Prop :=
  (∃ addr, events.findSome? kind = some addr ∧ LockedAddr.mask addr = granule) ∧
    ∀ event ∈ eventsSince kind events, ¬ ends event

instance (kind : Event → Option Nat) (ends : Event → Prop) [DecidablePred ends] (granule : Nat)
    (events : List Event) : Decidable (Reserved kind ends granule events) :=
  inferInstanceAs (Decidable ((∃ addr ∈ events.findSome? kind, _) ∧ _))

variable {contextId paddr granule : Nat} {list : List LockedAddr} {kind : Event → Option Nat}
  {ends : Event → Prop} {event : Event} {events : List Event}

theorem reserved_cons (other : kind event = none) :
    Reserved kind ends granule (event :: events) ↔
      ¬ ends event ∧ Reserved kind ends granule events := by
  simp [Reserved, eventsSince, other, and_left_comm]

theorem reserved_cons_some (own : kind event = some paddr) :
    Reserved kind ends granule (event :: events) ↔ LockedAddr.mask paddr = granule := by
  simp [Reserved, eventsSince, own]

theorem Packet.tracks_locks (pkt : Packet) :
    pkt.locks.tracks contextId = if pkt.contextId = contextId then some pkt.paddr else none := by
  rw [locks]
  split <;> rfl

theorem Packet.not_begins_locks (pkt : Packet) (granule : Nat) : ¬ pkt.locks.Begins granule := by
  rw [locks]
  split <;> exact id

/-- Without a failed upgrade since its latest load-locked access, what is tracked of a context
is this access. -/
theorem reserved_tracks_iff
    (loaded : ∀ event ∈ eventsSince (Event.loads contextId) events,
      event.tracks contextId = none) :
    Reserved (Event.tracks contextId) ends granule events ↔
      Reserved (Event.loads contextId) ends granule events := by
  induction events with
  | nil => rfl
  | cons event events hypothesis =>
    cases loads : event.loads contextId with
    | some paddr =>
      have tracks : event.tracks contextId = some paddr := by
        cases event <;> first | exact loads | cases loads
      rw [reserved_cons_some loads, reserved_cons_some tracks]
    | none =>
      have since : eventsSince (Event.loads contextId) (event :: events) =
          event :: eventsSince (Event.loads contextId) events := by simp [eventsSince, loads]
      rw [since] at loaded
      obtain ⟨first, rest⟩ := forall_mem_cons.mp loaded
      rw [reserved_cons loads, reserved_cons first, hypothesis rest]

theorem modifyRecord_eq_none :
    modifyRecord contextId paddr list = none ↔ ∀ record ∈ list, record.contextId ≠ contextId := by
  induction list with
  | nil => simp [modifyRecord]
  | cons _ _ hypothesis =>
    rw [modifyRecord]
    split <;> simp_all

theorem mem_modifyRecord {changed : List LockedAddr}
    (once : (list.map LockedAddr.contextId).Nodup)
    (found : modifyRecord contextId paddr list = some changed) :
    changed.map LockedAddr.contextId = list.map LockedAddr.contextId ∧ ∀ record,
      record ∈ changed ↔ record = ⟨paddr, contextId⟩ ∨
        record.contextId ≠ contextId ∧ record ∈ list := by
  induction list generalizing changed with
  | nil => cases found
  | cons _ _ hypothesis =>
    obtain ⟨_, onceRest⟩ := nodup_cons.mp once
    rw [modifyRecord] at found
    split at found
    · cases found
      refine ⟨rfl, fun record => ?_⟩
      grind
    · obtain ⟨_, foundRest, rfl⟩ := Option.map_eq_some_iff.mp found
      obtain ⟨sameContexts, members⟩ := hypothesis onceRest foundRest
      refine ⟨by rw [map_cons, map_cons, sameContexts], fun record => ?_⟩
      rw [mem_cons, mem_cons, members]
      grind

theorem mem_trackLoadLocked (pkt : Packet) (once : (list.map LockedAddr.contextId).Nodup) :
    ((trackLoadLocked pkt list).map LockedAddr.contextId).Nodup ∧ ∀ record,
      record ∈ trackLoadLocked pkt list ↔
        record = ⟨LockedAddr.mask pkt.paddr, pkt.contextId⟩ ∨
          record.contextId ≠ pkt.contextId ∧ record ∈ list := by
  rw [trackLoadLocked]
  cases found : modifyRecord pkt.contextId (LockedAddr.mask pkt.paddr) list with
  | none =>
    have absent := modifyRecord_eq_none.mp found
    refine ⟨nodup_cons.mpr ⟨fun member => ?_, once⟩, fun record => ?_⟩
    · obtain ⟨record, inList, same⟩ := mem_map.mp member
      exact absent record inList same
    · rw [Option.getD_none, mem_cons]
      exact or_congr_right ⟨fun inList => ⟨absent record inList, inList⟩, And.right⟩
  | some =>
    obtain ⟨sameContexts, members⟩ := mem_modifyRecord once found
    exact ⟨sameContexts ▸ once, members⟩

theorem writeOK_eq (pkt : Packet) (list : List LockedAddr) :
    writeOK pkt list = checkLockedAddrList pkt list := by
  cases list with
  | nil => simp [writeOK, checkLockedAddrList]
  | cons => rfl

/-- A store is done if it is a plain one or the context has a record for its granule, and then
the records of the granule are gone. -/
theorem mem_writeOK (pkt : Packet) (list : List LockedAddr) :
    ((writeOK pkt list).1 = true ↔
      (pkt.cmd.isLLSC = true → ⟨LockedAddr.mask pkt.paddr, pkt.contextId⟩ ∈ list)) ∧
    ∀ record, record ∈ (writeOK pkt list).2 ↔ record ∈ list ∧
      ((writeOK pkt list).1 = true → record.addr ≠ LockedAddr.mask pkt.paddr) := by
  rw [writeOK_eq, checkLockedAddrList]
  constructor
  · cases pkt.cmd.isLLSC with
    | false => simp
    | true =>
      rw [Bool.not_true, Bool.false_or, any_eq_true]
      constructor
      · rintro ⟨⟨addr, contextId⟩, member, same⟩ _
        obtain ⟨rfl, rfl⟩ := of_decide_eq_true same
        exact member
      · exact fun reserved => ⟨_, reserved rfl, decide_eq_true ⟨rfl, rfl⟩⟩
  · intro record
    split <;> simp_all

namespace History

variable {history next : History} {pkt : Packet}

/-- One record a context, and a record exactly for each reservation that no store which begins
in its granule has ended. -/
structure Sound (history : History) : Prop where
  once : (history.memory.lockedAddrList.map LockedAddr.contextId).Nodup
  exact : ∀ contextId granule, ⟨granule, contextId⟩ ∈ history.memory.lockedAddrList ↔
    Reserved (Event.tracks contextId) (Event.Begins granule) granule history.events

variable {after : AbstractMemory} {answer : Answer}

theorem access_cases {memory : AbstractMemory}
    (accessed : memory.access pkt = .ok (answer, after)) :
    after.lockedAddrList = memory.lockedAddrList ∧
      (pkt.event answer = [] ∨ pkt.event answer = [.swapped pkt.addr pkt.data.length]) ∨
    after.lockedAddrList = trackLoadLocked pkt memory.lockedAddrList ∧
      pkt.event answer = [pkt.locks] ∨
    after.lockedAddrList = (writeOK pkt memory.lockedAddrList).2 ∧
      pkt.event answer = if (writeOK pkt memory.lockedAddrList).1 then
        [.stored pkt.paddr pkt.addr pkt.data.length] else [] := by
  rw [AbstractMemory.access] at accessed
  split at accessed
  · cases accessed
  split at accessed
  · cases accessed
    exact .inl ⟨rfl, .inl (by simp_all [Packet.event])⟩
  split at accessed
  · rename_i swaps
    have same : after.lockedAddrList = memory.lockedAddrList := by
      rw [AbstractMemory.swap] at accessed
      repeat' split at accessed
      all_goals cases accessed
      · split <;> rfl
    refine .inl ⟨same, ?_⟩
    cases wrote : answer.wrote with
    | true => exact .inr (by simp [Packet.event, wrote, swaps])
    | false => exact .inl (by simp [Packet.event, wrote, swaps, MemCmd.isLLSC, MemCmd.testCmdAttrib,
        MemCmd.commandInfo])
  split at accessed
  · obtain ⟨-, accessed⟩ := else_eq_ok accessed
    cases accessed
    split
    · exact .inr (.inl ⟨rfl, by simp_all [Packet.event]⟩)
    · exact .inl ⟨rfl, .inl (by simp_all [Packet.event])⟩
  split at accessed
  · cases accessed
    exact .inl ⟨rfl, .inl (by simp_all [Packet.event])⟩
  obtain ⟨-, accessed⟩ := then_eq_ok accessed
  refine .inr (.inr ?_)
  dsimp only at accessed
  split at accessed
  · cases accessed
    exact ⟨rfl, by simp_all [Packet.event]⟩
  · split at accessed
    · cases accessed
    · cases accessed
      refine ⟨by split <;> rfl, by simp_all [Packet.event]⟩

theorem Sound.step (sound : history.Sound) (taken : history.step pkt = .ok next) : next.Sound := by
  obtain ⟨_, accessed, rfl⟩ := map_eq_ok taken
  obtain ⟨once, exact⟩ := sound
  obtain ⟨same, none | swapped⟩ | ⟨tracked, event⟩ | ⟨checked, event⟩ := access_cases accessed
  · exact ⟨same ▸ once, fun contextId granule => by rw [same, none]; exact exact contextId granule⟩
  · refine ⟨same ▸ once, fun contextId granule => ?_⟩
    rw [same, swapped, exact, singleton_append, reserved_cons rfl]
    exact (and_iff_right id).symm
  · obtain ⟨onceNext, members⟩ := mem_trackLoadLocked pkt once
    refine ⟨tracked ▸ onceNext, fun contextId granule => ?_⟩
    rw [tracked, members, event, singleton_append]
    by_cases own : pkt.contextId = contextId
    · subst own
      rw [reserved_cons_some (pkt.tracks_locks.trans (if_pos rfl))]
      grind
    · rw [reserved_cons (pkt.tracks_locks.trans (if_neg own)), ← exact,
        and_iff_right (pkt.not_begins_locks granule)]
      grind
  · have members := mem_writeOK pkt history.memory.lockedAddrList
    refine ⟨?_, fun contextId granule => ?_⟩
    · rw [checked, writeOK_eq, checkLockedAddrList]
      split
      · exact once.sublist (filter_sublist.map _)
      · exact once
    · rw [checked, members.2, event, exact]
      split
      · rw [singleton_append, reserved_cons rfl]
        grind [Event.Begins]
      · rename_i refused
        simp [refused]

variable {first beyond : Nat} {null : Bool} {bytes : Nat → Byte} {packets : List Packet}

theorem sound_start : (History.start first beyond null bytes).Sound :=
  ⟨.nil, fun _ _ => by simp [History.start, Reserved]⟩

theorem wrote_iff (sound : history.Sound) (conditional : pkt.cmd = .storeCondReq)
    (heard : pkt.memInhibitAsserted = false)
    (accessed : history.memory.access pkt = .ok (answer, after)) :
    answer.wrote = true ↔ Reserved (Event.tracks pkt.contextId)
      (Event.Begins (LockedAddr.mask pkt.paddr)) (LockedAddr.mask pkt.paddr) history.events := by
  have llsc : pkt.cmd.isLLSC = true := by rw [conditional]; rfl
  have allowed := (mem_writeOK pkt history.memory.lockedAddrList).1
  rw [forall_prop_of_true llsc, sound.exact] at allowed
  have known : pkt.cmd ≠ .swapReq ∧ pkt.cmd.isRead = false ∧ pkt.cmd.isInvalidate = false ∧
      pkt.cmd.isWrite = true := by rw [conditional]; decide
  rw [← allowed]
  simp only [AbstractMemory.access, heard, known, Bool.false_eq_true, if_false, if_true] at accessed
  split at accessed
  · cases accessed
  split at accessed
  · rename_i refused
    cases accessed
    simp [refused]
  · rename_i stores
    split at accessed
    · cases accessed
    · cases accessed
      simpa using stores

/-- If no upgrade of the context has failed since its latest load-locked access, a store
conditional is answered as the bytes that were written since that access ask, exactly when, if
the access was to its granule, a store has begun in the granule since then if and only if a byte
of the granule has been written since then. -/
theorem store_conditional_right_iff
    (run : Run step (fun _ _ => True) (History.start first beyond null bytes) packets history)
    (conditional : pkt.cmd = .storeCondReq) (heard : pkt.memInhibitAsserted = false)
    (loaded : ∀ event ∈ eventsSince (Event.loads pkt.contextId) history.events,
      event.tracks pkt.contextId = none)
    {answer : Answer} {after : AbstractMemory}
    (accessed : history.memory.access pkt = .ok (answer, after)) :
    ((answer.wrote = true ↔ Reserved (Event.loads pkt.contextId)
        (Event.Writes (LockedAddr.mask pkt.paddr)) (LockedAddr.mask pkt.paddr) history.events) ↔
      (Reserved (Event.loads pkt.contextId) (fun _ => False) (LockedAddr.mask pkt.paddr)
          history.events →
        ((∃ event ∈ eventsSince (Event.loads pkt.contextId) history.events,
            event.Begins (LockedAddr.mask pkt.paddr)) ↔
          ∃ event ∈ eventsSince (Event.loads pkt.contextId) history.events,
            event.Writes (LockedAddr.mask pkt.paddr)))) := by
  have sound := run.invariant Sound (fun sound _ taken => sound.step taken) sound_start
  rw [wrote_iff sound conditional heard accessed, reserved_tracks_iff loaded]
  simp only [Reserved]
  by_cases there : ∃ addr, history.events.findSome? (Event.loads pkt.contextId) = some addr ∧
      LockedAddr.mask addr = LockedAddr.mask pkt.paddr
  · have none (ends : Event → Prop) :
        (∀ event ∈ eventsSince (Event.loads pkt.contextId) history.events, ¬ ends event) ↔
          ¬ ∃ event ∈ eventsSince (Event.loads pkt.contextId) history.events, ends event := by
      simp only [not_exists, not_and]
    rw [none, none]
    simp only [there, true_and, not_false_eq_true, implies_true, forall_const]
    exact not_iff_not
  · simp only [there, false_and, false_imp_iff]

def request (cmd : MemCmd) (addr contextId size : Nat) : Packet :=
  ⟨cmd, addr, addr, contextId, replicate size 0, false, false, false, 0⟩

/-- A memory of 64 bytes. -/
def small : History := .start 0 64 false fun _ => 0

theorem exists_access (requests : List Packet) (again : Packet) (holds : History → Answer → Prop)
    [∀ history answer, Decidable (holds history answer)]
    (computed : (guardedRun step (fun _ _ => True) small requests).any (fun history =>
      ((history.memory.access again).toOption.any fun done =>
        holds history done.1) = true) = true) :
    ∃ history answer after, Run step (fun _ _ => True) small requests history ∧
      history.memory.access again = .ok (answer, after) ∧ holds history answer := by
  obtain ⟨history, run, answers⟩ := Run.exists_check computed
  obtain ⟨⟨answer, after⟩, accessed, checked⟩ := exists_of_check answers
  exact ⟨history, answer, after, run, accessed, of_decide_eq_true checked⟩

theorem store_conditional_right_iff_loaded : ∃ history answer after,
    Run step (fun _ _ => True) small [request .loadLockedReq 0 0 8, request .writeReq 32 1 8]
      history ∧
    history.memory.access (request .storeCondReq 4 0 4) = .ok (answer, after) ∧
    (answer.wrote = true ↔ Reserved (Event.loads 0) (Event.Writes 0) 0 history.events) := by
  obtain ⟨history, answer, after, run, accessed, plain, same⟩ :=
    exists_access [request .loadLockedReq 0 0 8, request .writeReq 32 1 8]
      (request .storeCondReq 4 0 4) (fun history _ =>
      (∀ event ∈ eventsSince (Event.loads 0) history.events, event.tracks 0 = none) ∧
        ((∃ event ∈ eventsSince (Event.loads 0) history.events, event.Begins 0) ↔
          ∃ event ∈ eventsSince (Event.loads 0) history.events, event.Writes 0))
      (by decide +kernel)
  exact ⟨history, answer, after, run, accessed,
    (store_conditional_right_iff run rfl rfl plain accessed).mpr fun _ => same⟩

/-- A swap of another context between the load and the store conditional, and a store of 32 bytes
that begins in the granule before, both have written the granule, and the store conditional is
done. It is also done after a failed upgrade, without any load-locked access. -/
theorem store_conditional_wrong :
    (∃ history answer after, Run step (fun _ _ => True) small
        [request .loadLockedReq 0 0 8, request .swapReq 0 1 8] history ∧
      history.memory.access (request .storeCondReq 0 0 8) = .ok (answer, after) ∧
      answer.wrote = true ∧ ¬ Reserved (Event.loads 0) (Event.Writes 0) 0 history.events) ∧
    (∃ history answer after, Run step (fun _ _ => True) small
        [request .loadLockedReq 16 0 8, request .writeReq 0 1 32] history ∧
      history.memory.access (request .storeCondReq 16 0 8) = .ok (answer, after) ∧
      answer.wrote = true ∧ ¬ Reserved (Event.loads 0) (Event.Writes 16) 16 history.events) ∧
    ∃ history answer after, Run step (fun _ _ => True) small
        [request .scUpgradeFailReq 0 0 8] history ∧
      history.memory.access (request .storeCondReq 0 0 8) = .ok (answer, after) ∧
      answer.wrote = true ∧ ¬ Reserved (Event.loads 0) (Event.Writes 0) 0 history.events := by
  refine ⟨?_, ?_, ?_⟩
  · exact exists_access _ _ (fun history answer => answer.wrote = true ∧
      ¬ Reserved (Event.loads 0) (Event.Writes 0) 0 history.events) (by decide +kernel)
  · exact exists_access _ _ (fun history answer => answer.wrote = true ∧
      ¬ Reserved (Event.loads 0) (Event.Writes 16) 16 history.events) (by decide +kernel)
  · exact exists_access _ _ (fun history answer => answer.wrote = true ∧
      ¬ Reserved (Event.loads 0) (Event.Writes 0) 0 history.events) (by decide +kernel)

/-- A context has at most one record, and it has one for a granule exactly if its latest read with
the LLSC attribute was there and no store has begun there since. -/
theorem records_exact {start stop : Nat} {null : Bool} {bytes : Nat → Byte}
    {requests : List Packet} {final : History}
    (run : Run step (fun _ _ => True) (History.start start stop null bytes) requests final) :
    (final.memory.lockedAddrList.map LockedAddr.contextId).Nodup ∧
      ∀ contextId granule, ⟨granule, contextId⟩ ∈ final.memory.lockedAddrList ↔
        Reserved (Event.tracks contextId) (Event.Begins granule) granule final.events := by
  have sound := run.invariant Sound (fun sound _ taken => sound.step taken) sound_start
  exact ⟨sound.once, sound.exact⟩

theorem records_exact_loaded : ∃ final,
    Run step (fun _ _ => True) small [request .loadLockedReq 0 0 8, request .writeReq 32 1 8]
      final ∧ ⟨0, 0⟩ ∈ final.memory.lockedAddrList ∧
    Reserved (Event.tracks 0) (Event.Begins 0) 0 final.events :=
  Run.exists_checked (fun final => ⟨0, 0⟩ ∈ final.memory.lockedAddrList) (by decide +kernel)
    fun _ run listed => ⟨listed, ((records_exact run).2 0 0).mp listed⟩

end History

end Locked

end Gem5.Mem
