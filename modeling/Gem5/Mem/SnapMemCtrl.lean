/-
This file models the snapshot memory controller (`mem/snapmem/snap_mem_ctrl.cc`):
the table of written units, the table of blocks in flight, the unit that
generates the blocks of a written unit, the three events that reschedule each
other, and the packets that come back from main memory and from the snapshot
memory in any order. A log beside the state says what has happened. The file
says what each step can do, and shows what the tables and the events keep.
-/

import Gem5.Base.AddrRange
import Gem5.Library.Run
import Mathlib.Data.Finset.Max

namespace Gem5.Mem

open Base Library List Function

/-- The parameters the logic reads: `unit_size`, the line size of the system and `queue_size`. -/
structure SnapMemCtrlParams where
  unitSize : BitVec 64
  cacheLineSize : BitVec 32
  queueSize : Int

/-- The ways a step fails: the assertions of the source, an event that is scheduled twice, the
first element of an empty set, and a division by zero. -/
inductive SnapFault where
  | full
  | empty
  | unaligned
  | complete
  | blockExists
  | blockMissing
  | notRequest
  | alreadyScheduled
  | divisionByZero
deriving DecidableEq, Repr

/-! ### `AddressTable` -/

structure AddressTable where
  size : Int
  table : Finset Addr

namespace AddressTable

/-- The comparison with `size` is one of unsigned numbers, and zero means no limit. -/
def isFull (t : AddressTable) : Bool :=
  if t.size = 0 then false else (BitVec.ofInt 64 t.size).toNat ≤ t.table.card

def push (t : AddressTable) (addr : Addr) : Except SnapFault AddressTable :=
  if t.isFull then .error .full else .ok { t with table := insert addr t.table }

def erase (t : AddressTable) (addr : Addr) : AddressTable :=
  { t with table := t.table.erase addr }

/-- `*table.begin()`. -/
def begin (t : AddressTable) (nonempty : t.table.Nonempty) : Addr :=
  BitVec.ofNat 64 ((t.table.image BitVec.toNat).min' (nonempty.image _))

def pop (t : AddressTable) : Except SnapFault (Addr × AddressTable) :=
  if nonempty : t.table.Nonempty then
    let addr := t.begin nonempty
    .ok (addr, t.erase addr)
  else .error .empty

def isExist (t : AddressTable) (addr : Addr) : Bool := addr ∈ t.table

def isEmpty (t : AddressTable) : Bool := t.table = ∅

theorem begin_mem (t : AddressTable) (nonempty : t.table.Nonempty) :
    t.begin nonempty ∈ t.table := by
  obtain ⟨_, member, least⟩ := Finset.mem_image.mp
    ((t.table.image BitVec.toNat).min'_mem (nonempty.image _))
  rw [begin, ← least, BitVec.ofNat_toNat, BitVec.setWidth_eq]
  exact member

end AddressTable

/-! ### `AddressGenerationUnit` -/

structure AddressGenerationUnit where
  unitAddr : Addr
  currentBlkAddr : Addr
  counter : BitVec 32
  blkInUnit : BitVec 32
  blkSize : BitVec 32
  unitSize : BitVec 32
  complete : Bool

namespace AddressGenerationUnit

def init (addr : Addr) (unitSize blkSize : BitVec 32) : Except SnapFault AddressGenerationUnit :=
  if unitSize = 0 then .error .divisionByZero
  else if addr % unitSize.setWidth 64 ≠ 0 then .error .unaligned
  else if blkSize = 0 then .error .divisionByZero
  else .ok
    { blkSize, unitSize
      unitAddr := addr
      currentBlkAddr := addr
      blkInUnit := unitSize / blkSize
      counter := 0
      complete := false }

/-- The address `pop` returns. -/
def block (agu : AddressGenerationUnit) : Addr :=
  agu.unitAddr + (agu.blkSize * agu.counter).setWidth 64

/-- The unit after `pop`. -/
def advance (agu : AddressGenerationUnit) : AddressGenerationUnit :=
  { agu with
    currentBlkAddr := agu.block
    counter := agu.counter + 1
    complete := if agu.blkInUnit ≤ agu.counter + 1 then true else agu.complete }

def pop (agu : AddressGenerationUnit) : Except SnapFault (Addr × AddressGenerationUnit) :=
  if agu.complete then .error .complete else .ok (agu.block, agu.advance)

end AddressGenerationUnit

/-! ### The controller -/

inductive SnapEvent where
  | snapshot
  | snapshotCycle
  | finalizeSnapshot
deriving DecidableEq, Repr

/-- What happens at the ports and at the two tables. -/
inductive SnapRecord where
  | written (addr : Addr)
  | popped (unit : Addr)
  | readRequested (block : Addr)
  | readResponded (block : Addr)
  | writeRequested (block : Addr)
  | acknowledged (block : Addr)
deriving DecidableEq, Repr

/-- What the controller reads of a packet it snoops. -/
structure SnoopPacket where
  addr : Addr
  isWrite : Bool
  isUpgrade : Bool
  isRequest : Bool

/-- The controller, the events that are scheduled, the reads and writes that have been sent and
not answered, and the log, newest record first. -/
structure SnapMemCtrl where
  wat : AddressTable
  scat : AddressTable
  agu : AddressGenerationUnit
  scheduled : SnapEvent → Bool
  reads : List Addr
  writes : List Addr
  log : List SnapRecord

namespace SnapMemCtrl

variable (params : SnapMemCtrlParams) (ctrl : SnapMemCtrl)

/-- `SnapMemCtrl(params)`. The address generation unit is not initialised, but it is complete. -/
def create (agu : AddressGenerationUnit) : SnapMemCtrl where
  wat := ⟨0, ∅⟩
  scat := ⟨params.queueSize, ∅⟩
  agu := { agu with complete := true }
  scheduled := fun event => event == .snapshot
  reads := []
  writes := []
  log := []

def translateUnitAddr (addr : Addr) : Addr := addr &&& ~~~(params.unitSize - 1)

def schedule (event : SnapEvent) : Except SnapFault SnapMemCtrl :=
  if ctrl.scheduled event then .error .alreadyScheduled
  else .ok { ctrl with scheduled := update ctrl.scheduled event true }

/-- The event queue takes an event out before it is processed. -/
def serve (event : SnapEvent) : SnapMemCtrl :=
  { ctrl with scheduled := update ctrl.scheduled event false }

/-- `catchSnapReadResponsePacket`: the block goes on to the snapshot memory. -/
def catchSnapReadResponsePacket (addr : Addr) : Except SnapFault SnapMemCtrl :=
  if !ctrl.scat.isExist addr then .error .blockMissing
  else .ok
    { ctrl with
      writes := addr :: ctrl.writes
      log := .writeRequested addr :: .readResponded addr :: ctrl.log }

def catchWriteRequestPacket (pkt : SnoopPacket) : Except SnapFault SnapMemCtrl := do
  if !(pkt.isWrite || pkt.isUpgrade) then return ctrl
  else if !pkt.isRequest then .error .notRequest
  else
    let wat ← ctrl.wat.push (translateUnitAddr params pkt.addr)
    return { ctrl with wat, log := .written pkt.addr :: ctrl.log }

/-- `recvTimingSnapperPort`: completion of snapshot of this block. -/
def recvTimingSnapperPort (addr : Addr) : SnapMemCtrl :=
  { ctrl with scat := ctrl.scat.erase addr, log := .acknowledged addr :: ctrl.log }

/-- `snapshot`, in timing mode or not. -/
def snapshot (isTimingMode : Bool) : Except SnapFault SnapMemCtrl :=
  if !isTimingMode then ctrl.schedule .snapshot
  else ctrl.schedule .snapshotCycle

/-- The last part of `sendReadPacketToNormalMemory`: the next block of the unit is requested. -/
def sendRead : Except SnapFault SnapMemCtrl := do
  let (uaddr, agu) ← ctrl.agu.pop
  if ctrl.scat.isExist uaddr then .error .blockExists
  else
    let scat ← ctrl.scat.push uaddr
    return { ctrl with
      agu, scat
      reads := uaddr :: ctrl.reads
      log := .readRequested uaddr :: ctrl.log }

def sendReadPacketToNormalMemory : Except SnapFault SnapMemCtrl := do
  if ctrl.scat.isFull then return ctrl
  else if ctrl.agu.complete then
    if ctrl.wat.isEmpty then return ctrl
    else
      let (uaddr, wat) ← ctrl.wat.pop
      let agu ← AddressGenerationUnit.init uaddr (params.unitSize.setWidth 32) params.cacheLineSize
      { ctrl with wat, agu, log := .popped uaddr :: ctrl.log }.sendRead
  else ctrl.sendRead

def snapshotCycle : Except SnapFault SnapMemCtrl := do
  let ctrl ← ctrl.sendReadPacketToNormalMemory params
  if ctrl.wat.isEmpty && ctrl.scat.isEmpty && ctrl.agu.complete then
    ctrl.schedule .finalizeSnapshot
  else ctrl.schedule .snapshotCycle

def finalizeSnapshot : Except SnapFault SnapMemCtrl := ctrl.schedule .snapshot

/-- The events that are served and the packets that arrive. -/
inductive Action where
  | snapshot (isTimingMode : Bool)
  | snapshotCycle
  | finalizeSnapshot
  | readResponse (block : Addr)
  | writeResponse (block : Addr)
  | snoop (pkt : SnoopPacket)

def step : Action → Except SnapFault SnapMemCtrl
  | .snapshot isTimingMode => (ctrl.serve .snapshot).snapshot isTimingMode
  | .snapshotCycle => (ctrl.serve .snapshotCycle).snapshotCycle params
  | .finalizeSnapshot => (ctrl.serve .finalizeSnapshot).finalizeSnapshot
  | .readResponse block =>
    { ctrl with reads := ctrl.reads.erase block }.catchSnapReadResponsePacket block
  | .writeResponse block =>
    .ok ({ ctrl with writes := ctrl.writes.erase block }.recvTimingSnapperPort block)
  | .snoop pkt => ctrl.catchWriteRequestPacket params pkt

/-- The steps that can happen: scheduled events are served, what is outstanding is answered, in
any order, and requests are snooped at any time. -/
def Possible : Action → Prop
  | .snapshot _ => ctrl.scheduled .snapshot = true
  | .snapshotCycle => ctrl.scheduled .snapshotCycle = true
  | .finalizeSnapshot => ctrl.scheduled .finalizeSnapshot = true
  | .readResponse block => block ∈ ctrl.reads
  | .writeResponse block => block ∈ ctrl.writes
  | .snoop pkt => pkt.isRequest = true

instance (action : Action) : Decidable (ctrl.Possible action) :=
  match action with
  | .snapshot _ | .snapshotCycle | .finalizeSnapshot | .snoop _ =>
    inferInstanceAs (Decidable (_ = _))
  | .readResponse _ => inferInstanceAs (Decidable (_ ∈ ctrl.reads))
  | .writeResponse _ => inferInstanceAs (Decidable (_ ∈ ctrl.writes))

/-! ### What a step can do -/

/-- The controller after `sendRead`. -/
def requested : SnapMemCtrl :=
  { ctrl with
    agu := ctrl.agu.advance
    scat := { ctrl.scat with table := insert ctrl.agu.block ctrl.scat.table }
    reads := ctrl.agu.block :: ctrl.reads
    log := .readRequested ctrl.agu.block :: ctrl.log }

/-- The changes a step is made of. A snooped write meets a condition on its address. -/
inductive Changes (may : SnapMemCtrl → Addr → Prop) : SnapMemCtrl → SnapMemCtrl → Prop where
  | reschedule (ctrl : SnapMemCtrl) (scheduled : SnapEvent → Bool) :
      Changes may ctrl { ctrl with scheduled }
  | start {ctrl : SnapMemCtrl} {unit : Addr} {agu : AddressGenerationUnit}
      (complete : ctrl.agu.complete = true) (member : unit ∈ ctrl.wat.table)
      (init : AddressGenerationUnit.init unit (params.unitSize.setWidth 32) params.cacheLineSize =
        .ok agu)
      (absent : agu.block ∉ ctrl.scat.table) :
      Changes may ctrl { ctrl with
        wat := ctrl.wat.erase unit, agu, log := .popped unit :: ctrl.log }.requested
  | request {ctrl : SnapMemCtrl} (generating : ctrl.agu.complete = false)
      (absent : ctrl.agu.block ∉ ctrl.scat.table) : Changes may ctrl ctrl.requested
  | respond {ctrl : SnapMemCtrl} {block : Addr} (sent : block ∈ ctrl.reads)
      (present : block ∈ ctrl.scat.table) :
      Changes may ctrl { ctrl with
        reads := ctrl.reads.erase block
        writes := block :: ctrl.writes
        log := .writeRequested block :: .readResponded block :: ctrl.log }
  | acknowledge {ctrl : SnapMemCtrl} {block : Addr} (sent : block ∈ ctrl.writes) :
      Changes may ctrl { ctrl with
        writes := ctrl.writes.erase block
        scat := ctrl.scat.erase block
        log := .acknowledged block :: ctrl.log }
  | write {ctrl : SnapMemCtrl} {addr : Addr} (meets : may ctrl addr) :
      Changes may ctrl { ctrl with
        wat := { ctrl.wat with table := insert (translateUnitAddr params addr) ctrl.wat.table }
        log := .written addr :: ctrl.log }

variable {params ctrl} {next : SnapMemCtrl} {may : SnapMemCtrl → Addr → Prop}

theorem sendRead_inversion (sent : ctrl.sendRead = .ok next) :
    ctrl.agu.complete = false ∧ ctrl.agu.block ∉ ctrl.scat.table ∧ next = ctrl.requested := by
  obtain ⟨_, popped, rest⟩ := bind_eq_ok sent
  cases complete : ctrl.agu.complete with
  | true =>
    rw [AddressGenerationUnit.pop, if_pos complete] at popped
    cases popped
  | false =>
    rw [AddressGenerationUnit.pop, complete, if_neg Bool.false_ne_true] at popped
    cases popped
    dsimp only at rest
    obtain ⟨absent, rest⟩ := else_eq_ok rest
    obtain ⟨_, pushed, rfl⟩ := map_eq_ok rest
    rw [AddressTable.push] at pushed
    split at pushed
    · cases pushed
    · cases pushed
      exact ⟨rfl, by simpa [AddressTable.isExist] using absent, rfl⟩

theorem sendReadPacketToNormalMemory_inversion (may : SnapMemCtrl → Addr → Prop)
    (sent : ctrl.sendReadPacketToNormalMemory params = .ok next) :
    (next = ctrl ∨ Changes params may ctrl next) ∧ next.scheduled = ctrl.scheduled := by
  rw [sendReadPacketToNormalMemory] at sent
  split at sent
  · cases sent
    exact ⟨.inl rfl, rfl⟩
  · split at sent
    · rename_i complete
      split at sent
      · cases sent
        exact ⟨.inl rfl, rfl⟩
      · obtain ⟨_, popped, rest⟩ := bind_eq_ok sent
        obtain ⟨_, init, rest⟩ := bind_eq_ok rest
        obtain ⟨_, absent, rfl⟩ := sendRead_inversion rest
        rw [AddressTable.pop] at popped
        split at popped
        · cases popped
          exact ⟨.inr (.start complete (ctrl.wat.begin_mem _) init absent), rfl⟩
        · cases popped
    · rename_i generating
      obtain ⟨_, absent, rfl⟩ := sendRead_inversion sent
      exact ⟨.inr (.request (by simpa using generating) absent), rfl⟩

theorem schedule_inversion {event : SnapEvent} (done : ctrl.schedule event = .ok next) :
    ∃ scheduled, next = { ctrl with scheduled } := by
  rw [schedule] at done
  split at done
  · cases done
  · cases done
    exact ⟨_, rfl⟩

theorem step_changes {action : Action} (possible : ctrl.Possible action)
    (meets : ∀ pkt, action = .snoop pkt → (pkt.isWrite || pkt.isUpgrade) = true → may ctrl pkt.addr)
    (taken : ctrl.step params action = .ok next) :
    Relation.ReflTransGen (Changes params may) ctrl next := by
  have served (event : SnapEvent) : Changes params may ctrl (ctrl.serve event) := .reschedule _ _
  cases action with
  | snapshot =>
    rw [step, snapshot] at taken
    split at taken <;>
    · obtain ⟨_, rfl⟩ := schedule_inversion taken
      exact (Relation.ReflTransGen.single (served .snapshot)).tail (.reschedule _ _)
  | snapshotCycle =>
    rw [step, snapshotCycle] at taken
    obtain ⟨middle, sent, rest⟩ := bind_eq_ok taken
    have reached : Relation.ReflTransGen (Changes params may) ctrl middle := by
      rcases (sendReadPacketToNormalMemory_inversion may sent).1 with rfl | change
      · exact .single (served .snapshotCycle)
      · exact (Relation.ReflTransGen.single (served .snapshotCycle)).tail change
    split at rest <;>
    · obtain ⟨_, rfl⟩ := schedule_inversion rest
      exact reached.tail (.reschedule _ _)
  | finalizeSnapshot =>
    obtain ⟨_, rfl⟩ := schedule_inversion taken
    exact (Relation.ReflTransGen.single (served .finalizeSnapshot)).tail (.reschedule _ _)
  | readResponse =>
    rw [step, catchSnapReadResponsePacket] at taken
    obtain ⟨present, taken⟩ := else_eq_ok taken
    cases taken
    exact .single (.respond possible (by simpa [AddressTable.isExist] using present))
  | writeResponse =>
    cases taken
    exact .single (.acknowledge possible)
  | snoop pkt =>
    rw [step, catchWriteRequestPacket] at taken
    split at taken
    · cases taken
      exact .refl
    · rename_i writes
      obtain ⟨-, taken⟩ := else_eq_ok taken
      obtain ⟨_, pushed, rfl⟩ := map_eq_ok taken
      rw [AddressTable.push] at pushed
      obtain ⟨-, pushed⟩ := else_eq_ok pushed
      cases pushed
      exact .single (.write (meets pkt rfl
        (by simpa only [Bool.not_eq_true', Bool.not_eq_false] using writes)))

theorem run_invariant (may : SnapMemCtrl → Addr → Prop) (holds : SnapMemCtrl → Prop)
    {guard : SnapMemCtrl → Action → Prop}
    (possible : ∀ ctrl action, guard ctrl action → ctrl.Possible action)
    (meets : ∀ ctrl pkt, guard ctrl (.snoop pkt) → (pkt.isWrite || pkt.isUpgrade) = true →
      may ctrl pkt.addr)
    (kept : ∀ ctrl next, holds ctrl → Changes params may ctrl next → holds next)
    {start final : SnapMemCtrl} {actions : List Action}
    (run : Run (step params) guard start actions final) (initially : holds start) :
    holds final := by
  refine run.invariant holds (fun {ctrl action _} holds_ctrl guarded taken => ?_) initially
  have changes := step_changes (possible ctrl action guarded)
    (fun pkt same => meets ctrl pkt (same ▸ guarded)) taken
  clear taken
  induction changes with
  | refl => exact holds_ctrl
  | tail _ change hypothesis => exact kept _ _ hypothesis change

/-! ### Events -/

/-- One event is scheduled, and if it is the last one of a snapshot no block is left. -/
def Scheduled (ctrl : SnapMemCtrl) : Prop :=
  ∃ event, ctrl.scheduled = (fun other => other == event) ∧
    (event = .finalizeSnapshot → ctrl.scat.table = ∅ ∧ ctrl.agu.complete = true)

theorem schedule_eq (event : SnapEvent) (idle : ctrl.scheduled = fun _ => false) :
    ctrl.schedule event = .ok { ctrl with scheduled := fun other => other == event } := by
  have alone : update ctrl.scheduled event true = fun other => other == event := by
    refine funext fun other => ?_
    by_cases same : other = event
    · subst same
      simp
    · simp [same, idle]
  rw [schedule, idle, if_neg Bool.false_ne_true, ← alone, idle]

theorem serve_scheduled {event : SnapEvent} (alone : ctrl.scheduled = fun other => other == event) :
    (ctrl.serve event).scheduled = fun _ => false := by
  refine funext fun other => ?_
  by_cases same : other = event
  · subst same
    exact update_self ..
  · simp [serve, alone, same]

theorem Scheduled.step (holds : ctrl.Scheduled) {action : Action} (possible : ctrl.Possible action)
    (taken : ctrl.step params action = .ok next) : next.Scheduled := by
  obtain ⟨event, alone, last⟩ := holds
  have isEvent {other : SnapEvent} (scheduled : ctrl.scheduled other = true) : event = other := by
    rw [alone] at scheduled
    exact (beq_iff_eq.mp scheduled).symm
  cases action with
  | snapshot =>
    obtain rfl := isEvent possible
    rw [SnapMemCtrl.step, snapshot, schedule_eq _ (serve_scheduled alone),
      schedule_eq _ (serve_scheduled alone)] at taken
    split at taken <;>
    · cases taken
      exact ⟨_, rfl, nofun⟩
  | snapshotCycle =>
    obtain rfl := isEvent possible
    rw [SnapMemCtrl.step, snapshotCycle] at taken
    obtain ⟨_, sent, rest⟩ := bind_eq_ok taken
    have same := (sendReadPacketToNormalMemory_inversion (fun _ _ => True) sent).2
    have idle := same.trans (serve_scheduled alone)
    rw [schedule_eq _ idle, schedule_eq _ idle] at rest
    split at rest
    · rename_i finished
      cases rest
      simp only [Bool.and_eq_true, AddressTable.isEmpty, decide_eq_true_eq] at finished
      exact ⟨_, rfl, fun _ => ⟨finished.1.2, finished.2⟩⟩
    · cases rest
      exact ⟨_, rfl, nofun⟩
  | finalizeSnapshot =>
    obtain rfl := isEvent possible
    rw [SnapMemCtrl.step, finalizeSnapshot, schedule_eq _ (serve_scheduled alone)] at taken
    cases taken
    exact ⟨_, rfl, nofun⟩
  | readResponse =>
    rw [SnapMemCtrl.step, catchSnapReadResponsePacket] at taken
    split at taken
    · cases taken
    · cases taken
      exact ⟨event, alone, last⟩
  | writeResponse =>
    cases taken
    refine ⟨event, alone, fun isLast => ⟨?_, (last isLast).2⟩⟩
    simp [recvTimingSnapperPort, AddressTable.erase, (last isLast).1]
  | snoop =>
    rw [SnapMemCtrl.step, catchWriteRequestPacket] at taken
    split at taken
    · cases taken
      exact ⟨event, alone, last⟩
    · obtain ⟨-, taken⟩ := else_eq_ok taken
      obtain ⟨_, _, rfl⟩ := map_eq_ok taken
      exact ⟨event, alone, last⟩

/-! ### Tables -/

/-- The blocks in flight are those of `scat`, and each of them once. -/
structure Tidy (ctrl : SnapMemCtrl) : Prop where
  nodup : (ctrl.reads ++ ctrl.writes).Nodup
  flying : ∀ block, block ∈ ctrl.scat.table ↔ block ∈ ctrl.reads ++ ctrl.writes
  unlimited : ctrl.wat.size = 0

theorem Tidy.requested (tidy : ctrl.Tidy) (absent : ctrl.agu.block ∉ ctrl.scat.table) :
    ctrl.requested.Tidy := by
  refine ⟨?_, fun block => ?_, tidy.unlimited⟩
  · exact nodup_cons.mpr ⟨fun member => absent ((tidy.flying _).mpr member), tidy.nodup⟩
  · simp only [SnapMemCtrl.requested, Finset.mem_insert, tidy.flying, cons_append, mem_cons]

theorem Tidy.changes (tidy : ctrl.Tidy) (change : Changes params may ctrl next) : next.Tidy := by
  cases change with
  | reschedule _ | write _ => exact { tidy with }
  | start _ _ _ absent => exact Tidy.requested { tidy with } absent
  | request _ absent => exact tidy.requested absent
  | @respond block sent =>
    have moved : (ctrl.reads.erase block ++ block :: ctrl.writes).Perm
        (ctrl.reads ++ ctrl.writes) :=
      perm_middle.trans ((perm_cons_erase sent).symm.append_right ctrl.writes)
    exact ⟨moved.nodup_iff.mpr tidy.nodup,
      fun other => (tidy.flying other).trans moved.mem_iff.symm, tidy.unlimited⟩
  | @acknowledge block sent =>
    have apart := disjoint_of_nodup_append tidy.nodup
    have erased : (ctrl.reads ++ ctrl.writes).erase block = ctrl.reads ++ ctrl.writes.erase block :=
      erase_append_right _ fun member => apart member sent
    refine ⟨erased ▸ tidy.nodup.erase block, fun other => ?_, tidy.unlimited⟩
    rw [← erased, tidy.nodup.mem_erase_iff, ← tidy.flying]
    exact Finset.mem_erase

/-! ### The blocks of a unit -/

def lineAddr (params : SnapMemCtrlParams) (unit : Addr) (k : Nat) : Addr :=
  unit + BitVec.ofNat 64 (params.cacheLineSize.toNat * k)

/-- The address generation unit has the sizes of the controller and is not past its last
block. -/
structure Sized (params : SnapMemCtrlParams) (agu : AddressGenerationUnit) : Prop where
  blkSize : agu.blkSize = params.cacheLineSize
  blkInUnit : agu.blkInUnit = params.unitSize.setWidth 32 / params.cacheLineSize
  counter : agu.counter = 0 ∨ agu.counter < agu.blkInUnit

theorem init_inversion {addr : Addr} {unitSize blkSize : BitVec 32} {agu : AddressGenerationUnit}
    (done : AddressGenerationUnit.init addr unitSize blkSize = .ok agu) :
    unitSize ≠ 0 ∧ addr % unitSize.setWidth 64 = 0 ∧ blkSize ≠ 0 ∧
      agu = ⟨addr, addr, 0, unitSize / blkSize, blkSize, unitSize, false⟩ := by
  rw [AddressGenerationUnit.init] at done
  obtain ⟨positive, done⟩ := else_eq_ok done
  obtain ⟨aligned, done⟩ := else_eq_ok done
  obtain ⟨line, done⟩ := else_eq_ok done
  cases done
  exact ⟨positive, not_not.mp aligned, line, rfl⟩

namespace Sized

variable {agu : AddressGenerationUnit}

theorem init {unit : Addr} (done : AddressGenerationUnit.init unit (params.unitSize.setWidth 32)
    params.cacheLineSize = .ok agu) : Sized params agu := by
  obtain ⟨_, _, _, rfl⟩ := init_inversion done
  exact ⟨rfl, rfl, .inl rfl⟩

theorem counter_lt (generating : agu.advance.complete = false) :
    agu.counter + 1 < agu.blkInUnit := by
  rw [AddressGenerationUnit.advance] at generating
  split at generating
  · cases generating
  · rename_i before
    exact BitVec.not_le.mp before

section

variable (sized : Sized params agu)
include sized

theorem advance (generating : agu.advance.complete = false) : Sized params agu.advance :=
  ⟨sized.blkSize, sized.blkInUnit, .inr (counter_lt generating)⟩

theorem counter_succ :
    (agu.counter + 1).toNat = agu.counter.toNat + 1 := by
  have small : agu.counter.toNat + 1 < 2 ^ 32 := by
    rcases sized.counter with start | more
    · rw [start]
      decide
    · have := agu.blkInUnit.isLt
      rw [BitVec.lt_def] at more
      omega
  exact Nat.mod_eq_of_lt small

theorem offset_lt :
    params.cacheLineSize.toNat * agu.counter.toNat < 2 ^ 32 ∧
      (params.unitSize.setWidth 32 ≠ 0 →
        params.cacheLineSize.toNat * agu.counter.toNat < (params.unitSize.setWidth 32).toNat) := by
  rcases sized.counter with start | more
  · rw [start]
    refine ⟨by simp, fun positive => ?_⟩
    exact Nat.pos_of_ne_zero fun zero => positive (BitVec.eq_of_toNat_eq zero)
  · have less : agu.counter.toNat <
        (params.unitSize.setWidth 32).toNat / params.cacheLineSize.toNat := by
      rw [sized.blkInUnit, BitVec.lt_def, BitVec.toNat_udiv] at more
      exact more
    have positive : 0 < params.cacheLineSize.toNat := by
      refine Nat.pos_of_ne_zero fun zero => ?_
      rw [zero, Nat.div_zero] at less
      exact Nat.not_lt_zero _ less
    have inside := (Nat.lt_div_iff_mul_lt positive).mp less
    rw [mul_comm] at inside
    omega

theorem block_eq :
    agu.block = lineAddr params agu.unitAddr agu.counter.toNat := by
  refine congrArg (agu.unitAddr + ·) (BitVec.eq_of_toNat_eq ?_)
  have fits := sized.offset_lt.1
  rw [sized.blkSize, BitVec.toNat_setWidth, BitVec.toNat_mul, Nat.mod_eq_of_lt fits,
    BitVec.toNat_ofNat]

end

end Sized

/-- The unit at work is sized. -/
def Generating (params : SnapMemCtrlParams) (ctrl : SnapMemCtrl) : Prop :=
  ctrl.agu.complete = false → Sized params ctrl.agu ∧ ctrl.agu.counter < ctrl.agu.blkInUnit

theorem Generating.changes (holds : ctrl.Generating params)
    (change : Changes params may ctrl next) : next.Generating params := by
  cases change with
  | reschedule => exact holds
  | start _ _ init =>
    exact fun generating => ⟨(Sized.init init).advance generating, Sized.counter_lt generating⟩
  | request incomplete =>
    exact fun generating => ⟨(holds incomplete).1.advance generating, Sized.counter_lt generating⟩
  | respond => exact holds
  | acknowledge => exact holds
  | write => exact holds

end SnapMemCtrl

end Gem5.Mem
