/-
This file follows the assertions of the snapshot memory controller. A snoop may
put a unit back into the table of written units while blocks of it are in
flight; if it is popped before they are acknowledged, a block is generated that
is already there, and the assertion fails. If no write hits a unit that is
being copied, or only one block may be in flight, no assertion ever fails.
-/

import Gem5.Mem.SnapCopies

namespace Gem5.Mem.SnapMemCtrl

open Base Library BitVec Finset

variable {params : SnapMemCtrlParams} {ctrl next : SnapMemCtrl} {unit block : Addr}

/-- `unit_size` is a power of two that fits in the address generation unit, and lines are not
empty. -/
structure Fits (params : SnapMemCtrlParams) : Prop where
  power : ∃ e < 32, params.unitSize.toNat = 2 ^ e
  line : params.cacheLineSize ≠ 0

/-- The unit is at work or has a block in flight. -/
def Copying (params : SnapMemCtrlParams) (ctrl : SnapMemCtrl) (unit : Addr) : Prop :=
  (ctrl.agu.complete = false ∧ ctrl.agu.unitAddr = unit) ∨
    ∃ block ∈ ctrl.scat.table, translateUnitAddr params block = unit

instance : Decidable (ctrl.Copying params unit) :=
  decidable_of_iff ((ctrl.agu.complete = false ∧ ctrl.agu.unitAddr = unit) ∨
    unit ∈ ctrl.scat.table.image (translateUnitAddr params)) (or_congr_right mem_image)

/-- Only one block may be in flight, or the write hits a unit that is not being copied. -/
def Spares (params : SnapMemCtrlParams) (ctrl : SnapMemCtrl) (addr : Addr) : Prop :=
  params.queueSize = 1 ∨ ¬ ctrl.Copying params (translateUnitAddr params addr)
deriving Decidable

/-- A possible step, where a write that is snooped spares the units that are being copied. -/
def Careful (params : SnapMemCtrlParams) (ctrl : SnapMemCtrl) (action : Action) : Prop :=
  ctrl.Possible action ∧ match action with
    | .snoop pkt => (pkt.isWrite || pkt.isUpgrade) = true → ctrl.Spares params pkt.addr
    | _ => True

instance (action : Action) : Decidable (ctrl.Careful params action) :=
  match action with
  | .snoop _ => inferInstanceAs (Decidable (_ ∧ (_ → _)))
  | .snapshot _ | .snapshotCycle | .finalizeSnapshot | .readResponse _ | .writeResponse _ =>
    inferInstanceAs (Decidable (_ ∧ True))

/-! ### Units and their blocks -/

section

variable (fits : Fits params)
include fits

theorem Fits.toNat_unitSize :
    (params.unitSize.setWidth 32).toNat = params.unitSize.toNat := by
  obtain ⟨_, small, size⟩ := fits.power
  rw [toNat_setWidth, size]
  exact Nat.mod_eq_of_lt (Nat.pow_lt_pow_right (by decide) small)

theorem Fits.unitSize_ne_zero : params.unitSize.setWidth 32 ≠ 0 := by
  obtain ⟨e, _, size⟩ := fits.power
  intro zero
  have positive := Nat.two_pow_pos e
  rw [← size, ← fits.toNat_unitSize, zero] at positive
  exact Nat.not_lt_zero 0 positive

theorem Fits.toNat_aligned (aligned : translateUnitAddr params unit = unit) :
    unit.toNat / params.unitSize.toNat * params.unitSize.toNat = unit.toNat := by
  obtain ⟨e, _, size⟩ := fits.power
  have value := congrArg BitVec.toNat aligned
  rw [translateUnitAddr_eq ⟨e, size⟩, unitOf, toNat_ofNat] at value
  rwa [Nat.mod_eq_of_lt ((Nat.div_mul_le_self _ _).trans_lt unit.isLt)] at value

theorem Fits.translate_add (aligned : translateUnitAddr params unit = unit)
    {offset : Nat} (inside : offset < params.unitSize.toNat) :
    translateUnitAddr params (unit + BitVec.ofNat 64 offset) = unit := by
  obtain ⟨e, _, size⟩ := fits.power
  have multiple := fits.toNat_aligned aligned
  have room : unit.toNat + offset < 2 ^ 64 := by
    have split : (2 : Nat) ^ 64 = 2 ^ (64 - e) * 2 ^ e := by
      rw [← Nat.pow_add]
      congr 1
      omega
    have below := unit.isLt
    rw [size] at multiple inside
    rw [← multiple, split] at below ⊢
    have less := Nat.lt_of_mul_lt_mul_right below
    calc unit.toNat / 2 ^ e * 2 ^ e + offset < (unit.toNat / 2 ^ e + 1) * 2 ^ e := by
          rw [Nat.add_mul, one_mul]
          omega
      _ ≤ 2 ^ (64 - e) * 2 ^ e := Nat.mul_le_mul_right _ less
  have value : (unit + BitVec.ofNat 64 offset).toNat = unit.toNat + offset := by
    rw [toNat_add, toNat_ofNat, Nat.add_mod_mod, Nat.mod_eq_of_lt room]
  rw [translateUnitAddr_eq ⟨e, size⟩, unitOf, value]
  refine eq_of_toNat_eq ?_
  have positive : 0 < params.unitSize.toNat := size ▸ Nat.two_pow_pos e
  rw [← multiple, add_comm, Nat.add_mul_div_right _ _ positive, Nat.div_eq_of_lt inside,
    zero_add, toNat_ofNat, multiple, Nat.mod_eq_of_lt unit.isLt]

end

variable {agu : AddressGenerationUnit}

theorem Sized.translate_block (sized : Sized params agu)
    (fits : Fits params) (aligned : translateUnitAddr params agu.unitAddr = agu.unitAddr) :
    translateUnitAddr params agu.block = agu.unitAddr := by
  rw [sized.block_eq]
  refine fits.translate_add aligned ?_
  rw [← fits.toNat_unitSize]
  exact sized.offset_lt.2 fits.unitSize_ne_zero

/-! ### The invariant -/

/-- No unit is both waiting and being copied, and the blocks in flight of the unit at work are
before the next one. -/
structure Apart (params : SnapMemCtrlParams) (ctrl : SnapMemCtrl) : Prop where
  flying : ∀ block ∈ ctrl.scat.table, translateUnitAddr params block ∉ ctrl.wat.table
  atWork : ctrl.agu.complete = false → ctrl.agu.unitAddr ∉ ctrl.wat.table
  before : ctrl.agu.complete = false → ∀ block ∈ ctrl.scat.table,
    translateUnitAddr params block = ctrl.agu.unitAddr →
      ∃ k < ctrl.agu.counter.toNat, block = lineAddr params ctrl.agu.unitAddr k

structure Clear (params : SnapMemCtrlParams) (ctrl : SnapMemCtrl) : Prop where
  tidy : ctrl.Tidy
  generating : ctrl.Generating params
  limit : ctrl.scat.size = params.queueSize
  waiting : ∀ unit ∈ ctrl.wat.table, translateUnitAddr params unit = unit
  aligned : ctrl.agu.complete = false →
    translateUnitAddr params ctrl.agu.unitAddr = ctrl.agu.unitAddr
  apart : params.queueSize = 1 ∨ ctrl.Apart params

section

variable (apart : ctrl.Apart params)
include apart

theorem Apart.requested (fits : Fits params)
    (incomplete : ctrl.agu.complete = false) (sized : Sized params ctrl.agu)
    (aligned : translateUnitAddr params ctrl.agu.unitAddr = ctrl.agu.unitAddr) :
    ctrl.requested.Apart params := by
  refine ⟨fun block member => ?_, fun _ => apart.atWork incomplete,
    fun generating block member same => ?_⟩
  · rcases mem_insert.mp member with rfl | old
    · rw [sized.translate_block fits aligned]
      exact apart.atWork incomplete
    · exact apart.flying block old
  · have counter : ctrl.requested.agu.counter.toNat = ctrl.agu.counter.toNat + 1 :=
      sized.counter_succ
    rw [counter]
    rcases mem_insert.mp member with rfl | old
    · exact ⟨ctrl.agu.counter.toNat, Nat.lt_succ_self _, sized.block_eq⟩
    · obtain ⟨k, before, eq⟩ := apart.before incomplete block old same
      exact ⟨k, Nat.lt_succ_of_lt before, eq⟩

theorem Apart.start (member : unit ∈ ctrl.wat.table) (atWork : agu.unitAddr = unit)
    {log : List SnapRecord} : Apart params { ctrl with wat := ctrl.wat.erase unit, agu, log } := by
  subst atWork
  refine ⟨fun block flying waiting => ?_, fun _ => notMem_erase _ _,
    fun _ block flying same => ?_⟩
  · exact apart.flying block flying (mem_of_mem_erase waiting)
  · rw [← same] at member
    exact absurd member (apart.flying block flying)

theorem Apart.write {addr : Addr}
    (spared : ¬ ctrl.Copying params (translateUnitAddr params addr)) {log : List SnapRecord} :
    Apart params { ctrl with
      wat := { ctrl.wat with table := insert (translateUnitAddr params addr) ctrl.wat.table }
      log } := by
  refine ⟨fun block flying waiting => ?_, fun incomplete waiting => ?_, apart.before⟩
  · rcases mem_insert.mp waiting with same | old
    · exact spared (.inr ⟨block, flying, same⟩)
    · exact apart.flying block flying old
  · rcases mem_insert.mp waiting with same | old
    · exact spared (.inl ⟨incomplete, same⟩)
    · exact apart.atWork incomplete old

end

theorem Clear.changes (clear : ctrl.Clear params) (fits : Fits params)
    (change : Changes params (Spares params) ctrl next) : next.Clear params := by
  have tidy := clear.tidy.changes change
  have generating := clear.generating.changes change
  cases change with
  | reschedule =>
    exact { clear with tidy, apart := clear.apart.imp_right fun apart => { apart with } }
  | @start unit _ _ member init =>
    have sized := Sized.init init
    have aligned := clear.waiting unit member
    obtain ⟨_, _, _, rfl⟩ := init_inversion init
    refine ⟨tidy, generating, clear.limit,
      fun other waiting => clear.waiting other (mem_of_mem_erase waiting), fun _ => aligned,
      clear.apart.imp_right fun apart => ?_⟩
    exact (apart.start member rfl).requested fits rfl sized aligned
  | request incomplete =>
    have aligned := clear.aligned incomplete
    refine ⟨tidy, generating, clear.limit, clear.waiting, fun _ => aligned,
      clear.apart.imp_right fun apart => ?_⟩
    exact apart.requested fits incomplete (clear.generating incomplete).1 aligned
  | respond =>
    exact { clear with
      tidy, generating, apart := clear.apart.imp_right fun apart => { apart with } }
  | acknowledge =>
    refine ⟨tidy, generating, clear.limit, clear.waiting, clear.aligned,
      clear.apart.imp_right fun apart => ⟨fun block member => ?_, apart.atWork,
        fun incomplete block member => ?_⟩⟩
    · exact apart.flying block (mem_of_mem_erase member)
    · exact apart.before incomplete block (mem_of_mem_erase member)
  | @write addr spares =>
    refine ⟨tidy, generating, clear.limit, fun other waiting => ?_, clear.aligned, ?_⟩
    · rcases mem_insert.mp waiting with rfl | old
      · rw [translateUnitAddr, translateUnitAddr, BitVec.and_assoc, BitVec.and_self]
      · exact clear.waiting other old
    · rcases spares with single | spared
      · exact .inl single
      · exact clear.apart.imp_right fun apart => apart.write spared

/-! ### Every step succeeds -/

theorem eq_empty_of_not_full {t : AddressTable} (limit : t.size = 1) (room : t.isFull = false) :
    t.table = ∅ := by
  simp only [AddressTable.isFull, limit] at room
  rw [if_neg (by decide)] at room
  have small : ¬ 1 ≤ t.table.card := of_decide_eq_false room
  exact card_eq_zero.mp (by omega)

theorem sendRead_eq (incomplete : ctrl.agu.complete = false) (room : ctrl.scat.isFull = false)
    (absent : ctrl.agu.block ∉ ctrl.scat.table) : ctrl.sendRead = .ok ctrl.requested := by
  simp only [sendRead, AddressGenerationUnit.pop, incomplete, Bool.false_eq_true, if_false, ok_bind,
    AddressTable.isExist, absent, decide_false, AddressTable.push, room]
  rfl

theorem Fits.init_eq (fits : Fits params) (aligned : translateUnitAddr params unit = unit) :
    ∃ agu, AddressGenerationUnit.init unit (params.unitSize.setWidth 32) params.cacheLineSize =
      .ok agu := by
  have multiple : unit % (params.unitSize.setWidth 32).setWidth 64 = 0 := by
    refine eq_of_toNat_eq ?_
    have wide : ((params.unitSize.setWidth 32).setWidth 64).toNat = params.unitSize.toNat := by
      rw [toNat_setWidth, fits.toNat_unitSize, Nat.mod_eq_of_lt params.unitSize.isLt]
    rw [toNat_umod, wide]
    exact Nat.mod_eq_zero_of_dvd (Dvd.intro_left _ (fits.toNat_aligned aligned))
  rw [AddressGenerationUnit.init, if_neg fits.unitSize_ne_zero, if_neg (not_not.mpr multiple),
    if_neg fits.line]
  exact ⟨_, rfl⟩

section

variable (clear : ctrl.Clear params)
include clear

theorem Clear.sendReadPacketToNormalMemory (fits : Fits params) :
    ∃ next, ctrl.sendReadPacketToNormalMemory params = .ok next := by
  rw [SnapMemCtrl.sendReadPacketToNormalMemory]
  cases room : ctrl.scat.isFull with
  | true => exact ⟨ctrl, rfl⟩
  | false =>
    have single (limit : params.queueSize = 1) : ctrl.scat.table = ∅ :=
      eq_empty_of_not_full (clear.limit.trans limit) room
    rw [if_neg Bool.false_ne_true]
    cases complete : ctrl.agu.complete with
    | false =>
      rw [if_neg Bool.false_ne_true]
      refine ⟨_, sendRead_eq complete room fun flying => ?_⟩
      rcases clear.apart with limit | apart
      · rw [single limit] at flying
        exact absurd flying (notMem_empty _)
      · have sized := (clear.generating complete).1
        obtain ⟨_, before, same⟩ := apart.before complete _ flying
          (sized.translate_block fits (clear.aligned complete))
        -- The next block of a unit is not one of those before it.
        rw [sized.block_eq] at same
        have small := sized.offset_lt.1
        have positive : 0 < params.cacheLineSize.toNat :=
          Nat.pos_of_ne_zero fun zero => fits.line (eq_of_toNat_eq zero)
        have less := Nat.mul_lt_mul_of_pos_left before positive
        have offsets := congrArg BitVec.toNat ((BitVec.add_right_inj _).mp same)
        rw [toNat_ofNat, toNat_ofNat, Nat.mod_eq_of_lt (by omega),
          Nat.mod_eq_of_lt (by omega)] at offsets
        omega
    | true =>
      rw [if_pos rfl]
      by_cases empty : ctrl.wat.isEmpty = true
      · rw [if_pos empty]
        exact ⟨ctrl, rfl⟩
      · have nonempty : ctrl.wat.table.Nonempty :=
          nonempty_iff_ne_empty.mpr fun none => empty (decide_eq_true none)
        have member := ctrl.wat.begin_mem nonempty
        have aligned := clear.waiting _ member
        obtain ⟨agu, init⟩ := fits.init_eq aligned
        have sized := Sized.init init
        have shape := (init_inversion init).2.2.2
        rw [if_neg empty, AddressTable.pop, dif_pos nonempty]
        simp only [ok_bind, init]
        refine ⟨_, sendRead_eq (by rw [shape]) room fun flying => ?_⟩
        have inUnit : translateUnitAddr params agu.block = ctrl.wat.begin nonempty := by
          rw [sized.translate_block fits (by rwa [shape]), shape]
        rcases clear.apart with limit | apart
        · rw [single limit] at flying
          exact absurd flying (notMem_empty _)
        · exact apart.flying _ flying (inUnit ▸ member)

theorem Clear.serve (event : SnapEvent) : (ctrl.serve event).Clear params :=
  { clear with
    tidy := { clear.tidy with }
    apart := clear.apart.imp_right fun apart => { apart with } }

theorem Clear.step (events : ctrl.Scheduled) (fits : Fits params) {action : Action}
    (possible : ctrl.Possible action) : ∃ next, ctrl.step params action = .ok next := by
  obtain ⟨_, alone, _⟩ := events
  have idle {other : SnapEvent} (scheduled : ctrl.scheduled other = true) :
      (ctrl.serve other).scheduled = fun _ => false := by
    rw [alone] at scheduled
    exact serve_scheduled (beq_iff_eq.mp scheduled ▸ alone)
  cases action with
  | snapshot =>
    rw [SnapMemCtrl.step, snapshot, schedule_eq _ (idle possible), schedule_eq _ (idle possible)]
    split <;> exact ⟨_, rfl⟩
  | snapshotCycle =>
    obtain ⟨_, sent⟩ := (clear.serve .snapshotCycle).sendReadPacketToNormalMemory fits
    have same := (sendReadPacketToNormalMemory_inversion (Spares params) sent).2
    rw [SnapMemCtrl.step, snapshotCycle, sent, ok_bind,
      schedule_eq _ (same.trans (idle possible)), schedule_eq _ (same.trans (idle possible))]
    split <;> exact ⟨_, rfl⟩
  | finalizeSnapshot =>
    rw [SnapMemCtrl.step, finalizeSnapshot, schedule_eq _ (idle possible)]
    exact ⟨_, rfl⟩
  | readResponse block =>
    have present : block ∈ ctrl.scat.table :=
      (clear.tidy.flying block).mpr (List.mem_append_left _ possible)
    rw [SnapMemCtrl.step, catchSnapReadResponsePacket,
      if_neg (by simp [AddressTable.isExist, present])]
    exact ⟨_, rfl⟩
  | writeResponse => exact ⟨_, rfl⟩
  | snoop pkt =>
    have request : pkt.isRequest = true := possible
    have room : ctrl.wat.isFull = false := by rw [AddressTable.isFull, if_pos clear.tidy.unlimited]
    rw [SnapMemCtrl.step, catchWriteRequestPacket, request, AddressTable.push, room]
    split <;> exact ⟨_, rfl⟩

end

theorem Clear.create (agu : AddressGenerationUnit) : (create params agu).Clear params := by
  have kept : (SnapMemCtrl.create params agu).Kept params := .create agu
  exact ⟨kept.tidy, kept.generating, rfl, nofun, nofun, .inr ⟨nofun, nofun, nofun⟩⟩

theorem Careful.spares {pkt : SnoopPacket} (careful : ctrl.Careful params (.snoop pkt))
    (writes : (pkt.isWrite || pkt.isUpgrade) = true) : ctrl.Spares params pkt.addr :=
  careful.2 writes

/-- If the writes that are snooped spare the units that are being copied, or only one block may be
in flight, no assertion fails: every step that can happen next succeeds. -/
theorem no_assertion_fails (fits : Fits params) {agu : AddressGenerationUnit}
    {actions : List Action}
    (run : Run (step params) (Careful params) (create params agu) actions ctrl) (action : Action)
    (possible : ctrl.Possible action) : ∃ next, ctrl.step params action = .ok next := by
  have clear : ctrl.Clear params := run_invariant (Spares params) (Clear params)
    (fun _ _ careful => careful.1) (fun _ _ careful => careful.spares)
    (fun _ _ clear change => clear.changes fits change) run (.create agu)
  have events : ctrl.Scheduled := run.invariant Scheduled
    (fun holds careful taken => holds.step careful.1 taken) ⟨.snapshot, rfl, nofun⟩
  exact clear.step events fits possible

theorem oneLine_fits : Fits oneLine := ⟨⟨6, by decide, rfl⟩, by decide⟩

/-- While a block is in flight another unit is written, and its first block is requested. -/
theorem no_assertion_fails_other_unit : ∃ ctrl,
    Run (step oneLine) (Careful oneLine) (create oneLine idleUnit)
      [.snoop ⟨8, true, false, true⟩, .snapshot true, .snapshotCycle,
        .snoop ⟨72, false, true, true⟩] ctrl ∧
    ctrl.scheduled .snapshotCycle = true ∧
    ∃ next, ctrl.step oneLine .snapshotCycle = .ok next := by
  refine (Run.exists_check (by decide +kernel)).imp fun ctrl ⟨run, ends⟩ => ⟨run, ends, ?_⟩
  exact no_assertion_fails oneLine_fits run .snapshotCycle ends

/-- A unit is written again while its only block is in flight. The next cycle pops it and
generates the block that is already in `scat`. -/
theorem written_again_in_flight : ∃ ctrl,
    Run (step oneLine) Possible (create oneLine idleUnit)
      [.snoop ⟨8, true, false, true⟩, .snapshot true, .snapshotCycle,
        .snoop ⟨8, true, false, true⟩] ctrl ∧
    ctrl.Possible .snapshotCycle ∧ ctrl.step oneLine .snapshotCycle = .error .blockExists := by
  exact Run.exists_checked (fun ctrl => ctrl.Possible .snapshotCycle ∧
      raised (ctrl.step oneLine .snapshotCycle) = some .blockExists) (by decide +kernel)
    fun ctrl _ checked => ⟨checked.1, eq_error_of_raised checked.2⟩

end Gem5.Mem.SnapMemCtrl
