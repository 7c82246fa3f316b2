/-
This file shows that the snapshot memory controller loses no written unit. A
unit is dirty while a write to it has not been followed by a complete copy: it
has been popped and after that each of its lines has been read, written to the
snapshot memory and acknowledged. A dirty unit is in the table of written
units, is at work in the address generation unit or has a line in flight; when
a snapshot is finalized every unit that was popped has been copied.
-/

import Gem5.Library.Log
import Gem5.Mem.SnapMemCtrl

namespace Gem5.Mem.SnapMemCtrl

open Base Library List

/-- `unit_size` is a power of two and a multiple of the cache line size. -/
structure Whole (params : SnapMemCtrlParams) : Prop where
  power : ∃ e, params.unitSize.toNat = 2 ^ e
  lines : params.cacheLineSize.toNat ∣ params.unitSize.toNat

def unitOf (params : SnapMemCtrlParams) (addr : Addr) : Addr :=
  BitVec.ofNat 64 (addr.toNat / params.unitSize.toNat * params.unitSize.toNat)

/-- The number of cache lines of a unit. -/
def lineCount (params : SnapMemCtrlParams) : Nat :=
  params.unitSize.toNat / params.cacheLineSize.toNat

/-- The block has been read, written to the snapshot memory and acknowledged. -/
def Acknowledged (later : List SnapRecord) (block : Addr) : Prop :=
  [.acknowledged block, .writeRequested block, .readResponded block, .readRequested block].Sublist
    later

/-- The unit has been popped, and after that all its lines have been copied. -/
def Copied (params : SnapMemCtrlParams) (later : List SnapRecord) (unit : Addr) : Prop :=
  ∃ after, Since (.popped unit) after later ∧
    ∀ k < lineCount params, Acknowledged after (lineAddr params unit k)

/-- The unit has been written since its last complete copy. -/
def Dirty (params : SnapMemCtrlParams) (ctrl : SnapMemCtrl) (unit : Addr) : Prop :=
  ∃ addr later, unitOf params addr = unit ∧ Since (.written addr) later ctrl.log ∧
    ¬ Copied params later unit

variable {params : SnapMemCtrlParams} {ctrl next : SnapMemCtrl} {may : SnapMemCtrl → Addr → Prop}

theorem translateUnitAddr_eq (power : ∃ e, params.unitSize.toNat = 2 ^ e) (addr : Addr) :
    translateUnitAddr params addr = unitOf params addr := by
  obtain ⟨e, size⟩ := power
  have mask : params.unitSize - 1 = BitVec.ofNat 64 (2 ^ e - 1) := by
    refine BitVec.eq_of_toNat_eq ?_
    have positive : 0 < 2 ^ e := Nat.two_pow_pos e
    rw [BitVec.toNat_ofNat, BitVec.toNat_sub, size]
    show (2 ^ 64 - 1 + 2 ^ e) % 2 ^ 64 = _
    omega
  refine BitVec.eq_of_getLsbD_eq fun i inside => ?_
  rw [translateUnitAddr, mask, unitOf, size, BitVec.getLsbD_and, BitVec.getLsbD_not,
    BitVec.getLsbD_ofNat, BitVec.getLsbD_ofNat, Nat.testBit_two_pow_sub_one,
    Nat.testBit_mul_two_pow, Nat.testBit_div_two_pow]
  by_cases low : i < e
  · simp [low]
  · have high := not_lt.mp low
    simp [low, high, inside, BitVec.getLsbD, Nat.sub_add_cancel high]

/-! ### Written units -/

/-- A unit that has been written has been popped since, or is in `wat`. -/
def Recorded (params : SnapMemCtrlParams) (ctrl : SnapMemCtrl) : Prop :=
  ∀ addr later, Since (.written addr) later ctrl.log →
    .popped (translateUnitAddr params addr) ∈ later ∨
      translateUnitAddr params addr ∈ ctrl.wat.table

theorem Recorded.grow {newest : SnapRecord} {addr : Addr} {later : List SnapRecord}
    (recorded : ctrl.Recorded params) (since : Since (.written addr) later (newest :: ctrl.log))
    (different : newest ≠ .written addr) :
    .popped (translateUnitAddr params addr) ∈ later ∨
      translateUnitAddr params addr ∈ ctrl.wat.table := by
  obtain ⟨rest, rfl, older⟩ := since.of_ne different
  exact (recorded addr rest older).imp_left (mem_cons_of_mem _)

theorem Recorded.changes (recorded : ctrl.Recorded params) (change : Changes params may ctrl next) :
    next.Recorded params := by
  cases change with
  | reschedule => exact recorded
  | @start unit =>
    intro addr later since
    obtain ⟨_, rfl, older⟩ := since.of_ne nofun
    obtain ⟨rest, rfl, oldest⟩ := older.of_ne nofun
    rcases recorded addr rest oldest with popped | waiting
    · exact .inl (mem_cons_of_mem _ (mem_cons_of_mem _ popped))
    · by_cases same : translateUnitAddr params addr = unit
      · rw [same]
        exact .inl (mem_cons_of_mem _ mem_cons_self)
      · exact .inr (Finset.mem_erase.mpr ⟨same, waiting⟩)
  | request _ _ | acknowledge _ => exact fun addr later since => recorded.grow since nofun
  | respond =>
    intro addr later since
    obtain ⟨_, rfl, older⟩ := since.of_ne nofun
    exact (recorded.grow older nofun).imp_left (mem_cons_of_mem _)
  | @write written =>
    intro addr later since
    by_cases same : addr = written
    · subst same
      exact .inr (Finset.mem_insert_self _ _)
    · exact (recorded.grow since fun equal => same (SnapRecord.written.inj equal).symm).imp_right
        Finset.mem_insert_of_mem

/-! ### Popped units -/

/-- The block has been requested, and its read or its write is outstanding. -/
def Flying (ctrl : SnapMemCtrl) (later : List SnapRecord) (block : Addr) : Prop :=
  block ∈ ctrl.reads ∧ .readRequested block ∈ later ∨
  block ∈ ctrl.writes ∧
    [.writeRequested block, .readResponded block, .readRequested block].Sublist later

/-- A line of a unit that has been popped has been copied, or has yet to be generated, or is in
flight. -/
def Underway (params : SnapMemCtrlParams) (ctrl : SnapMemCtrl) (later : List SnapRecord)
    (unit : Addr) (k : Nat) : Prop :=
  Acknowledged later (lineAddr params unit k) ∨
  (ctrl.agu.complete = false ∧ ctrl.agu.unitAddr = unit ∧ ctrl.agu.counter.toNat ≤ k) ∨
  ctrl.Flying later (lineAddr params unit k)

def Followed (params : SnapMemCtrlParams) (ctrl : SnapMemCtrl) : Prop :=
  ∀ unit later, Since (.popped unit) later ctrl.log →
    ∀ k < lineCount params, ctrl.Underway params later unit k

variable {later : List SnapRecord} {unit block : Addr} {k : Nat}

/-- A power of two keeps its value in the width of the address generation unit, or becomes
zero. -/
theorem toNat_unitSize (power : ∃ e, params.unitSize.toNat = 2 ^ e)
    (positive : params.unitSize.setWidth 32 ≠ 0) :
    (params.unitSize.setWidth 32).toNat = params.unitSize.toNat := by
  obtain ⟨e, size⟩ := power
  rw [BitVec.toNat_setWidth, size]
  by_cases small : e < 32
  · exact Nat.mod_eq_of_lt (Nat.pow_lt_pow_right (by decide) small)
  · refine absurd (BitVec.eq_of_toNat_eq ?_) positive
    rw [BitVec.toNat_setWidth, size]
    exact Nat.mod_eq_zero_of_dvd (Nat.pow_dvd_pow 2 (not_lt.mp small))

structure AtWork (params : SnapMemCtrlParams) (agu : AddressGenerationUnit) : Prop where
  sized : Sized params agu
  count : agu.blkInUnit.toNat = lineCount params

theorem AtWork.init (whole : Whole params) {agu : AddressGenerationUnit}
    (done : AddressGenerationUnit.init unit (params.unitSize.setWidth 32) params.cacheLineSize =
      .ok agu) : AtWork params agu := by
  have sized := Sized.init done
  obtain ⟨positive, _, _, rfl⟩ := init_inversion done
  refine ⟨sized, ?_⟩
  rw [sized.blkInUnit, BitVec.toNat_udiv, toNat_unitSize whole.power positive, lineCount]

theorem Generating.atWork (generating : ctrl.Generating params) (whole : Whole params)
    (incomplete : ctrl.agu.complete = false) : AtWork params ctrl.agu := by
  obtain ⟨sized, less⟩ := generating incomplete
  rw [BitVec.lt_def] at less
  have positive : params.unitSize.setWidth 32 ≠ 0 := fun zero => by
    rw [sized.blkInUnit, BitVec.toNat_udiv, zero] at less
    simp at less
  refine ⟨sized, ?_⟩
  rw [sized.blkInUnit, BitVec.toNat_udiv, toNat_unitSize whole.power positive, lineCount]

theorem Flying.grow (flying : ctrl.Flying later block) (newest : SnapRecord)
    (reads : ∀ other ∈ ctrl.reads, other ∈ next.reads)
    (writes : ∀ other ∈ ctrl.writes, other ∈ next.writes) : next.Flying (newest :: later) block :=
  flying.imp (fun both => ⟨reads block both.1, mem_cons_of_mem _ both.2⟩)
    fun both => ⟨writes block both.1, both.2.cons newest⟩

section

variable (underway : ctrl.Underway params later unit k)
include underway

theorem Underway.requested (generating : ctrl.agu.complete = false → AtWork params ctrl.agu)
    (inside : k < lineCount params) :
    ctrl.requested.Underway params (.readRequested ctrl.agu.block :: later) unit k := by
  rcases underway with done | ⟨incomplete, atWork, _⟩ | flying
  · exact .inl (done.cons _)
  · obtain ⟨sized, count⟩ := generating incomplete
    by_cases now : ctrl.agu.counter.toNat = k
    · have same : lineAddr params unit k = ctrl.agu.block := by
        rw [sized.block_eq, atWork, now]
      rw [Underway, same]
      exact .inr (.inr (.inl ⟨mem_cons_self, mem_cons_self⟩))
    · have counter := sized.counter_succ
      refine .inr (.inl ⟨?_, atWork, ?_⟩)
      · have more : ¬ ctrl.agu.blkInUnit ≤ ctrl.agu.counter + 1 := by
          rw [BitVec.le_def, counter, count]
          omega
        simp only [SnapMemCtrl.requested, AddressGenerationUnit.advance, if_neg more, incomplete]
      · show (ctrl.agu.counter + 1).toNat ≤ k
        omega
  · exact .inr (.inr (flying.grow _ (fun _ => mem_cons_of_mem _) fun _ => id))

theorem Underway.respond :
    Underway params { ctrl with
        reads := ctrl.reads.erase block
        writes := block :: ctrl.writes
        log := .writeRequested block :: .readResponded block :: ctrl.log }
      (.writeRequested block :: .readResponded block :: later) unit k := by
  rcases underway with done | atWork | reading | writing
  · exact .inl ((done.cons _).cons _)
  · exact .inr (.inl atWork)
  · by_cases same : lineAddr params unit k = block
    · subst same
      refine .inr (.inr (.inr ⟨mem_cons_self, ?_⟩))
      exact ((singleton_sublist.mpr reading.2).cons_cons _).cons_cons _
    · exact .inr (.inr (.inl ⟨(mem_erase_of_ne same).mpr reading.1,
        mem_cons_of_mem _ (mem_cons_of_mem _ reading.2)⟩))
  · exact .inr (.inr (.inr ⟨mem_cons_of_mem _ writing.1, (writing.2.cons _).cons _⟩))

theorem Underway.acknowledge :
    Underway params { ctrl with
        writes := ctrl.writes.erase block
        scat := ctrl.scat.erase block
        log := .acknowledged block :: ctrl.log }
      (.acknowledged block :: later) unit k := by
  rcases underway with done | atWork | reading | writing
  · exact .inl (done.cons _)
  · exact .inr (.inl atWork)
  · exact .inr (.inr (.inl ⟨reading.1, mem_cons_of_mem _ reading.2⟩))
  · by_cases same : lineAddr params unit k = block
    · subst same
      exact .inl (writing.2.cons_cons _)
    · exact .inr (.inr (.inr ⟨(mem_erase_of_ne same).mpr writing.1, writing.2.cons _⟩))

end

theorem Followed.requested (followed : ctrl.Followed params)
    (generating : ctrl.agu.complete = false → AtWork params ctrl.agu) :
    ctrl.requested.Followed params := by
  intro unit later since k inside
  obtain ⟨rest, rfl, older⟩ := since.of_ne nofun
  exact (followed unit rest older k inside).requested generating inside

/-- A unit is popped while none is at work. -/
theorem Followed.start (followed : ctrl.Followed params) (complete : ctrl.agu.complete = true)
    {agu : AddressGenerationUnit} {wat : AddressTable}
    (done : AddressGenerationUnit.init unit (params.unitSize.setWidth 32) params.cacheLineSize =
      .ok agu) :
    Followed params { ctrl with wat, agu, log := .popped unit :: ctrl.log } := by
  obtain ⟨_, _, _, rfl⟩ := init_inversion done
  intro other later since k inside
  rcases since_cons_iff.mp since with ⟨rfl, same⟩ | ⟨rest, rfl, older⟩
  · exact .inr (.inl ⟨rfl, SnapRecord.popped.inj same, Nat.zero_le k⟩)
  · rcases followed other rest older k inside with done | atWork | flying
    · exact .inl (done.cons _)
    · cases complete.symm.trans atWork.1
    · exact .inr (.inr (flying.grow _ (fun _ => id) fun _ => id))

/-- What a run keeps. -/
structure Kept (params : SnapMemCtrlParams) (ctrl : SnapMemCtrl) : Prop where
  tidy : ctrl.Tidy
  generating : ctrl.Generating params
  recorded : ctrl.Recorded params
  followed : ctrl.Followed params

theorem Followed.changes (kept : ctrl.Kept params) (whole : Whole params)
    (change : Changes params may ctrl next) : next.Followed params := by
  cases change with
  | reschedule => exact kept.followed
  | start complete _ init =>
    exact (kept.followed.start complete init).requested fun _ => .init whole init
  | request =>
    exact kept.followed.requested (kept.generating.atWork whole)
  | respond =>
    intro unit later since k inside
    obtain ⟨_, rfl, older⟩ := since.of_ne nofun
    obtain ⟨rest, rfl, oldest⟩ := older.of_ne nofun
    exact (kept.followed unit rest oldest k inside).respond
  | acknowledge =>
    intro unit later since k inside
    obtain ⟨rest, rfl, older⟩ := since.of_ne nofun
    exact (kept.followed unit rest older k inside).acknowledge
  | write =>
    intro unit later since k inside
    obtain ⟨rest, rfl, older⟩ := since.of_ne nofun
    exact (kept.followed unit rest older k inside).imp (fun done => done.cons _)
      (Or.imp_right fun flying => flying.grow _ (fun _ => id) fun _ => id)

theorem Kept.create (agu : AddressGenerationUnit) : (create params agu).Kept params :=
  ⟨⟨nodup_nil, fun _ => by simp [SnapMemCtrl.create], rfl⟩, nofun,
    fun _ _ since => absurd since not_since_nil, fun _ _ since => absurd since not_since_nil⟩

theorem Kept.changes (kept : ctrl.Kept params) (whole : Whole params)
    (change : Changes params may ctrl next) : next.Kept params :=
  ⟨kept.tidy.changes change, kept.generating.changes change, kept.recorded.changes change,
    .changes kept whole change⟩

theorem Tidy.flies (tidy : ctrl.Tidy) (flying : ctrl.Flying later block) :
    block ∈ ctrl.scat.table := by
  rw [tidy.flying, mem_append]
  exact flying.imp And.left And.left

theorem Kept.dirty (kept : ctrl.Kept params) (whole : Whole params)
    (dirty : ctrl.Dirty params unit) :
    unit ∈ ctrl.wat.table ∨ (ctrl.agu.complete = false ∧ ctrl.agu.unitAddr = unit) ∨
      ∃ k < lineCount params, lineAddr params unit k ∈ ctrl.scat.table := by
  obtain ⟨addr, later, rfl, since, notCopied⟩ := dirty
  have recorded := kept.recorded addr later since
  rw [translateUnitAddr_eq whole.power] at recorded
  rcases recorded with popped | waiting
  · obtain ⟨after, before, rfl⟩ := append_of_mem popped
    obtain ⟨earlier, log⟩ := since
    have sincePopped : Since (.popped (unitOf params addr)) after ctrl.log := by
      refine ⟨before ++ .written addr :: earlier, ?_⟩
      rw [log, append_assoc, cons_append]
    have uncopied : ∃ k < lineCount params,
        ¬ Acknowledged after (lineAddr params (unitOf params addr) k) := by
      by_contra all
      push Not at all
      exact notCopied ⟨after, ⟨before, rfl⟩, all⟩
    obtain ⟨k, inside, missing⟩ := uncopied
    rcases kept.followed _ after sincePopped k inside with done | atWork | flying
    · exact absurd done missing
    · exact .inr (.inl ⟨atWork.1, atWork.2.1⟩)
    · exact .inr (.inr ⟨k, inside, kept.tidy.flies flying⟩)
  · exact .inl waiting

/-- No written unit is lost. At every moment a unit that has been written since its last complete
copy is in `wat`, or is the unit the address generation unit is at work on, or has a line in
flight; and when a snapshot is finalized, every line of every unit that was popped has been read,
written to the snapshot memory and acknowledged since. -/
theorem no_unit_lost (whole : Whole params) {agu : AddressGenerationUnit} {actions : List Action}
    (run : Run (step params) Possible (create params agu) actions ctrl) :
    (∀ unit, ctrl.Dirty params unit → unit ∈ ctrl.wat.table ∨
      (ctrl.agu.complete = false ∧ ctrl.agu.unitAddr = unit) ∨
      ∃ k < lineCount params, lineAddr params unit k ∈ ctrl.scat.table) ∧
    (ctrl.scheduled .finalizeSnapshot = true →
      ∀ unit later, Since (.popped unit) later ctrl.log →
        ∀ k < lineCount params, Acknowledged later (lineAddr params unit k)) := by
  have kept : ctrl.Kept params := run_invariant (fun _ _ => True) (Kept params)
    (fun _ _ => id) (fun _ _ _ _ => trivial) (fun _ _ kept change => kept.changes whole change) run
    (.create agu)
  have scheduled : ctrl.Scheduled := run.invariant Scheduled
    (fun holds => holds.step) ⟨.snapshot, rfl, nofun⟩
  refine ⟨fun unit => kept.dirty whole, fun last unit later since k inside => ?_⟩
  obtain ⟨_, alone, empty⟩ := scheduled
  rw [alone] at last
  obtain ⟨noBlock, complete⟩ := empty (beq_iff_eq.mp last).symm
  rcases kept.followed unit later since k inside with done | atWork | flying
  · exact done
  · cases complete.symm.trans atWork.1
  · have member := kept.tidy.flies flying
    rw [noBlock] at member
    exact absurd member (Finset.notMem_empty _)

/-- Units of one line, and room for four blocks. -/
def oneLine : SnapMemCtrlParams := ⟨64, 64, 4⟩

theorem oneLine_whole : Whole oneLine := ⟨⟨6, rfl⟩, by decide⟩

def idleUnit : AddressGenerationUnit := ⟨0, 0, 0, 0, 0, 0, true⟩

/-- A written unit is copied and the snapshot is finalized. -/
theorem no_unit_lost_copied : ∃ ctrl, Run (step oneLine) Possible (create oneLine idleUnit)
      [.snoop ⟨8, true, false, true⟩, .snapshot true, .snapshotCycle, .readResponse 0,
        .writeResponse 0, .snapshotCycle] ctrl ∧
    ctrl.scheduled .finalizeSnapshot = true ∧
    ∀ unit later, Since (.popped unit) later ctrl.log →
      ∀ k < lineCount oneLine, Acknowledged later (lineAddr oneLine unit k) := by
  refine (Run.exists_check (by decide +kernel)).imp fun ctrl ⟨run, ends⟩ => ⟨run, ends, ?_⟩
  exact (no_unit_lost oneLine_whole run).2 ends

/-- Two units are written and popped. The first is neither in `wat` nor at the address generation
unit, and its only line is still in flight. -/
theorem dirty_unit_in_flight : ∃ ctrl, Run (step oneLine) Possible (create oneLine idleUnit)
      [.snoop ⟨8, true, false, true⟩, .snoop ⟨72, true, false, true⟩, .snapshot true,
        .snapshotCycle, .snapshotCycle] ctrl ∧
    ctrl.Dirty oneLine 0 ∧ 0 ∉ ctrl.wat.table ∧ ctrl.agu.unitAddr ≠ 0 := by
  refine Run.exists_checked (fun ctrl => ctrl.log = [.readRequested 64, .popped 64,
      .readRequested 0, .popped 0, .written 72, .written 8] ∧ 0 ∉ ctrl.wat.table ∧
      ctrl.agu.unitAddr ≠ 0) (by decide +kernel) fun ctrl run ⟨log, absent, elsewhere⟩ =>
    ⟨⟨8, [.readRequested 64, .popped 64, .readRequested 0, .popped 0, .written 72], by decide,
      ⟨[], log⟩, ?_⟩, absent, elsewhere⟩
  rintro ⟨after, ⟨earlier, split⟩, all⟩
  have acknowledged := (all 0 (by decide)).subset mem_cons_self
  have member : SnapRecord.acknowledged (lineAddr oneLine 0 0) ∈ after ++ .popped 0 :: earlier :=
    mem_append_left _ acknowledged
  rw [← split] at member
  revert member
  decide

end Gem5.Mem.SnapMemCtrl
