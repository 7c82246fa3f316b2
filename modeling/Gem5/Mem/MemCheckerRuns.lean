/-
This file is about whole histories of calls of the memory checker, with resets
of all bytes or of a range at any time and with transactions in flight. A
transaction is completed or aborted at most once, and the ticks do not go back.
The trackers stay tidy in every history, so a call fails an assertion exactly if
it completes a read of which a byte is blocked.
-/

import Gem5.Mem.MemCheckerVerdict

namespace Gem5.Mem

open Base Library Function List

inductive CheckerCall where
  | startRead (tick : Nat) (addr : Addr) (size : BitVec 64)
  | completeRead (tick : Nat) (serial : Serial) (addr : Addr) (size : BitVec 64) (data : Nat → Byte)
  | startWrite (tick : Nat) (addr : Addr) (size : BitVec 64) (data : Nat → Byte)
  | completeWrite (tick : Nat) (serial : Serial) (addr : Addr) (size : BitVec 64)
  | abortWrite (tick : Nat) (serial : Serial) (addr : Addr) (size : BitVec 64)
  | reset (tick : Nat)
  | resetRange (tick : Nat) (addr : Addr) (size : BitVec 64)

def CheckerCall.tick : CheckerCall → Nat
  | startRead tick .. | completeRead tick .. | startWrite tick .. | completeWrite tick ..
  | abortWrite tick .. | reset tick | resetRange tick .. => tick

structure InFlight where
  serial : Serial
  addr : Addr
  size : BitVec 64
deriving DecidableEq, Repr

/-- The checker, the tick of the last call and the transactions in flight. -/
structure Monitored where
  checker : MemChecker
  now : Nat
  reads : List InFlight
  writes : List InFlight

namespace Monitored

def create : Monitored := ⟨.new, 0, [], []⟩

def step (monitored : Monitored) : CheckerCall → Except CheckerFault Monitored
  | .startRead tick addr size => do
    let checker ← monitored.checker.startRead tick addr size
    return { monitored with
      checker, now := tick
      reads := ⟨monitored.checker.nextSerial, addr, size⟩ :: monitored.reads }
  | .completeRead tick serial addr size data => do
    let (checker, _) ← monitored.checker.completeRead tick serial tick addr size data
    return { monitored with
      checker, now := tick, reads := monitored.reads.filter (·.serial != serial) }
  | .startWrite tick addr size data => do
    let checker ← monitored.checker.startWrite tick addr size data
    return { monitored with
      checker, now := tick
      writes := ⟨monitored.checker.nextSerial, addr, size⟩ :: monitored.writes }
  | .completeWrite tick serial addr size => do
    let checker ← monitored.checker.completeWrite tick serial tick addr size
    return { monitored with
      checker, now := tick, writes := monitored.writes.filter (·.serial != serial) }
  | .abortWrite tick serial addr size => do
    let checker ← monitored.checker.abortWrite serial addr size
    return { monitored with
      checker, now := tick, writes := monitored.writes.filter (·.serial != serial) }
  | .reset tick => .ok { monitored with checker := monitored.checker.reset, now := tick }
  | .resetRange tick addr size =>
    .ok { monitored with checker := monitored.checker.resetRange addr size, now := tick }

/-- The transaction that a call names has been started and is in flight. -/
def Names (monitored : Monitored) : CheckerCall → Prop
  | .completeRead _ serial addr size _ => ⟨serial, addr, size⟩ ∈ monitored.reads
  | .completeWrite _ serial addr size | .abortWrite _ serial addr size =>
    ⟨serial, addr, size⟩ ∈ monitored.writes
  | .startRead .. | .startWrite .. | .reset _ | .resetRange .. => True

instance (monitored : Monitored) (call : CheckerCall) : Decidable (monitored.Names call) :=
  match call with
  | .completeRead .. | .completeWrite .. | .abortWrite .. => inferInstanceAs (Decidable (_ ∈ _))
  | .startRead .. | .startWrite .. | .reset _ | .resetRange .. => isTrue trivial

/-- The ticks do not go back and stay before `TICK_FUTURE`, and a completion or an abort names a
transaction in flight. -/
def Allowed (monitored : Monitored) (call : CheckerCall) : Prop :=
  monitored.now ≤ call.tick ∧ call.tick < tickFuture ∧ monitored.Names call
deriving Decidable

def Blocked (monitored : Monitored) : CheckerCall → Prop
  | .completeRead tick serial addr size data => ∃ i < size.toNat,
    (monitored.checker.getByteTracker (addr + BitVec.ofNat 64 i)).Blocked serial tick (data i)
  | _ => False

/-- The serials of the writes in flight. -/
def live (monitored : Monitored) : Set Serial :=
  {serial | ∃ write ∈ monitored.writes, write.serial = serial}

def used (monitored : Monitored) : Set Serial := {serial | serial < monitored.checker.nextSerial}

def TidyTracker (monitored : Monitored) (tracker : ByteTracker) : Prop :=
  tracker.Tidy monitored.now monitored.used monitored.live

structure Tidy (monitored : Monitored) : Prop where
  trackers : ∀ addr, monitored.TidyTracker (monitored.checker.getByteTracker addr)
  now : monitored.now < tickFuture

theorem tidy_create : create.Tidy :=
  ⟨fun _ => ByteTracker.tidy_new, by decide⟩

variable {monitored next : Monitored}

theorem used_succ (monitored : Monitored) :
    insert monitored.checker.nextSerial monitored.used =
      {serial | serial < monitored.checker.nextSerial + 1} := by
  ext serial
  exact (Nat.lt_succ_iff_lt_or_eq.trans or_comm).symm

theorem live_filter (monitored : Monitored) (serial : Serial) :
    monitored.live \ {serial} =
      {other | ∃ write ∈ monitored.writes.filter (·.serial != serial), write.serial = other} := by
  ext other
  constructor
  · rintro ⟨⟨write, member, rfl⟩, different⟩
    exact ⟨write, mem_filter.mpr ⟨member, bne_iff_ne.mpr different⟩, rfl⟩
  · rintro ⟨write, member, rfl⟩
    obtain ⟨there, different⟩ := mem_filter.mp member
    exact ⟨⟨write, there, rfl⟩, bne_iff_ne.mp different⟩

theorem live_cons (monitored : Monitored) (write : InFlight) :
    insert write.serial monitored.live =
      {other | ∃ other' ∈ write :: monitored.writes, other'.serial = other} := by
  ext other
  simp only [live, exists_mem_cons_iff, Set.mem_insert_iff, Set.mem_ofPred_eq, eq_comm]

theorem fresh (monitored : Monitored) : monitored.checker.nextSerial ∉ monitored.used :=
  lt_irrefl monitored.checker.nextSerial

section

variable (tidy : monitored.Tidy) {tick : Nat} (passes : monitored.now ≤ tick)
  (real : tick < tickFuture)
include tidy passes real

theorem Tidy.startRead (addr : Addr) (size : BitVec 64) :
    ∃ next, monitored.step (.startRead tick addr size) = .ok next ∧ next.Tidy := by
  obtain ⟨checker, _, done, serial, trackers⟩ := MemChecker.eachByte_ok
    (fun _ tracker _ => .ok (tracker.startRead monitored.checker.nextSerial tick, ()))
    monitored.TidyTracker
    (fun tracker => tracker.Tidy tick
      (insert monitored.checker.nextSerial monitored.used) monitored.live)
    (fun tracker before => before.weaken _ passes (Set.subset_insert ..) fun _ _ member => member)
    (fun _ tracker _ before => ⟨_, _, rfl, before.startRead passes before.readsUsed⟩)
    tidy.trackers addr size ()
  refine ⟨⟨{ checker with nextSerial := checker.nextSerial + 1 }, tick,
    ⟨monitored.checker.nextSerial, addr, size⟩ :: monitored.reads, monitored.writes⟩, ?_,
    ⟨fun place => ?_, real⟩⟩
  · rw [step, MemChecker.startRead, done]
    rfl
  · have holds := trackers place
    rw [used_succ] at holds
    rw [TidyTracker, used, serial]
    exact holds

theorem Tidy.startWrite (addr : Addr) (size : BitVec 64) (data : Nat → Byte) :
    ∃ next, monitored.step (.startWrite tick addr size data) = .ok next ∧ next.Tidy := by
  obtain ⟨checker, _, done, serial, trackers⟩ := MemChecker.eachByte_ok
    (fun i tracker _ =>
      return (← tracker.startWrite monitored.checker.nextSerial tick (data i), ()))
    monitored.TidyTracker
    (fun tracker => tracker.Tidy tick
      (insert monitored.checker.nextSerial monitored.used)
      (insert monitored.checker.nextSerial monitored.live))
    (fun tracker before => before.weaken _ passes (Set.subset_insert ..) fun other member there =>
      there.resolve_left fun same => monitored.fresh (same ▸ member))
    (fun i tracker _ before => by
      obtain ⟨_, _, _, _, done, _, holds⟩ :=
        before.startWrite monitored.fresh passes (data i)
      exact ⟨_, (), by rw [done]; rfl, holds⟩)
    tidy.trackers addr size ()
  refine ⟨⟨{ checker with nextSerial := checker.nextSerial + 1 }, tick, monitored.reads,
    ⟨monitored.checker.nextSerial, addr, size⟩ :: monitored.writes⟩, ?_, ⟨fun place => ?_, real⟩⟩
  · rw [step, MemChecker.startWrite, done]
    rfl
  · have holds := trackers place
    rw [used_succ, live_cons monitored ⟨monitored.checker.nextSerial, addr, size⟩] at holds
    rw [TidyTracker, used, serial]
    exact holds

theorem Tidy.completeWrite {serial : Serial} {addr : Addr} {size : BitVec 64}
    (names : ⟨serial, addr, size⟩ ∈ monitored.writes) :
    ∃ next, monitored.step (.completeWrite tick serial addr size) = .ok next ∧ next.Tidy := by
  obtain ⟨checker, _, done, same, trackers⟩ := MemChecker.eachByte_ok
    (fun _ tracker _ => return (← tracker.completeWrite tick serial tick, ()))
    monitored.TidyTracker
    (fun tracker => tracker.Tidy tick monitored.used (monitored.live \ {serial}))
    (fun tracker before => before.weaken _ passes Set.Subset.rfl fun _ _ member => member.1)
    (fun _ tracker _ before => by
      obtain ⟨_, _, _, next, _, done, _, _, _, holds⟩ :=
        before.completeWrite ⟨_, names, rfl⟩ passes real
      exact ⟨next, (), by rw [done]; rfl, holds⟩)
    tidy.trackers addr size ()
  refine ⟨⟨checker, tick, monitored.reads, monitored.writes.filter (·.serial != serial)⟩, ?_,
    ⟨fun place => ?_, real⟩⟩
  · rw [step, MemChecker.completeWrite, done]
    rfl
  · have holds := trackers place
    rw [live_filter] at holds
    rw [TidyTracker, used, same]
    exact holds

theorem Tidy.abortWrite {serial : Serial} {addr : Addr} {size : BitVec 64}
    (names : ⟨serial, addr, size⟩ ∈ monitored.writes) :
    ∃ next, monitored.step (.abortWrite tick serial addr size) = .ok next ∧ next.Tidy := by
  obtain ⟨checker, _, done, same, trackers⟩ := MemChecker.eachByte_ok
    (fun _ tracker _ => .ok (tracker.abortWrite serial, ()))
    monitored.TidyTracker
    (fun tracker => tracker.Tidy tick monitored.used (monitored.live \ {serial}))
    (fun tracker before => before.weaken _ passes Set.Subset.rfl fun _ _ member => member.1)
    (fun _ tracker _ before => by
      obtain ⟨_, _, _, _, _, holds⟩ := before.abortWrite ⟨_, names, rfl⟩ tidy.now
      exact ⟨_, (), rfl, holds.weaken _ passes Set.Subset.rfl fun _ _ member => member⟩)
    tidy.trackers addr size ()
  refine ⟨⟨checker, tick, monitored.reads, monitored.writes.filter (·.serial != serial)⟩, ?_,
    ⟨fun place => ?_, real⟩⟩
  · rw [step, MemChecker.abortWrite, done]
    rfl
  · have holds := trackers place
    rw [live_filter] at holds
    rw [TidyTracker, used, same]
    exact holds

theorem Tidy.completeRead (serial : Serial) (addr : Addr) (size : BitVec 64) (data : Nat → Byte) :
    (∃ next, monitored.step (.completeRead tick serial addr size data) = .ok next ∧ next.Tidy ∧
      ¬ monitored.Blocked (.completeRead tick serial addr size data)) ∨
    (∃ fault, monitored.step (.completeRead tick serial addr size data) = .error fault) ∧
      monitored.Blocked (.completeRead tick serial addr size data) := by
  rcases MemChecker.eachByte_spec (MemChecker.completeReadByte tick serial tick addr data)
      monitored.TidyTracker (fun tracker => tracker.Tidy tick monitored.used monitored.live)
      (fun i tracker => tracker.Blocked serial tick (data i))
      (fun tracker before => before.weaken _ passes Set.Subset.rfl fun _ _ member => member)
      (fun i tracker failures before free => by
        have completed := before.completeRead serial passes real (data i)
        obtain ⟨next, result, done⟩ := completed.ok_iff.mpr free
        rw [done] at completed
        refine ⟨next, if result then failures else failures ++
          [⟨addr + BitVec.ofNat 64 i, data i, next.lastExpectedData⟩], ?_,
          before.completed passes completed⟩
        rw [MemChecker.completeReadByte, done]
        rfl)
      (fun i tracker failures before blocked => by
        have completed := before.completeRead serial passes real (data i)
        cases done : tracker.completeRead tick serial tick (data i) with
        | ok value => exact absurd blocked (completed.ok_iff.mp ⟨value.1, value.2, done⟩)
        | error fault =>
          refine ⟨fault, ?_⟩
          rw [MemChecker.completeReadByte, done]
          rfl)
      size.isLt.le tidy.trackers addr [] with
    ⟨checker, failures, done, same, trackers, free⟩ | ⟨⟨fault, failed⟩, blocked⟩
  · refine .inl ⟨⟨{ checker with
      errorMessage := if failures = [] then checker.errorMessage else failures }, tick,
      monitored.reads.filter (·.serial != serial), monitored.writes⟩, ?_, ⟨fun place => ?_, real⟩,
      fun ⟨i, less, bad⟩ => free i less bad⟩
    · rw [step, MemChecker.completeRead, done]
      rfl
    · have holds := trackers place
      rw [TidyTracker, used, same]
      exact holds
  · refine .inr ⟨⟨fault, ?_⟩, blocked⟩
    rw [step, MemChecker.completeRead, failed]
    rfl

end

theorem getByteTracker_resetRange (checker : MemChecker) (addr : Addr) (size : BitVec 64)
    (place : Addr) : (checker.resetRange addr size).getByteTracker place = .new ∨
      (checker.resetRange addr size).getByteTracker place = checker.getByteTracker place := by
  have erased (list : List Nat) (trackers : Addr → Option ByteTracker) :
      list.foldl (fun trackers i => update trackers (addr + BitVec.ofNat 64 i) none)
        trackers place = none ∨
      list.foldl (fun trackers i => update trackers (addr + BitVec.ofNat 64 i) none)
        trackers place = trackers place := by
    induction list generalizing trackers with
    | nil => exact .inr rfl
    | cons i _ hypothesis =>
      rw [foldl_cons]
      rcases hypothesis (update trackers (addr + BitVec.ofNat 64 i) none) with
        none | same
      · exact .inl none
      · rw [same]
        by_cases here : place = addr + BitVec.ofNat 64 i
        · exact .inl (by rw [here, update_self])
        · exact .inr (update_of_ne here ..)
  rcases erased (range size.toNat) checker.byte_trackers with none | same
  · exact .inl (congrArg (·.getD ByteTracker.new) none)
  · exact .inr (congrArg (·.getD ByteTracker.new) same)

theorem Tidy.step (tidy : monitored.Tidy) (call : CheckerCall) (allowed : monitored.Allowed call) :
    (∃ next, monitored.step call = .ok next ∧ next.Tidy ∧ ¬ monitored.Blocked call) ∨
      (∃ fault, monitored.step call = .error fault) ∧ monitored.Blocked call := by
  obtain ⟨passes, real, names⟩ := allowed
  cases call with
  | startRead _ addr size =>
    obtain ⟨next, done, holds⟩ := tidy.startRead passes real addr size
    exact .inl ⟨next, done, holds, id⟩
  | completeRead _ serial addr size data =>
    exact tidy.completeRead passes real serial addr size data
  | startWrite _ addr size data =>
    obtain ⟨next, done, holds⟩ := tidy.startWrite passes real addr size data
    exact .inl ⟨next, done, holds, id⟩
  | completeWrite =>
    obtain ⟨next, done, holds⟩ := tidy.completeWrite passes real names
    exact .inl ⟨next, done, holds, id⟩
  | abortWrite =>
    obtain ⟨next, done, holds⟩ := tidy.abortWrite passes real names
    exact .inl ⟨next, done, holds, id⟩
  | reset => exact .inl ⟨_, rfl, ⟨fun _ => ByteTracker.tidy_new, real⟩, id⟩
  | resetRange _ addr size =>
    refine .inl ⟨_, rfl, ⟨fun place => ?_, real⟩, id⟩
    rcases getByteTracker_resetRange monitored.checker addr size place with new | same
    · exact new ▸ ByteTracker.tidy_new
    · exact same ▸ (tidy.trackers place).weaken _ passes Set.Subset.rfl fun _ _ member => member

/-- In every history a call fails an assertion exactly if it completes a read of which a byte is
blocked. -/
theorem assertion_fails_iff {calls : List CheckerCall}
    (run : Run step Allowed create calls monitored) {call : CheckerCall}
    (allowed : monitored.Allowed call) :
    (∃ fault, monitored.step call = .error fault) ↔ monitored.Blocked call := by
  have tidy : monitored.Tidy := run.invariant Tidy (fun holds allowed taken => by
    rcases holds.step _ allowed with ⟨_, done, nextTidy, _⟩ | ⟨⟨_, failed⟩, _⟩
    · rw [done] at taken
      cases taken
      exact nextTidy
    · rw [failed] at taken
      cases taken) tidy_create
  rcases tidy.step call allowed with ⟨_, done, _, free⟩ | ⟨failed, blocked⟩
  · refine ⟨fun ⟨_, failed⟩ => ?_, fun blocked => absurd blocked free⟩
    rw [done] at failed
    cases failed
  · exact ⟨fun _ => blocked, fun _ => failed⟩

/-- The completion of a read fails with the given assertion. -/
def failsWith (monitored : Monitored) (call : CheckerCall) (fault : CheckerFault) : Bool :=
  match monitored.step call with
  | .ok _ => false
  | .error other => decide (other = fault)

theorem step_of_failsWith {call : CheckerCall} {fault : CheckerFault}
    (fails : monitored.failsWith call fault = true) : monitored.step call = .error fault := by
  rw [failsWith] at fails
  split at fails
  · cases fails
  · rename_i other failed
    rw [failed, of_decide_eq_true fails]

/-- A write lost by a reset completes, and the read of the byte that completes then is blocked. -/
theorem assertion_fails_iff_lost_write :
    ∃ monitored, Run step Allowed create
      [.startWrite 5 0 1 fun _ => 1, .reset 6, .startRead 10 0 1, .completeWrite 20 0 0 1]
      monitored ∧ monitored.Allowed (.completeRead 30 1 0 1 fun _ => 0) ∧
      monitored.Blocked (.completeRead 30 1 0 1 fun _ => 0) := by
  refine Run.exists_checked (fun monitored =>
      monitored.Allowed (.completeRead 30 1 0 1 fun _ => 0) ∧
        monitored.failsWith (.completeRead 30 1 0 1 fun _ => 0) .noOverlap = true)
    (by decide +kernel) fun _ run ⟨allowed, fails⟩ => ⟨allowed, ?_⟩
  exact (assertion_fails_iff run allowed).mp ⟨_, step_of_failsWith fails⟩

/-- A write starts at the tick at which the only read completes. -/
theorem write_starts_as_read_completes :
    ∃ monitored, Run step Allowed create
      [.startRead 10 0 1, .startWrite 20 0 1 fun _ => 1] monitored ∧
      monitored.Allowed (.completeRead 20 0 0 1 fun _ => 0) ∧
      monitored.step (.completeRead 20 0 0 1 fun _ => 0) = .error .noOverlap := by
  exact Run.exists_checked (fun monitored =>
      monitored.Allowed (.completeRead 20 0 0 1 fun _ => 0) ∧
        monitored.failsWith (.completeRead 20 0 0 1 fun _ => 0) .noOverlap = true)
    (by decide +kernel) fun _ _ ⟨allowed, fails⟩ => ⟨allowed, step_of_failsWith fails⟩

end Monitored

end Gem5.Mem
