/-
This file says what the memory checker answers when a read completes and when
one of its assertions fails. The only assertion that can fail is the one that
all clusters overlap the read: it does so if no read and no write is known to
have completed before the read began and the oldest cluster does not begin
before the tick at which the read completes. That happens when a write starts
at that tick, and when a write that was lost by a reset completes.
-/

import Gem5.Mem.MemCheckerTidy

namespace Gem5.Mem

open Base Library List

namespace ByteTracker

variable {tracker : ByteTracker} {now later : Nat} {used live : Set Serial} {serial : Serial}
  {start : Nat} {data : Byte}

/-! ### The verdict on a read -/

/-- The assertion that all clusters overlap the read fails: no read is known to have completed
before the read began, no write is known to have done so or to have written the data, and the
oldest cluster does not begin before the read completes. -/
def Unoverlapped (tracker : ByteTracker) (start complete : Nat) (data : Byte) : Prop :=
  (∀ observation ∈ tracker.readObservations,
    observation.complete = tickInitial ∨ start ≤ observation.complete) ∧
  (∀ cluster ∈ tracker.writeClusters, ∀ write ∈ cluster.writes,
    write.data ≠ data ∧ start < write.complete) ∧
  ∃ first ∈ tracker.writeClusters.head?, complete ≤ first.start

/-- Why a read is rejected: no write that was scanned has its data, the writes that were not
scanned are older than one that completed before the read began, and the last observation has
other data or is older than such a write. -/
structure Rejects (tracker : ByteTracker) (start : Nat) (data : Byte) (last_obs : Transaction)
    (older newer : List WriteCluster) : Prop where
  observed : last_obs ∈ tracker.readObservations
  clusters : tracker.writeClusters = older ++ newer
  noMatch : ∀ cluster ∈ newer, ∀ write ∈ cluster.writes,
    last_obs.start ≤ write.complete → write.data ≠ data
  stops : older = [] ∨ ∃ cluster ∈ newer, ∃ write ∈ cluster.writes, write.complete ≤ start
  before : last_obs.complete = tickInitial ∨ last_obs.complete < start
  outdated : last_obs.complete ≠ tickInitial ∧ last_obs.data ≠ data ∨
    ∃ cluster ∈ newer, ∃ write ∈ cluster.writes, write.complete ≤ start ∧
      (last_obs.complete = tickInitial ∨ last_obs.complete < write.start)

/-- What `inExpectedData` returns, or that its assertion fails. -/
inductive Verdict (tracker : ByteTracker) (start complete : Nat) (data : Byte) :
    Except CheckerFault (Bool × List Byte) → Prop where
  | accepts {expected : List Byte} (overlapped : ¬ tracker.Unoverlapped start complete data) :
      Verdict tracker start complete data (.ok (true, expected))
  | rejects {expected : List Byte} {last_obs : Transaction} {older newer : List WriteCluster}
      (overlapped : ¬ tracker.Unoverlapped start complete data)
      (rejects : tracker.Rejects start data last_obs older newer) :
      Verdict tracker start complete data (.ok (false, expected))
  | fails (unoverlapped : tracker.Unoverlapped start complete data) :
      Verdict tracker start complete data (.error .noOverlap)

section

variable (tidy : tracker.Tidy now used live)
include tidy

theorem Tidy.last_obs (first : ∀ observation ∈ tracker.readObservations.head?,
      observation.complete = tickInitial ∨ observation.complete < start) :
    ∃ last_obs rest, lastCompletedTransaction Transaction.complete tracker.readObservations start =
        .ok (last_obs, rest) ∧ last_obs ∈ tracker.readObservations ∧
      (last_obs.complete = tickInitial ∨ last_obs.complete < start) ∧
      (last_obs.complete = tickInitial ↔ ∀ observation ∈ tracker.readObservations,
        observation.complete = tickInitial ∨ start ≤ observation.complete) := by
  obtain ⟨_, last_obs, rest, found, split, later, ends⟩ :=
    lastCompletedTransaction_spec Transaction.complete tidy.nonempty start
  have member : last_obs ∈ tracker.readObservations := by
    rw [split]
    exact mem_append_right _ mem_cons_self
  have before : last_obs.complete = tickInitial ∨ last_obs.complete < start := by
    rcases ends with rfl | early
    · exact first last_obs (by rw [split]; rfl)
    · exact .inr early
  refine ⟨last_obs, rest, found, member, before, fun initial observation there => ?_, fun all => ?_⟩
  · have ordered := tidy.ordered
    rw [split, pairwise_append] at ordered
    rw [split, mem_append, mem_cons] at there
    rcases there with earlier | rfl | afterwards
    · have bound := ordered.2.2 observation earlier last_obs mem_cons_self
      rw [initial] at bound
      exact .inl (Nat.le_zero.mp bound)
    · exact .inl initial
    · exact .inr (later observation afterwards)
  · rcases all last_obs member with initial | late
    · exact initial
    · exact before.resolve_right (not_lt.mpr late)

theorem Tidy.anything_goes (real : start < tickFuture)
    {last_obs : Transaction} {scan : Scan} (initial : last_obs.complete = tickInitial)
    (alone : ∀ observation ∈ tracker.readObservations,
      observation.complete = tickInitial ∨ start ≤ observation.complete)
    (all : ∀ cluster ∈ tracker.writeClusters, ∀ write ∈ cluster.writes,
      write.data ≠ data ∧ start < write.complete)
    (overlaps : scan.wc_overlap = true)
    (nothing : tracker.writeClusters = [] → scan.expectedData = [])
    (complete : Nat) : Verdict tracker start complete data
      (tracker.withoutObservation last_obs scan start complete) := by
  rw [withoutObservation]
  cases first : tracker.writeClusters.head? with
  | none =>
    rw [head?_eq_none_iff] at first
    rw [noneMatches, if_pos (nothing first), if_neg (not_not.mpr initial)]
    refine .accepts fun unoverlapped => ?_
    obtain ⟨_, head, _⟩ := unoverlapped.2.2
    rw [first] at head
    cases head
  | some oldest =>
    have some : tracker.writeClusters ≠ [] := fun none => by
      rw [none] at first
      cases first
    rw [getLast?_eq_getLast_of_ne_nil some]
    dsimp only
    rw [if_pos overlaps]
    have newest := getLast_mem some
    have ends : start < (tracker.writeClusters.getLast some).complete := by
      by_cases closed : (tracker.writeClusters.getLast some).complete = tickFuture
      · rw [closed]
        exact real
      · obtain ⟨⟨write, inside, last⟩, _⟩ := (tidy.clusters _ newest).last closed
        rw [← last]
        exact (all _ newest write inside).2
    by_cases begins : oldest.start < complete
    · rw [if_pos ⟨begins, ends⟩]
      refine .accepts fun unoverlapped => ?_
      obtain ⟨_, head, late⟩ := unoverlapped.2.2
      rw [first] at head
      cases head
      exact absurd begins (not_lt.mpr late)
    · rw [if_neg fun both => begins both.1]
      exact .fails ⟨alone, all, oldest, first, not_lt.mp begins⟩

theorem Tidy.inExpectedData (start : Nat)
    (first : ∀ observation ∈ tracker.readObservations.head?,
      observation.complete = tickInitial ∨ observation.complete < start)
    (real : start < tickFuture) (complete : Nat) (data : Byte) :
    Verdict tracker start complete data (tracker.inExpectedData start complete data) := by
  obtain ⟨last_obs, _, lastFound, observed, before, initially⟩ := tidy.last_obs first
  obtain ⟨older, newer, clusters, scanned, ends⟩ :=
    scanned_scanClusters tracker last_obs start data
  rw [ByteTracker.inExpectedData, lastFound, ok_bind]
  dsimp only
  generalize tracker.scanClusters last_obs start data = scan at scanned ends
  have scannedMember {cluster : WriteCluster} {write : Transaction} (there : cluster ∈ newer)
      (member : write ∈ cluster.writes) : write ∈ newer.flatMap WriteCluster.writes :=
    mem_flatMap.mpr ⟨cluster, there, member⟩
  have inTracker {cluster : WriteCluster} (there : cluster ∈ newer) :
      cluster ∈ tracker.writeClusters := by
    rw [clusters]
    exact mem_append_right _ there
  by_cases found : scan.found = true
  · rw [if_pos found]
    refine .accepts fun unoverlapped => ?_
    have missed : scan.found = false := scanned.found.mpr ⟨rfl, fun write member _ => by
      obtain ⟨cluster, there, inside⟩ := mem_flatMap.mp member
      exact (unoverlapped.2.1 cluster (inTracker there) write inside).1⟩
    rw [missed] at found
    cases found
  · have missed : scan.found = false := Bool.not_eq_true _ ▸ found
    have noMatch := (scanned.found.mp missed).2
    have stops (stopped : scan.wc_overlap = false) :
        ∃ cluster ∈ newer, ∃ write ∈ cluster.writes, write.complete ≤ start := by
      obtain ⟨write, member, _, completes⟩ := scanned.stopped missed rfl stopped
      obtain ⟨cluster, there, inside⟩ := mem_flatMap.mp member
      exact ⟨cluster, there, write, inside, completes⟩
    rw [if_neg found]
    by_cases lastValid : scan.last_obs_valid = true
    · rw [if_pos lastValid]
      have notInitial : last_obs.complete ≠ tickInitial :=
        bne_iff_ne.mp ((scanned.valid missed).mp lastValid).1
      have overlapped : ¬ tracker.Unoverlapped start complete data := fun unoverlapped =>
        notInitial (initially.mpr unoverlapped.1)
      rw [if_neg (not_lt.mpr (before.resolve_left notInitial).le)]
      by_cases same : last_obs.data = data
      · rw [if_pos same]
        exact .accepts overlapped
      · rw [if_neg same, noneMatches, if_neg (append_ne_nil_of_right_ne_nil _ (by simp))]
        exact .rejects overlapped ⟨observed, clusters,
          fun cluster there write member => noMatch write (scannedMember there member),
          ends.imp_right stops, before, .inl ⟨notInitial, same⟩⟩
    · rw [if_neg lastValid]
      by_cases overlaps : scan.wc_overlap = true
      · have all := ((scanned.overlap missed).mp overlaps).2
        have initial : last_obs.complete = tickInitial := by
          by_contra real
          obtain ⟨write, member, counts, completes, _⟩ :=
            scanned.invalid missed (bne_iff_ne.mpr real) lastValid
          exact absurd (all write member counts) (not_lt.mpr completes)
        have counts (write : Transaction) : last_obs.start ≤ write.complete := by
          have bound := (tidy.observed last_obs observed).1
          rw [initial] at bound
          exact bound.trans (Nat.zero_le _)
        have whole : older = [] := ends.resolve_right fun stopped => by
          rw [stopped] at overlaps
          cases overlaps
        rw [whole, nil_append] at clusters
        refine tidy.anything_goes real initial (initially.mp initial)
          (fun cluster there write member => ?_) overlaps (fun none => ?_) complete
        · rw [clusters] at there
          have inside := scannedMember there member
          exact ⟨noMatch write inside (counts write), all write inside (counts write)⟩
        · rw [none] at clusters
          refine (scanned.expected missed).mpr ⟨rfl, fun write member => ?_⟩
          rw [← clusters] at member
          cases member
      · have stopped : scan.wc_overlap = false := Bool.not_eq_true _ ▸ overlaps
        obtain ⟨write, member, counts, completes⟩ := scanned.stopped missed rfl stopped
        obtain ⟨cluster, there, inside⟩ := mem_flatMap.mp member
        have expects : scan.expectedData ≠ [] := fun nothing =>
          absurd (((scanned.expected missed).mp nothing).2 write member) (not_lt.mpr counts)
        have rejected : tracker.withoutObservation last_obs scan start complete =
            .ok (false, scan.expectedData) := by
          rw [withoutObservation, stopped, noneMatches, if_neg expects]
          split <;> rfl
        rw [rejected]
        refine .rejects (fun unoverlapped => ?_) ⟨observed, clusters,
          fun cluster there write member => noMatch write (scannedMember there member),
          .inr (stops stopped), before, .inr ?_⟩
        · have late := (unoverlapped.2.1 cluster (inTracker there) write inside).2
          exact absurd completes (not_le.mpr late)
        · by_cases initial : last_obs.complete = tickInitial
          · exact ⟨cluster, there, write, inside, completes, .inl initial⟩
          · obtain ⟨other, member, _, completes, starts⟩ :=
              scanned.invalid missed (bne_iff_ne.mpr initial) lastValid
            obtain ⟨cluster, there, inside⟩ := mem_flatMap.mp member
            exact ⟨cluster, there, other, inside, completes, .inr starts⟩

end

/-! ### Completed reads -/

def observe (tracker : ByteTracker) (serial : Serial) (read : Transaction) (complete : Nat)
    (data : Byte) (expected : List Byte) : ByteTracker :=
  { tracker with
    outstandingReads := tracker.outstandingReads.remove serial
    readObservations := tracker.readObservations ++ [⟨serial, read.start, complete, data⟩]
    lastExpectedData := expected }

theorem Tidy.observe (tidy : tracker.Tidy now used live) {read : Transaction}
    (found : tracker.outstandingReads.lookup serial = some read) {complete : Nat}
    (passes : now ≤ complete) (data : Byte) (expected : List Byte) :
    (tracker.observe serial read complete data expected).Tidy complete used live := by
  have waiting := tidy.weaken live passes Set.Subset.rfl fun _ _ member => member
  have subset : (tracker.outstandingReads.remove serial).entries.Sublist
      tracker.outstandingReads.entries := filter_sublist
  have started := waiting.readsStarted _ (OrderedMap.mem_of_lookup found)
  refine { waiting with
    readsUsed := fun entry member => waiting.readsUsed entry (subset.mem member)
    readsStarted := fun entry member => waiting.readsStarted entry (subset.mem member)
    readsOrdered := waiting.readsOrdered.sublist subset
    nonempty := append_ne_nil_of_left_ne_nil waiting.nonempty _
    observed := ?_, ordered := ?_, first := ?_ }
  · rw [ByteTracker.observe, forall_mem_append, forall_mem_singleton]
    exact ⟨waiting.observed, started, le_rfl⟩
  · refine pairwise_append.mpr ⟨waiting.ordered, pairwise_singleton _ _, ?_⟩
    intro observation member
    rw [forall_mem_singleton]
    exact (waiting.observed observation member).2
  · intro observation head
    rw [ByteTracker.observe, head?_append_of_ne_nil _ waiting.nonempty] at head
    exact (waiting.first observation head).imp_right fun ⟨before, starts⟩ =>
      ⟨before, fun entry member => starts entry (subset.mem member)⟩

inductive Completed (tracker : ByteTracker) (serial : Serial) (complete : Nat) (data : Byte) :
    Except CheckerFault (ByteTracker × Bool) → Prop where
  | unknown (missing : tracker.outstandingReads.lookup serial = none) :
      Completed tracker serial complete data (.ok (tracker, true))
  | returns {read : Transaction} {expected : List Byte} {result : Bool} {next : ByteTracker}
      (found : tracker.outstandingReads.lookup serial = some read)
      (overlapped : ¬ tracker.Unoverlapped read.start complete data)
      (rejected : result = false →
        ∃ last_obs older newer, tracker.Rejects read.start data last_obs older newer)
      (pruned : (tracker.observe serial read complete data expected).Pruned next
        ((tracker.observe serial read complete data expected).pruneTick complete)) :
      Completed tracker serial complete data (.ok (next, result))
  | fails {read : Transaction} (found : tracker.outstandingReads.lookup serial = some read)
      (unoverlapped : tracker.Unoverlapped read.start complete data) :
      Completed tracker serial complete data (.error .noOverlap)

theorem Tidy.completeRead (tidy : tracker.Tidy now used live) (serial : Serial) {complete : Nat}
    (passes : now ≤ complete) (real : complete < tickFuture) (data : Byte) :
    Completed tracker serial complete data
      (tracker.completeRead complete serial complete data) := by
  rw [ByteTracker.completeRead]
  cases found : tracker.outstandingReads.lookup serial with
  | none => exact .unknown found
  | some read =>
    have member := OrderedMap.mem_of_lookup found
    have started : read.start ≤ now := tidy.readsStarted _ member
    have verdict := tidy.inExpectedData read.start
      (fun observation head => (tidy.first observation head).imp_right
        fun ⟨_, starts⟩ => starts _ member) (by omega) complete data
    have same : ({ tracker with
        outstandingReads := tracker.outstandingReads.remove serial } : ByteTracker).inExpectedData
          read.start complete data = tracker.inExpectedData read.start complete data := rfl
    dsimp only
    rw [same]
    have ends (result : Bool) (expected : List Byte)
        (rejected : result = false →
          ∃ last_obs older newer, tracker.Rejects read.start data last_obs older newer)
        (overlapped : ¬ tracker.Unoverlapped read.start complete data) :
        Completed tracker serial complete data (do
          return (← (tracker.observe serial read complete data expected).pruneTransactions complete,
            result)) := by
      obtain ⟨_, done, pruned⟩ := pruneTransactions_spec
        (tidy.observe found passes data expected).nonempty complete
      rw [done]
      exact .returns found overlapped rejected pruned
    generalize tracker.inExpectedData read.start complete data = outcome at verdict
    cases verdict with
    | accepts overlapped => exact ends true _ nofun overlapped
    | rejects overlapped rejects => exact ends false _ (fun _ => ⟨_, _, _, rejects⟩) overlapped
    | fails unoverlapped => exact .fails found unoverlapped

theorem Tidy.completed {next : ByteTracker} {result : Bool} {complete : Nat}
    (tidy : tracker.Tidy now used live) (passes : now ≤ complete)
    (completed : Completed tracker serial complete data (.ok (next, result))) :
    next.Tidy complete used live := by
  cases completed with
  | unknown => exact tidy.weaken _ passes Set.Subset.rfl fun _ _ member => member
  | returns found _ _ pruned => exact (tidy.observe found passes data _).pruned pruned

/-- The completion of a read fails an assertion. -/
def Blocked (tracker : ByteTracker) (serial : Serial) (complete : Nat) (data : Byte) : Prop :=
  ∃ read, tracker.outstandingReads.lookup serial = some read ∧
    tracker.Unoverlapped read.start complete data

theorem Completed.ok_iff {outcome : Except CheckerFault (ByteTracker × Bool)} {complete : Nat}
    (completed : Completed tracker serial complete data outcome) :
    (∃ next result, outcome = .ok (next, result)) ↔ ¬ tracker.Blocked serial complete data := by
  cases completed with
  | unknown missing =>
    refine ⟨fun _ ⟨_, found, _⟩ => ?_, fun _ => ⟨_, _, rfl⟩⟩
    rw [missing] at found
    cases found
  | returns found overlapped =>
    refine ⟨fun _ ⟨_, other, unoverlapped⟩ => ?_, fun _ => ⟨_, _, rfl⟩⟩
    rw [found] at other
    cases other
    exact overlapped unoverlapped
  | fails found unoverlapped =>
    refine ⟨fun ⟨_, _, value⟩ => ?_, fun free => absurd ⟨_, found, unoverlapped⟩ free⟩
    cases value

end ByteTracker

/-! ### The bytes of a transaction -/

namespace MemChecker

variable {checker : MemChecker} {addr : Addr} {Output : Type}

theorem getByteTracker_withTracker_of_ne {other : Addr} (different : other ≠ addr)
    (tracker : ByteTracker) :
    (checker.withTracker addr tracker).getByteTracker other = checker.getByteTracker other := by
  simp [getByteTracker, withTracker, different]

/-- The bytes of a transaction are different ones. -/
theorem byte_ne {i j : Nat} (less : i < j) (fits : j < 2 ^ 64) :
    addr + BitVec.ofNat 64 i ≠ addr + BitVec.ofNat 64 j := by
  intro same
  have equal := congrArg BitVec.toNat (BitVec.add_right_inj addr |>.mp same)
  rw [BitVec.toNat_ofNat, BitVec.toNat_ofNat, Nat.mod_eq_of_lt (less.trans fits),
    Nat.mod_eq_of_lt fits] at equal
  omega

section

variable (step : Nat → ByteTracker → Output → Except CheckerFault (ByteTracker × Output))
include step

theorem eachByte_succ (addr : Addr) (size : Nat) (checker : MemChecker) (output : Output) :
    checker.eachByte step addr (size + 1) output =
      checker.eachByte step addr size output >>= fun state => byteStep step addr state size := by
  rw [eachByte, range_succ, foldlM_append]
  exact congrArg _ (funext fun state => bind_pure _)

/-- The loop over the bytes: what holds of all trackers before is brought to what holds of all of
them afterwards, unless one byte is a bad one. -/
theorem eachByte_spec (before after : ByteTracker → Prop) (bad : Nat → ByteTracker → Prop)
    (untouched : ∀ tracker, before tracker → after tracker)
    (good : ∀ i tracker output, before tracker → ¬ bad i tracker →
      ∃ next collected, step i tracker output = .ok (next, collected) ∧ after next)
    (fails : ∀ i tracker output, before tracker → bad i tracker →
      ∃ fault, step i tracker output = .error fault)
    {size : Nat} (fits : size ≤ 2 ^ 64) (all : ∀ place, before (checker.getByteTracker place))
    (addr : Addr) (output : Output) :
    (∃ next collected, checker.eachByte step addr size output = .ok (next, collected) ∧
      next.nextSerial = checker.nextSerial ∧ (∀ place, after (next.getByteTracker place)) ∧
      ∀ i < size, ¬ bad i (checker.getByteTracker (addr + BitVec.ofNat 64 i))) ∨
    (∃ fault, checker.eachByte step addr size output = .error fault) ∧
      ∃ i < size, bad i (checker.getByteTracker (addr + BitVec.ofNat 64 i)) := by
  have bytes : (∃ next collected, checker.eachByte step addr size output = .ok (next, collected) ∧
      next.nextSerial = checker.nextSerial ∧
      (∀ i < size, after (next.getByteTracker (addr + BitVec.ofNat 64 i)) ∧
        ¬ bad i (checker.getByteTracker (addr + BitVec.ofNat 64 i))) ∧
      ∀ place, (∀ i < size, place ≠ addr + BitVec.ofNat 64 i) →
        next.getByteTracker place = checker.getByteTracker place) ∨
      (∃ fault, checker.eachByte step addr size output = .error fault) ∧
        ∃ i < size, bad i (checker.getByteTracker (addr + BitVec.ofNat 64 i)) := by
    induction size with
    | zero => exact .inl ⟨checker, output, rfl, rfl, nofun, fun _ _ => rfl⟩
    | succ size hypothesis =>
      rw [eachByte_succ]
      rcases hypothesis (by omega) with
        ⟨next, collected, done, serial, bytes, others⟩ | ⟨⟨fault, failed⟩, i, less, isBad⟩
      · have place := others (addr + BitVec.ofNat 64 size) fun i less => (byte_ne less fits).symm
        have initially := all (addr + BitVec.ofNat 64 size)
        rw [done, ok_bind, byteStep]
        rw [place]
        by_cases isBad : bad size (checker.getByteTracker (addr + BitVec.ofNat 64 size))
        · obtain ⟨fault, failed⟩ := fails size _ collected initially isBad
          refine .inr ⟨⟨fault, ?_⟩, size, Nat.lt_succ_self size, isBad⟩
          rw [failed]
          rfl
        · obtain ⟨tracker, more, taken, holds⟩ := good size _ collected initially isBad
          refine .inl ⟨next.withTracker (addr + BitVec.ofNat 64 size) tracker, more, ?_, serial,
            fun i less => ?_, fun other outside => ?_⟩
          · rw [taken]
            rfl
          · rcases Nat.lt_succ_iff_lt_or_eq.mp less with lower | rfl
            · rw [getByteTracker_withTracker_of_ne (byte_ne lower fits)]
              exact bytes i lower
            · exact ⟨by simpa [getByteTracker, withTracker] using holds, isBad⟩
          · rw [getByteTracker_withTracker_of_ne (outside size (Nat.lt_succ_self size))]
            exact others other fun i less => outside i (Nat.lt_succ_of_lt less)
      · refine .inr ⟨⟨fault, ?_⟩, i, Nat.lt_succ_of_lt less, isBad⟩
        rw [failed]
        rfl
  refine bytes.imp_left fun ⟨next, collected, done, serial, bytes, others⟩ =>
    ⟨next, collected, done, serial, fun place => ?_, fun i less => (bytes i less).2⟩
  by_cases inside : ∃ i < size, place = addr + BitVec.ofNat 64 i
  · obtain ⟨i, less, rfl⟩ := inside
    exact (bytes i less).1
  · rw [others place fun i less same => inside ⟨i, less, same⟩]
    exact untouched _ (all place)

/-- The loop over the bytes when there are no bad ones. -/
theorem eachByte_ok (before after : ByteTracker → Prop)
    (untouched : ∀ tracker, before tracker → after tracker)
    (good : ∀ i tracker output, before tracker →
      ∃ next collected, step i tracker output = .ok (next, collected) ∧ after next)
    (all : ∀ place, before (checker.getByteTracker place)) (addr : Addr) (size : BitVec 64)
    (output : Output) :
    ∃ next collected, checker.eachByte step addr size.toNat output = .ok (next, collected) ∧
      next.nextSerial = checker.nextSerial ∧ ∀ place, after (next.getByteTracker place) := by
  rcases eachByte_spec step before after (fun _ _ => False) untouched
      (fun i tracker output holds _ => good i tracker output holds) (fun _ _ _ _ => False.elim)
      size.isLt.le all addr output with
    ⟨next, collected, done, serial, holds, _⟩ | ⟨_, _, _, impossible⟩
  · exact ⟨next, collected, done, serial, holds⟩
  · exact impossible.elim

end

end MemChecker

end Gem5.Mem
