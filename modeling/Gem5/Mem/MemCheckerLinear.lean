/-
This file shows that the memory checker raises no false alarm. In a history of
one byte whose reads agree with some order of all operations in time, every read
is accepted, unless the assertion about overlapping clusters fails. The history
is compared with the tracker as far as the tracker goes: what has been pruned is
older than a write that completed before every outstanding read began.
-/

import Gem5.Mem.MemCheckerVerdict

namespace Gem5.Mem

open Library List

/-! ### Histories of one byte -/

inductive ByteCall where
  | startRead (tick : Nat) (serial : Serial)
  | completeRead (tick : Nat) (serial : Serial) (data : Byte)
  | startWrite (tick : Nat) (serial : Serial) (data : Byte)
  | completeWrite (tick : Nat) (serial : Serial)
  | abortWrite (tick : Nat) (serial : Serial)
deriving DecidableEq, Repr

namespace ByteCall

def tick : ByteCall → Nat
  | startRead tick _ | completeRead tick _ _ | startWrite tick _ _ | completeWrite tick _
  | abortWrite tick _ => tick

def serial : ByteCall → Serial
  | startRead _ serial | completeRead _ serial _ | startWrite _ serial _ | completeWrite _ serial
  | abortWrite _ serial => serial

def startsRead (other : Serial) : ByteCall → Bool
  | startRead _ serial => serial == other
  | _ => false

def startsWrite (other : Serial) : ByteCall → Bool
  | startWrite _ serial _ => serial == other
  | _ => false

def endsRead (other : Serial) : ByteCall → Bool
  | completeRead _ serial _ => serial == other
  | _ => false

def endsWrite (other : Serial) : ByteCall → Bool
  | completeWrite _ serial | abortWrite _ serial => serial == other
  | _ => false

/-- A call comes after its start and at most once, and serials are new. The serial of a read is
greater than those of the reads before, as the checker assigns them. -/
def Follows (past : List ByteCall) : ByteCall → Prop
  | startRead _ serial => (∀ earlier ∈ past, earlier.serial ≠ serial) ∧
    ∀ earlier ∈ past, earlier.startsRead earlier.serial = true → earlier.serial < serial
  | startWrite _ serial _ => ∀ earlier ∈ past, earlier.serial ≠ serial
  | completeRead _ serial _ => (∃ earlier ∈ past, earlier.startsRead serial = true) ∧
    ∀ earlier ∈ past, earlier.endsRead serial = false
  | completeWrite _ serial | abortWrite _ serial =>
    (∃ earlier ∈ past, earlier.startsWrite serial = true) ∧
    ∀ earlier ∈ past, earlier.endsWrite serial = false

instance (past : List ByteCall) (call : ByteCall) : Decidable (Follows past call) :=
  match call with
  | startWrite .. => inferInstanceAs (Decidable (∀ _ ∈ _, _))
  | startRead .. | completeRead .. | completeWrite .. | abortWrite .. =>
    inferInstanceAs (Decidable (_ ∧ _))

/-- The ticks do not go back and stay before `TICK_FUTURE`. -/
def Allowed (past : List ByteCall) (call : ByteCall) : Prop :=
  (∀ earlier ∈ past, earlier.tick ≤ call.tick) ∧ call.tick < tickFuture ∧ Follows past call
deriving Decidable

/-- Every call is allowed after those before it. -/
def WellFormed (calls : List ByteCall) : Prop :=
  ∀ position : Fin calls.length, Allowed (calls.take position) calls[position]
deriving Decidable

theorem WellFormed.allowed {past rest : List ByteCall} {call : ByteCall}
    (wellFormed : WellFormed (past ++ call :: rest)) : Allowed past call := by
  have here := wellFormed ⟨past.length, by simp⟩
  simpa using here

end ByteCall

namespace ByteTracker

def call (tracker : ByteTracker) : ByteCall → Except CheckerFault (ByteTracker × Bool)
  | .startRead tick serial => .ok (tracker.startRead serial tick, true)
  | .completeRead tick serial data => tracker.completeRead tick serial tick data
  | .startWrite tick serial data => do return (← tracker.startWrite serial tick data, true)
  | .completeWrite tick serial => do return (← tracker.completeWrite tick serial tick, true)
  | .abortWrite _ serial => .ok (tracker.abortWrite serial, true)

def step (tracker : ByteTracker) (call : ByteCall) : Except CheckerFault ByteTracker := do
  let (tracker, _) ← tracker.call call
  return tracker

end ByteTracker

/-! ### Linearizations -/

/-- A write that is not aborted. -/
def Writes (calls : List ByteCall) (serial : Serial) (start : Nat) (data : Byte) : Prop :=
  .startWrite start serial data ∈ calls ∧ ∀ tick, .abortWrite tick serial ∉ calls

/-- A read, or a write that is not aborted. -/
def Operates (calls : List ByteCall) (serial : Serial) (start : Nat) : Prop :=
  .startRead start serial ∈ calls ∨ ∃ data, Writes calls serial start data

def Completes (calls : List ByteCall) (serial : Serial) (tick : Nat) : Prop :=
  .completeWrite tick serial ∈ calls ∨ ∃ data, .completeRead tick serial data ∈ calls

/-- Every operation has a point between its start and its completion, an operation that completes
at or before the start of another precedes it, and every read that completes returns the data of the
last write before it, or the initial data if there is none. -/
structure Linearizes (calls : List ByteCall) (initial : Byte) (point : Serial → ℚ) : Prop where
  begins : ∀ serial start, Operates calls serial start → start ≤ point serial
  ends : ∀ serial start tick, Operates calls serial start → Completes calls serial tick →
    point serial ≤ tick
  distinct : ∀ first second start other, Operates calls first start → Operates calls second other →
    first ≠ second → point first ≠ point second
  precedes : ∀ first second start tick other, Operates calls first start →
    Operates calls second other → first ≠ second → Completes calls first tick → tick ≤ other →
    point first < point second
  returns : ∀ tick serial data, .completeRead tick serial data ∈ calls →
    (∃ write start, Writes calls write start data ∧ point write < point serial ∧
      ∀ other start data, Writes calls other start data → point other < point serial →
        point other ≤ point write) ∨
    data = initial ∧ ∀ write start data, Writes calls write start data →
      ¬ point write < point serial

def Linearizable (calls : List ByteCall) : Prop := ∃ initial point, Linearizes calls initial point

/-! ### What the tracker knows of the history -/

def lastTick (past : List ByteCall) : Nat := (past.getLast?.map ByteCall.tick).getD 0

def usedSerials (past : List ByteCall) : Set Serial :=
  {serial | ∃ call ∈ past, call.serial = serial}

/-- The serials of the writes in flight. -/
def liveSerials (past : List ByteCall) : Set Serial :=
  {serial | (∃ call ∈ past, call.startsWrite serial = true) ∧
    ∀ call ∈ past, call.endsWrite serial = false}

/-- A write is older than another one that completed before every outstanding read began. -/
def Superseded (tracker : ByteTracker) (past : List ByteCall) (serial : Serial) : Prop :=
  ∃ tick other start data complete, .completeWrite tick serial ∈ past ∧
    .startWrite start other data ∈ past ∧ .completeWrite complete other ∈ past ∧ serial ≠ other ∧
    tick ≤ start ∧ complete ≤ lastTick past ∧
    ∀ entry ∈ tracker.outstandingReads.entries, complete ≤ entry.2.start

/-- A write is in the history, with its completion if it has one. -/
def Recorded (past : List ByteCall) (write : Transaction) : Prop :=
  .startWrite write.start write.serial write.data ∈ past ∧
    (write.complete ≠ tickFuture → .completeWrite write.complete write.serial ∈ past)

/-- The writes of the clusters are those of the history, a write of an older cluster completed
before one of a newer cluster began, and a write that is in no cluster does not matter any more. -/
structure ClusterTrace (clusters : List WriteCluster) (past : List ByteCall)
    (superseded : Serial → Prop) : Prop where
  writes : ∀ cluster ∈ clusters, ∀ write ∈ cluster.writes, Recorded past write
  ordered : clusters.Pairwise fun older newer => ∀ first ∈ older.writes, ∀ second ∈ newer.writes,
    first.serial ≠ second.serial ∧ first.complete ≤ second.start
  covered : ∀ serial start data, .startWrite start serial data ∈ past →
    (∀ tick, .abortWrite tick serial ∉ past) →
    (∃ cluster ∈ clusters, ∃ write ∈ cluster.writes, write.serial = serial ∧ write.data = data) ∨
    superseded serial

/-- What a tracker keeps of the history. -/
structure Traced (tracker : ByteTracker) (past : List ByteCall) : Prop where
  tidy : tracker.Tidy (lastTick past) (usedSerials past) (liveSerials past)
  reads : ∀ entry ∈ tracker.outstandingReads.entries, .startRead entry.2.start entry.1 ∈ past
  observations : ∀ observation ∈ tracker.readObservations,
    observation.complete = tickInitial ∨ .startRead observation.start observation.serial ∈ past ∧
      .completeRead observation.complete observation.serial observation.data ∈ past
  clusters : ClusterTrace tracker.writeClusters past (Superseded tracker past)

variable {past : List ByteCall} {call : ByteCall} {tracker next : ByteTracker}
  {clusters older : List WriteCluster} {cluster written : WriteCluster}
  {superseded later : Serial → Prop} {tick : Nat} {serial : Serial} {data : Byte}

theorem traced_new : Traced .new [] := by
  refine ⟨ByteTracker.tidy_new, nofun, ?_, nofun, List.Pairwise.nil, nofun⟩
  intro observation member
  rw [mem_singleton.mp member]
  exact .inl rfl

theorem lastTick_append (past : List ByteCall) (call : ByteCall) :
    lastTick (past ++ [call]) = call.tick := by
  simp [lastTick]

theorem lastTick_le (allowed : ByteCall.Allowed past call) : lastTick past ≤ call.tick := by
  rw [lastTick]
  cases ends : past.getLast? with
  | none => exact Nat.zero_le _
  | some last => exact allowed.1 last (mem_of_getLast? ends)

theorem usedSerials_append (past : List ByteCall) (call : ByteCall) :
    usedSerials (past ++ [call]) = insert call.serial (usedSerials past) := by
  ext serial
  simp only [usedSerials, mem_append, mem_singleton, Set.mem_ofPred_eq, Set.mem_insert_iff]
  constructor
  · rintro ⟨earlier, old | rfl, rfl⟩
    · exact .inr ⟨earlier, old, rfl⟩
    · exact .inl rfl
  · rintro (rfl | ⟨earlier, old, rfl⟩)
    · exact ⟨call, .inr rfl, rfl⟩
    · exact ⟨earlier, .inl old, rfl⟩

theorem liveSerials_append {serial : Serial} (live : serial ∈ liveSerials (past ++ [call])) :
    (serial ∈ liveSerials past ∨ call.startsWrite serial = true) ∧
      call.endsWrite serial = false := by
  obtain ⟨⟨start, member, starts⟩, open_⟩ := live
  rw [forall_mem_append, forall_mem_singleton] at open_
  refine ⟨?_, open_.2⟩
  rcases mem_append.mp member with old | new
  · exact .inl ⟨⟨start, old, starts⟩, open_.1⟩
  · rw [mem_singleton.mp new] at starts
    exact .inr starts

theorem liveSerials_ended {other : Serial} (live : other ∈ liveSerials (past ++ [call]))
    (quiet : call.startsWrite other = false) (ends : call.endsWrite serial = true) :
    other ∈ liveSerials past \ {serial} := by
  obtain ⟨was, stays⟩ := liveSerials_append live
  refine ⟨was.resolve_right (Bool.eq_false_iff.mp quiet), fun same => ?_⟩
  rw [Set.mem_singleton_iff.mp same, ends] at stays
  cases stays

theorem Superseded.append (superseded : Superseded tracker past serial)
    (passes : lastTick past ≤ call.tick)
    (reads : ∀ entry ∈ next.outstandingReads.entries,
      entry ∈ tracker.outstandingReads.entries ∨ lastTick past ≤ entry.2.start) :
    Superseded next (past ++ [call]) serial := by
  obtain ⟨tick, other, start, data, complete, ends, starts, completes, different, before, passed,
    began⟩ := superseded
  refine ⟨tick, other, start, data, complete, mem_append_left _ ends,
    mem_append_left _ starts, mem_append_left _ completes, different, before, ?_, ?_⟩
  · rw [lastTick_append]
    exact passed.trans passes
  · intro entry member
    rcases reads entry member with old | new
    · exact began entry old
    · exact passed.trans new

theorem Recorded.append {write : Transaction} (recorded : Recorded past write) (call : ByteCall) :
    Recorded (past ++ [call]) write :=
  recorded.imp (mem_append_left _) fun completes real => mem_append_left _ (completes real)

theorem ClusterTrace.opened (trace : ClusterTrace clusters past superseded)
    (opened : clusters = older ++ [cluster] ∨ clusters = older ∧ cluster = .new) :
    ClusterTrace (older ++ [cluster]) past superseded := by
  rcases opened with rfl | ⟨rfl, rfl⟩
  · exact trace
  · have none : WriteCluster.new.writes = [] := rfl
    refine ⟨?_, ?_, fun serial start data starts kept => ?_⟩
    · rw [forall_mem_append, forall_mem_singleton, none]
      exact ⟨trace.writes, nofun⟩
    · refine pairwise_append.mpr ⟨trace.ordered, pairwise_singleton _ _, ?_⟩
      intro other _
      rw [forall_mem_singleton, none]
      exact fun _ _ => nofun
    · refine (trace.covered serial start data starts kept).imp_left ?_
      rintro ⟨other, member, there⟩
      exact ⟨other, mem_append_left _ member, there⟩

theorem ClusterTrace.append (trace : ClusterTrace clusters past superseded)
    (quiet : ∀ serial, call.startsWrite serial = false)
    (keeps : ∀ serial, superseded serial → later serial) :
    ClusterTrace clusters (past ++ [call]) later := by
  refine ⟨fun cluster member write inside => (trace.writes cluster member write inside).append call,
    trace.ordered, fun serial start data starts kept => ?_⟩
  rw [mem_append, mem_singleton] at starts
  rcases starts with old | rfl
  · exact (trace.covered serial start data old fun tick member =>
      kept tick (mem_append_left _ member)).imp_right (keeps serial)
  · have := quiet serial
    simp [ByteCall.startsWrite] at this

/-! ### The calls -/

section

variable (trace : ClusterTrace (older ++ [cluster]) past superseded)
include trace

/-- The writes of the last cluster change, or get a new one that the call starts. -/
theorem ClusterTrace.change
    (comesFrom : ∀ after ∈ written.writes,
      (∃ write ∈ cluster.writes, after.serial = write.serial ∧ after.start = write.start ∧
        after.data = write.data ∧ (after.complete = write.complete ∨
          .completeWrite after.complete after.serial ∈ past ++ [call])) ∨
      .startWrite after.start after.serial after.data = call ∧ after.complete = tickFuture ∧
        ∀ other ∈ older, ∀ first ∈ other.writes,
          first.serial ≠ after.serial ∧ first.complete ≤ after.start)
    (remains : ∀ write ∈ cluster.writes, (∀ tick, .abortWrite tick write.serial ∉ past ++ [call]) →
      ∃ after ∈ written.writes, after.serial = write.serial ∧ after.data = write.data)
    (starts : ∀ start serial data, call = .startWrite start serial data →
      ∃ after ∈ written.writes, after.serial = serial ∧ after.data = data)
    (keeps : ∀ serial, superseded serial → later serial) :
    ClusterTrace (older ++ [written]) (past ++ [call]) later := by
  have last : written ∈ older ++ [written] := mem_append_right _ (mem_singleton_self _)
  have old := trace.writes
  have ordered := trace.ordered
  rw [forall_mem_append, forall_mem_singleton] at old
  rw [pairwise_append] at ordered
  refine ⟨?_, pairwise_append.mpr ⟨ordered.1, pairwise_singleton _ _, ?_⟩,
    fun serial start data begins kept => ?_⟩
  · rw [forall_mem_append, forall_mem_singleton]
    refine ⟨fun other member write inside => (old.1 other member write inside).append call,
      fun after inside => ?_⟩
    rcases comesFrom after inside with
      ⟨write, member, sameSerial, sameStart, sameData, complete⟩ | ⟨new, incomplete, _⟩
    · obtain ⟨begins, completes⟩ := (old.2 write member).append call
      rw [Recorded, sameStart, sameSerial, sameData]
      refine ⟨begins, fun real => ?_⟩
      rcases complete with same | recorded
      · rw [same] at real ⊢
        exact completes real
      · exact sameSerial ▸ recorded
    · exact ⟨mem_append_right _ (mem_singleton.mpr new), fun real => absurd incomplete real⟩
  · intro other member
    rw [forall_mem_singleton]
    intro first inside after there
    rcases comesFrom after there with ⟨write, known, sameSerial, sameStart, _⟩ | ⟨_, _, follows⟩
    · rw [sameSerial, sameStart]
      exact ordered.2.2 other member cluster (mem_singleton_self _) first inside write known
    · exact follows other member first inside
  · rcases mem_append.mp begins with earlier | new
    · refine (trace.covered serial start data earlier fun tick member =>
        kept tick (mem_append_left _ member)).imp ?_ (keeps serial)
      rintro ⟨found, member, write, inside, rfl, rfl⟩
      rcases mem_append.mp member with before | here
      · exact ⟨found, mem_append_left _ before, write, inside, rfl, rfl⟩
      · rw [mem_singleton.mp here] at inside
        exact ⟨written, last, remains write inside kept⟩
    · exact .inl ⟨written, last, starts _ _ _ (mem_singleton.mp new).symm⟩

theorem ClusterTrace.startWrite
    (writes : written.writes = cluster.writes ++ [⟨serial, tick, tickFuture, data⟩])
    (fresh : ∀ earlier ∈ past, earlier.serial ≠ serial)
    (before : ∀ other ∈ older, ∀ write ∈ other.writes, write.complete ≤ tick)
    (keeps : ∀ serial, superseded serial → later serial) :
    ClusterTrace (older ++ [written]) (past ++ [.startWrite tick serial data]) later := by
  refine trace.change ?_ (fun write inside _ => ?_) ?_ keeps
  · rw [writes, forall_mem_append, forall_mem_singleton]
    refine ⟨fun write inside => .inl ⟨write, inside, rfl, rfl, rfl, .inl rfl⟩,
      .inr ⟨rfl, rfl, fun other member first inside => ⟨?_, before other member first inside⟩⟩⟩
    exact fresh _ (trace.writes other (mem_append_left _ member) first inside).1
  · rw [writes]
    exact ⟨write, mem_append_left _ inside, rfl, rfl⟩
  · rintro _ _ _ ⟨⟩
    rw [writes]
    exact ⟨_, mem_append_right _ (mem_singleton_self _), rfl, rfl⟩

end

theorem Traced.pruned (traced : Traced tracker past) (real : lastTick past < tickFuture)
    (pruned : tracker.Pruned next (tracker.pruneTick (lastTick past))) : Traced next past := by
  obtain ⟨_, starts⟩ :=
    ByteTracker.pruneTick_le traced.tidy.readsStarted traced.tidy.readsOrdered
  obtain ⟨_, _, rest, nextObservations, observations, _⟩ := pruned.observations
  obtain ⟨_, split, ends⟩ := pruned.clusters
  have trace := traced.clusters
  rw [split] at trace
  have writes := trace.writes
  have ordered := trace.ordered
  rw [forall_mem_append] at writes
  rw [pairwise_append] at ordered
  refine ⟨traced.tidy.pruned pruned, pruned.reads ▸ traced.reads, fun observation member => ?_,
    writes.2, ordered.2.1, fun serial start data begins kept => ?_⟩
  · refine traced.observations observation ?_
    rw [observations, ← nextObservations]
    exact mem_append_right _ member
  · rcases trace.covered serial start data begins kept with
      ⟨cluster, member, write, inside, rfl, rfl⟩ | superseded
    · rcases mem_append.mp member with old | new
      · obtain ⟨cover, there, _⟩ := ends.resolve_left (ne_nil_of_mem old)
        have notLast : cluster ∈ tracker.writeClusters.dropLast := by
          rw [split, dropLast_append_of_ne_nil (ne_nil_of_mem there)]
          exact mem_append_left _ old
        have coverTidy := traced.tidy.clusters cover (by
          rw [split]
          exact mem_append_right _ there)
        have closed : cover.complete ≠ tickFuture := by omega
        obtain ⟨_, nonempty, all⟩ := coverTidy.closed closed
        obtain ⟨other, inCover⟩ := exists_mem_of_ne_nil _ nonempty
        obtain ⟨_, bound⟩ := coverTidy.last closed
        have before := bound other inCover
        obtain ⟨different, precedes⟩ :=
          ordered.2.2 cluster old cover there write inside other inCover
        have clusterClosed := (traced.tidy.clusters cluster (by
          rw [split]
          exact mem_append_left _ old)).closed (traced.tidy.closed cluster notLast)
        refine .inr ⟨write.complete, other.serial, other.start, other.data, other.complete,
          (writes.1 cluster old write inside).2 (clusterClosed.2.2 write inside),
          (writes.2 cover there other inCover).1,
          (writes.2 cover there other inCover).2 (all other inCover), different, precedes, by omega,
          fun entry member => ?_⟩
        rw [pruned.reads] at member
        have := starts entry member
        omega
      · exact .inl ⟨cluster, new, write, inside, rfl, rfl⟩
    · obtain ⟨tick, other, start, data, complete, rest⟩ := superseded
      exact .inr ⟨tick, other, start, data, complete, pruned.reads ▸ rest⟩

theorem tidy_append {used live : Set Serial} (passed : tracker.Tidy call.tick used live)
    (more : used ⊆ insert call.serial (usedSerials past))
    (fewer : ∀ serial, serial ∈ liveSerials (past ++ [call]) → serial ∈ live) :
    tracker.Tidy (lastTick (past ++ [call])) (usedSerials (past ++ [call]))
      (liveSerials (past ++ [call])) := by
  rw [lastTick_append, usedSerials_append]
  exact passed.weaken _ le_rfl more fun serial _ => fewer serial

section

variable (traced : Traced tracker past)
include traced

theorem Traced.reads_append (call : ByteCall) :
    ∀ entry ∈ tracker.outstandingReads.entries, .startRead entry.2.start entry.1 ∈ past ++ [call] :=
  fun entry member => mem_append_left _ (traced.reads entry member)

theorem Traced.observations_append (call : ByteCall) :
    ∀ observation ∈ tracker.readObservations, observation.complete = tickInitial ∨
      .startRead observation.start observation.serial ∈ past ++ [call] ∧
      .completeRead observation.complete observation.serial observation.data ∈ past ++ [call] :=
  fun observation member => (traced.observations observation member).imp_right
    (And.imp (mem_append_left _) (mem_append_left _))

theorem Traced.startRead (allowed : ByteCall.Allowed past (.startRead tick serial)) :
    Traced (tracker.startRead serial tick) (past ++ [.startRead tick serial]) := by
  have passes := lastTick_le allowed
  have greatest : ∀ entry ∈ tracker.outstandingReads.entries, entry.1 < serial :=
    fun entry member => allowed.2.2.2 _ (traced.reads entry member) (beq_self_eq_true _)
  have entries := ByteTracker.startRead_entries tick greatest
  refine ⟨tidy_append (traced.tidy.startRead passes greatest) Set.Subset.rfl fun other live =>
    (liveSerials_append live).1.resolve_right nofun, ?_, traced.observations_append _,
    traced.clusters.append (fun _ => rfl) fun other superseded =>
      superseded.append passes fun entry member => ?_⟩
  · rw [entries, forall_mem_append, forall_mem_singleton]
    exact ⟨traced.reads_append _, mem_append_right _ (mem_singleton_self _)⟩
  · rw [entries, mem_append, mem_singleton] at member
    refine member.imp_right fun new => ?_
    rw [new]
    exact passes

theorem Traced.opened (found : tracker.getIncompleteWriteCluster = (older, cluster)) :
    ClusterTrace (older ++ [cluster]) past (Superseded tracker past) ∧
      ∀ other ∈ older, ∀ write ∈ other.writes, write.complete ≤ lastTick past := by
  obtain ⟨_, _, same, _, _, closed, opened⟩ := traced.tidy.getIncompleteWriteCluster
  obtain ⟨rfl, rfl⟩ := Prod.mk.inj (found.symm.trans same)
  refine ⟨traced.clusters.opened opened, fun other member write inside => ?_⟩
  obtain ⟨there, complete⟩ := closed other member
  have tidy := traced.tidy.clusters other there
  exact (tidy.completed write inside ((tidy.closed complete).2.2 write inside)).trans tidy.maximum

theorem Traced.startWrite (allowed : ByteCall.Allowed past (.startWrite tick serial data)) :
    ∃ next, tracker.startWrite serial tick data = .ok next ∧
      Traced next (past ++ [.startWrite tick serial data]) := by
  have passes := lastTick_le allowed
  have fresh : serial ∉ usedSerials past := fun ⟨earlier, member, same⟩ =>
    allowed.2.2 earlier member same
  obtain ⟨_, _, _, found, done, writes, tidy⟩ :=
    traced.tidy.startWrite fresh passes data
  obtain ⟨trace, before⟩ := traced.opened found
  refine ⟨_, done, ⟨tidy_append tidy Set.Subset.rfl fun other live => ?_, traced.reads_append _,
    traced.observations_append _, trace.startWrite writes allowed.2.2
      (fun other member write inside => (before other member write inside).trans passes)
      fun other superseded => superseded.append passes fun entry member => .inl member⟩⟩
  exact (liveSerials_append live).1.symm.imp_left fun starts => (beq_iff_eq.mp starts).symm

theorem Traced.completeWrite (allowed : ByteCall.Allowed past (.completeWrite tick serial)) :
    ∃ next, tracker.completeWrite tick serial tick = .ok next ∧
      Traced next (past ++ [.completeWrite tick serial]) := by
  have passes := lastTick_le allowed
  obtain ⟨older, _, written, next, found, done, writes, tidy, pruned, _⟩ :=
    traced.tidy.completeWrite allowed.2.2 passes allowed.2.1
  obtain ⟨trace, _⟩ := traced.opened found
  have recorded : Traced (tracker.withCluster older written)
      (past ++ [.completeWrite tick serial]) := by
    refine ⟨tidy_append tidy (Set.subset_insert ..) fun other live =>
      liveSerials_ended live rfl (beq_self_eq_true serial), traced.reads_append _,
      traced.observations_append _, trace.change ?_ ?_ nofun fun other superseded =>
        superseded.append passes fun entry member => .inl member⟩
    · rw [writes, forall_mem_map]
      intro write inside
      refine .inl ⟨write, inside, ?_⟩
      rw [WriteCluster.record]
      split
      · rename_i same
        refine ⟨rfl, rfl, rfl, .inr (mem_append_right _ ?_)⟩
        rw [same]
        exact mem_singleton_self _
      · exact ⟨rfl, rfl, rfl, .inl rfl⟩
    · intro write inside _
      refine ⟨WriteCluster.record serial tick write, ?_, ?_⟩
      · rw [writes]
        exact mem_map_of_mem inside
      · rw [WriteCluster.record]
        split <;> exact ⟨rfl, rfl⟩
  refine ⟨next, done, recorded.pruned ?_ ?_⟩
  · rw [lastTick_append]
    exact allowed.2.1
  · rw [lastTick_append]
    exact pruned

theorem Traced.abortWrite (allowed : ByteCall.Allowed past (.abortWrite tick serial)) :
    Traced (tracker.abortWrite serial) (past ++ [.abortWrite tick serial]) := by
  have passes := lastTick_le allowed
  obtain ⟨_, _, found, done, writes, tidy⟩ :=
    traced.tidy.abortWrite allowed.2.2 (passes.trans_lt allowed.2.1)
  obtain ⟨trace, _⟩ := traced.opened found
  have later := tidy.weaken (liveSerials past \ {serial}) passes Set.Subset.rfl
    fun _ _ member => member
  rw [done] at later ⊢
  refine ⟨tidy_append later (Set.subset_insert ..) fun other live =>
    liveSerials_ended live rfl (beq_self_eq_true serial), traced.reads_append _,
    traced.observations_append _, trace.change ?_ ?_ nofun fun other superseded =>
      superseded.append passes fun entry member => .inl member⟩
  · rw [writes]
    exact fun write inside => .inl ⟨write, (mem_filter.mp inside).1, rfl, rfl, rfl, .inl rfl⟩
  · intro write inside kept
    refine ⟨write, ?_, rfl, rfl⟩
    rw [writes]
    refine mem_filter.mpr ⟨inside, bne_iff_ne.mpr fun same => kept tick ?_⟩
    rw [same]
    exact mem_append_right _ (mem_singleton_self _)

theorem Traced.completeRead {result : Bool}
    (allowed : ByteCall.Allowed past (.completeRead tick serial data))
    (completed : tracker.Completed serial tick data (.ok (next, result))) :
    Traced next (past ++ [.completeRead tick serial data]) := by
  have passes := lastTick_le allowed
  have quiet (other : Serial)
      (live : other ∈ liveSerials (past ++ [.completeRead tick serial data])) :
      other ∈ liveSerials past := (liveSerials_append live).1.resolve_right nofun
  cases completed with
  | unknown =>
    refine ⟨tidy_append (traced.tidy.weaken _ passes Set.Subset.rfl fun _ _ member => member)
      (Set.subset_insert ..) quiet, traced.reads_append _, traced.observations_append _,
      traced.clusters.append (fun _ => rfl) fun other superseded =>
        superseded.append passes fun entry member => .inl member⟩
  | @returns read expected _ _ found _ _ pruned =>
    have observed : Traced (tracker.observe serial read tick data expected)
        (past ++ [.completeRead tick serial data]) := by
      refine ⟨tidy_append (traced.tidy.observe found passes data expected) (Set.subset_insert ..)
        quiet, fun entry member => ?_, ?_, traced.clusters.append (fun _ => rfl)
          fun other superseded => superseded.append passes fun entry member =>
            .inl (mem_filter.mp member).1⟩
      · exact traced.reads_append _ entry (mem_filter.mp member).1
      · rw [ByteTracker.observe, forall_mem_append, forall_mem_singleton]
        exact ⟨traced.observations_append _, .inr ⟨mem_append_left _
          (traced.reads _ (OrderedMap.mem_of_lookup found)),
          mem_append_right _ (mem_singleton_self _)⟩⟩
    refine observed.pruned ?_ ?_
    · rw [lastTick_append]
      exact allowed.2.1
    · rw [lastTick_append]
      exact pruned

theorem Traced.step (allowed : ByteCall.Allowed past call) (taken : tracker.step call = .ok next) :
    Traced next (past ++ [call]) := by
  obtain ⟨_, done, rfl⟩ := map_eq_ok taken
  cases call with
  | startRead =>
    cases done
    exact traced.startRead allowed
  | completeRead tick serial data =>
    have passes : lastTick past ≤ tick := lastTick_le allowed
    have completed := traced.tidy.completeRead serial passes allowed.2.1 data
    rw [ByteTracker.call] at done
    rw [done] at completed
    exact traced.completeRead allowed completed
  | startWrite =>
    obtain ⟨_, starts, startedTraced⟩ := traced.startWrite allowed
    rw [ByteTracker.call, starts] at done
    cases done
    exact startedTraced
  | completeWrite =>
    obtain ⟨_, completes, completedTraced⟩ := traced.completeWrite allowed
    rw [ByteTracker.call, completes] at done
    cases done
    exact completedTraced
  | abortWrite =>
    cases done
    exact traced.abortWrite allowed

end

theorem traced_run {rest : List ByteCall} (wellFormed : ByteCall.WellFormed (past ++ rest))
    (run : past.foldlM ByteTracker.step .new = .ok tracker) : Traced tracker past := by
  induction past using reverseRecOn generalizing tracker rest with
  | nil =>
    cases run
    exact traced_new
  | append_singleton _ _ hypothesis =>
    rw [foldlM_append] at run
    obtain ⟨_, before, taken⟩ := bind_eq_ok run
    rw [foldlM_cons] at taken
    obtain ⟨_, done, rfl⟩ := map_eq_ok taken
    rw [append_assoc] at wellFormed
    exact (hypothesis wellFormed before).step wellFormed.allowed done

/-! ### No false alarm -/

section Linearization

variable {calls rest : List ByteCall} {initial : Byte} {point : Serial → ℚ} {start : Nat}

theorem ByteCall.WellFormed.either {first second : ByteCall} (wellFormed : WellFormed calls)
    (one : first ∈ calls) (two : second ∈ calls) (different : first ≠ second) :
    (∃ past, first ∈ past ∧ Allowed past second) ∨ ∃ past, second ∈ past ∧ Allowed past first := by
  obtain ⟨before, _, rfl⟩ := append_of_mem one
  rw [mem_append, mem_cons] at two
  rcases two with early | same | late
  · exact .inr ⟨before, early, wellFormed.allowed⟩
  · exact absurd same.symm different
  · obtain ⟨between, _, rfl⟩ := append_of_mem late
    refine .inl ⟨before ++ first :: between, by simp, ?_⟩
    rw [← cons_append, ← append_assoc] at wellFormed
    exact wellFormed.allowed

theorem ByteCall.WellFormed.completes (wellFormed : WellFormed calls) (write : Transaction)
    (starts : .startWrite write.start write.serial write.data ∈ calls)
    (completes : .completeWrite write.complete write.serial ∈ calls) :
    Writes calls write.serial write.start write.data := by
  refine ⟨starts, fun tick aborts => ?_⟩
  rcases wellFormed.either completes aborts nofun with ⟨_, member, follows⟩ | ⟨_, member, follows⟩
  · have := follows.2.2.2 _ member
    simp [ByteCall.endsWrite] at this
  · have := follows.2.2.2 _ member
    simp [ByteCall.endsWrite] at this

theorem ByteCall.WellFormed.serial_ne {first second : Serial} {other : Nat}
    (wellFormed : WellFormed calls) (reads : .startRead start first ∈ calls)
    (writes : .startWrite other second data ∈ calls) : second ≠ first := by
  rintro rfl
  rcases wellFormed.either reads writes nofun with ⟨_, member, follows⟩ | ⟨_, member, follows⟩
  · exact follows.2.2 _ member rfl
  · exact follows.2.2.1 _ member rfl

section

variable (linearizes : Linearizes calls initial point) (wellFormed : ByteCall.WellFormed calls)
include linearizes wellFormed

theorem Linearizes.write_precedes {write : Transaction}
    (writes : Writes calls write.serial write.start write.data)
    (completes : .completeWrite write.complete write.serial ∈ calls)
    (reads : .startRead start serial ∈ calls) (before : write.complete ≤ start) :
    point write.serial < point serial :=
  linearizes.precedes _ _ _ _ _ (.inr ⟨_, writes⟩) (.inl reads)
    (wellFormed.serial_ne reads writes.1) (.inl completes) before

theorem Linearizes.started
    (split : calls = past ++ .completeRead tick serial data :: rest)
    (reads : .startRead start serial ∈ calls) {write : Serial} {other : Nat} {value : Byte}
    (writes : Writes calls write other value) (before : point write < point serial) :
    .startWrite other write value ∈ past := by
  have starts := writes.1
  rw [split, mem_append, mem_cons] at starts
  rcases starts with early | same | late
  · exact early
  · cases same
  · obtain ⟨between, _, rfl⟩ := append_of_mem late
    have allowed : ByteCall.Allowed (past ++ .completeRead tick serial data :: between)
        (.startWrite other write value) := by
      rw [split, ← cons_append, ← append_assoc] at wellFormed
      exact wellFormed.allowed
    have completes : .completeRead tick serial data ∈ calls := by
      rw [split]
      simp
    have precedes := linearizes.precedes serial write start tick other (.inl reads)
      (.inr ⟨value, writes⟩) (wellFormed.serial_ne reads writes.1).symm
      (.inr ⟨data, completes⟩) (allowed.1 (.completeRead tick serial data) (by simp))
    exact absurd before precedes.not_gt

/-- A read that was observed, and the write it saw. -/
structure Observed (calls : List ByteCall) (point : Serial → ℚ) (observation : Transaction)
    (serial : Serial) : Prop where
  reads : .startRead observation.start observation.serial ∈ calls
  completes : .completeRead observation.complete observation.serial observation.data ∈ calls
  before : point observation.serial < point serial

theorem Observed.precedes {observation write : Transaction}
    (observed : Observed calls point observation serial)
    (writes : Writes calls write.serial write.start write.data)
    (later : observation.complete ≤ write.start) : point observation.serial < point write.serial :=
  linearizes.precedes _ _ _ _ _ (.inl observed.reads) (.inr ⟨_, writes⟩)
    (wellFormed.serial_ne observed.reads writes.1).symm (.inr ⟨_, observed.completes⟩) later

theorem Observed.data_eq {observation : Transaction}
    (observed : Observed calls point observation serial)
    {source : Serial} (writes : Writes calls source start data)
    (last : ∀ other start data, Writes calls other start data → point other < point serial →
      point other ≤ point source)
    (after : point source < point observation.serial) : observation.data = data := by
  rcases linearizes.returns _ _ _ observed.completes with
    ⟨other, began, otherWrites, otherBefore, otherLast⟩ | ⟨_, none⟩
  · have low := last other began _ otherWrites (otherBefore.trans observed.before)
    have high := otherLast source start data writes after
    have same : other = source := by
      by_contra different
      exact linearizes.distinct other source began start (.inr ⟨_, otherWrites⟩)
        (.inr ⟨_, writes⟩) different (le_antisymm low high)
    subst same
    by_contra different
    rcases wellFormed.either otherWrites.1 writes.1 fun same => different (by injection same) with
      ⟨_, member, follows⟩ | ⟨_, member, follows⟩
    · exact follows.2.2 _ member rfl
    · exact follows.2.2 _ member rfl
  · exact absurd after (none source start data writes)

theorem Traced.not_rejects (traced : Traced tracker past)
    (split : calls = past ++ .completeRead tick serial data :: rest) {read last_obs : Transaction}
    (entry : (serial, read) ∈ tracker.outstandingReads.entries) {newer : List WriteCluster}
    (rejects : tracker.Rejects read.start data last_obs older newer) : False := by
  have known {call : ByteCall} (member : call ∈ past) : call ∈ calls := by
    rw [split]
    exact mem_append_left _ member
  have reads : .startRead read.start serial ∈ calls := known (traced.reads _ entry)
  have allowed : ByteCall.Allowed past (.completeRead tick serial data) := by
    rw [split] at wellFormed
    exact wellFormed.allowed
  have passes : lastTick past < tickFuture := (lastTick_le allowed).trans_lt allowed.2.1
  have started : read.start < tickFuture := (traced.tidy.readsStarted _ entry).trans_lt passes
  have writesIn {cluster : WriteCluster} (member : cluster ∈ older ++ newer) {write : Transaction}
      (inside : write ∈ cluster.writes) (real : write.complete < tickFuture) :
      Writes calls write.serial write.start write.data ∧
        .completeWrite write.complete write.serial ∈ calls := by
    obtain ⟨starts, completes⟩ :=
      traced.clusters.writes cluster (rejects.clusters ▸ member) write inside
    exact ⟨wellFormed.completes write (known starts) (known (completes real.ne)),
      known (completes real.ne)⟩
  have early {cluster : WriteCluster} (member : cluster ∈ newer) {write : Transaction}
      (inside : write ∈ cluster.writes) (before : write.complete ≤ read.start) :
      Writes calls write.serial write.start write.data ∧ point write.serial < point serial := by
    obtain ⟨writes, completes⟩ :=
      writesIn (mem_append_right _ member) inside (before.trans_lt started)
    exact ⟨writes, linearizes.write_precedes wellFormed writes completes reads before⟩
  have observed (real : last_obs.complete ≠ tickInitial) :
      Observed calls point last_obs serial := by
    obtain ⟨starts, completes⟩ := (traced.observations last_obs rejects.observed).resolve_left real
    have different : last_obs.serial ≠ serial := by
      intro same
      have := allowed.2.2.2 _ completes
      rw [same] at this
      simp [ByteCall.endsRead] at this
    exact ⟨known starts, known completes, linearizes.precedes _ _ _ _ _ (.inl (known starts))
      (.inl reads) different (.inr ⟨_, known completes⟩)
      (rejects.before.resolve_left real).le⟩
  have completes : .completeRead tick serial data ∈ calls := by
    rw [split]
    simp
  rcases linearizes.returns tick serial data completes with
    ⟨source, start, writes, before, last⟩ | ⟨rfl, none⟩
  · have overtaken {other : Serial} {began : Nat} {value : Byte}
        (others : Writes calls other began value) (otherBefore : point other < point serial)
        (after : point source < point other) : False :=
      absurd (last other began value others otherBefore) (not_le.mpr after)
    have inPast := linearizes.started wellFormed split reads writes before
    rcases traced.clusters.covered source start data inPast fun tick member =>
        writes.2 tick (known member) with
      ⟨cluster, member, write, inside, rfl, same⟩ |
      ⟨ends, other, began, value, complete, completesSource, startsOther, completesOther, different,
        precedes, _, starts⟩
    · rw [rejects.clusters] at member
      rcases mem_append.mp member with old | new
      · obtain ⟨cover, there, other, inCover, covers⟩ :=
          rejects.stops.resolve_left (ne_nil_of_mem old)
        obtain ⟨others, otherBefore⟩ := early there inCover covers
        have ordered := traced.clusters.ordered
        rw [rejects.clusters, pairwise_append] at ordered
        obtain ⟨distinct, precedes⟩ :=
          ordered.2.2 cluster old cover there write inside other inCover
        have startTick : other.start ≤ tick := allowed.1 _ (traced.clusters.writes cover
          (rejects.clusters ▸ mem_append_right _ there) other inCover).1
        have real : write.complete < tickFuture :=
          (precedes.trans startTick).trans_lt allowed.2.1
        exact overtaken others otherBefore (linearizes.precedes _ _ _ _ _ (.inr ⟨_, writes⟩)
          (.inr ⟨_, others⟩) distinct (.inl (writesIn member inside real).2) precedes)
      · by_cases counts : last_obs.start ≤ write.complete
        · exact rejects.noMatch cluster new write inside counts same
        · have skipped := not_le.mp counts
          obtain ⟨begins, past⟩ := traced.tidy.observed last_obs rejects.observed
          have real : last_obs.complete ≠ tickInitial := fun initial => by
            rw [initial] at begins
            exact absurd (skipped.trans_le begins) (Nat.not_lt_zero _)
          have seen := observed real
          have completed := (writesIn member inside
            (((skipped.trans_le begins).trans_le past).trans passes)).2
          have after : point write.serial < point last_obs.serial :=
            linearizes.precedes _ _ _ _ _ (.inr ⟨_, writes⟩) (.inl seen.reads)
              (wellFormed.serial_ne seen.reads writes.1) (.inl completed) skipped.le
          rcases rejects.outdated with
            ⟨_, different⟩ | ⟨cover, there, other, inCover, covers, first | later⟩
          · exact different (seen.data_eq linearizes wellFormed writes last after)
          · exact real first
          · obtain ⟨others, otherBefore⟩ := early there inCover covers
            exact overtaken others otherBefore
              (after.trans (seen.precedes linearizes wellFormed others later.le))
    · have others := wellFormed.completes ⟨other, began, complete, value⟩
        (known startsOther) (known completesOther)
      refine overtaken others (linearizes.write_precedes wellFormed others (known completesOther)
        reads (starts _ entry)) ?_
      exact linearizes.precedes _ _ _ _ _ (.inr ⟨_, writes⟩) (.inr ⟨_, others⟩) different
        (.inl (known completesSource)) precedes
  · rcases rejects.outdated with ⟨real, different⟩ | ⟨_, member, write, inside, ends, _⟩
    · have seen := observed real
      rcases linearizes.returns _ _ _ seen.completes with
        ⟨write, start, writes, before, _⟩ | ⟨same, _⟩
      · exact none write start _ writes (before.trans seen.before)
      · exact different same
    · obtain ⟨writes, before⟩ := early member inside ends
      exact none _ _ _ writes before

end

/-- In a history that can be linearized every read that completes is accepted, exactly unless the
assertion about overlapping clusters fails. -/
theorem no_false_alarm (wellFormed : ByteCall.WellFormed calls) (linearizable : Linearizable calls)
    (split : calls = past ++ .completeRead tick serial data :: rest)
    (run : past.foldlM ByteTracker.step .new = .ok tracker) :
    (∃ next, tracker.call (.completeRead tick serial data) = .ok (next, true)) ↔
      ¬ tracker.Blocked serial tick data := by
  obtain ⟨_, _, linearizes⟩ := linearizable
  have traced := traced_run (split ▸ wellFormed) run
  have allowed : ByteCall.Allowed past (.completeRead tick serial data) := by
    rw [split] at wellFormed
    exact wellFormed.allowed
  have passes : lastTick past ≤ tick := lastTick_le allowed
  have completed := traced.tidy.completeRead serial passes allowed.2.1 data
  rw [← completed.ok_iff, ByteTracker.call]
  refine ⟨fun ⟨next, done⟩ => ⟨next, true, done⟩, fun ⟨next, result, done⟩ => ⟨next, ?_⟩⟩
  rw [done] at completed ⊢
  cases completed with
  | unknown => rfl
  | returns found _ rejected =>
    cases result with
    | true => rfl
    | false =>
      obtain ⟨_, _, _, rejects⟩ := rejected rfl
      exact (traced.not_rejects linearizes wellFormed split (OrderedMap.mem_of_lookup found)
        rejects).elim

end Linearization

theorem linearizable_overlap : Linearizable
    [.startWrite 5 0 7, .startRead 6 1, .completeWrite 10 0, .completeRead 14 1 7] := by
  have operation {serial : Serial} {start : Nat} (operates : Operates
      [.startWrite 5 0 7, .startRead 6 1, .completeWrite 10 0, .completeRead 14 1 7] serial start) :
      serial = 0 ∧ start = 5 ∨ serial = 1 ∧ start = 6 := by
    simp [Operates, Writes] at operates
    tauto
  have completion {serial : Serial} {tick : Nat} (completes : Completes
      [.startWrite 5 0 7, .startRead 6 1, .completeWrite 10 0, .completeRead 14 1 7] serial tick) :
      serial = 0 ∧ tick = 10 ∨ serial = 1 ∧ tick = 14 := by
    simp [Completes] at completes
    tauto
  refine ⟨0, fun serial => if serial = 0 then 5 else 6, fun serial start operates => ?_,
    fun serial start tick operates completes => ?_, fun first second start other one two => ?_,
    fun first second start tick other one two different completes before => ?_,
    fun tick serial data returns => ?_⟩
  · rcases operation operates with ⟨rfl, rfl⟩ | ⟨rfl, rfl⟩ <;> decide
  · rcases operation operates with ⟨rfl, rfl⟩ | ⟨rfl, rfl⟩ <;>
      rcases completion completes with ⟨same, rfl⟩ | ⟨same, rfl⟩ <;> revert same <;> decide
  · rcases operation one with ⟨rfl, rfl⟩ | ⟨rfl, rfl⟩ <;>
      rcases operation two with ⟨rfl, rfl⟩ | ⟨rfl, rfl⟩ <;> decide
  · rcases operation one with ⟨rfl, rfl⟩ | ⟨rfl, rfl⟩ <;>
      rcases operation two with ⟨rfl, rfl⟩ | ⟨rfl, rfl⟩ <;>
      rcases completion completes with ⟨same, rfl⟩ | ⟨same, rfl⟩ <;>
      revert same different before <;> decide
  · simp only [mem_cons, reduceCtorEq, not_mem_nil, or_false, false_or,
      ByteCall.completeRead.injEq] at returns
    obtain ⟨rfl, rfl, rfl⟩ := returns
    refine .inl ⟨0, 5, by simp [Writes], by decide, fun other start data writes _ => ?_⟩
    simp only [Writes, mem_cons, reduceCtorEq, not_mem_nil, or_false,
      ByteCall.startWrite.injEq] at writes
    rw [writes.1.2.1]

theorem no_false_alarm_overlap :
    ∃ tracker, [.startWrite 5 0 7, .startRead 6 1, .completeWrite 10 0].foldlM ByteTracker.step
        .new = .ok tracker ∧
      ((∃ next, tracker.call (.completeRead 14 1 7) = .ok (next, true)) ↔
        ¬ tracker.Blocked 1 14 7) := by
  have split : [.startWrite 5 0 7, .startRead 6 1, .completeWrite 10 0, .completeRead 14 1 7] =
      [.startWrite 5 0 7, .startRead 6 1, .completeWrite 10 0] ++ [ByteCall.completeRead 14 1 7] :=
    rfl
  exact ⟨_, rfl, no_false_alarm (by decide +kernel) linearizable_overlap split rfl⟩

theorem linearizable_touching :
    Linearizable [.startRead 10 0, .startWrite 20 1 1, .completeRead 20 0 0] := by
  have operation {serial : Serial} {start : Nat} (operates : Operates
      [.startRead 10 0, .startWrite 20 1 1, .completeRead 20 0 0] serial start) :
      serial = 0 ∧ start = 10 ∨ serial = 1 ∧ start = 20 := by
    simp [Operates, Writes] at operates
    tauto
  have completion {serial : Serial} {tick : Nat} (completes : Completes
      [.startRead 10 0, .startWrite 20 1 1, .completeRead 20 0 0] serial tick) :
      serial = 0 ∧ tick = 20 := by
    simp [Completes] at completes
    tauto
  refine ⟨0, fun serial => if serial = 0 then 10 else 20, fun serial start operates => ?_,
    fun serial start tick operates completes => ?_, fun first second start other one two => ?_,
    fun first second start tick other one two different completes before => ?_,
    fun tick serial data returns => ?_⟩
  · rcases operation operates with ⟨rfl, rfl⟩ | ⟨rfl, rfl⟩ <;> decide
  · obtain ⟨rfl, rfl⟩ := completion completes
    decide
  · rcases operation one with ⟨rfl, rfl⟩ | ⟨rfl, rfl⟩ <;>
      rcases operation two with ⟨rfl, rfl⟩ | ⟨rfl, rfl⟩ <;> decide
  · obtain ⟨rfl, rfl⟩ := completion completes
    rcases operation two with ⟨rfl, rfl⟩ | ⟨rfl, rfl⟩
    · exact absurd rfl different
    · decide
  · simp only [mem_cons, reduceCtorEq, not_mem_nil, or_false, false_or,
      ByteCall.completeRead.injEq] at returns
    obtain ⟨rfl, rfl, rfl⟩ := returns
    refine .inr ⟨rfl, fun write start data writes => ?_⟩
    simp only [Writes, mem_cons, reduceCtorEq, not_mem_nil, or_false, false_or,
      ByteCall.startWrite.injEq] at writes
    rw [writes.1.2.1]
    decide

/-- The completion of a read fails the assertion though the history can be linearized. -/
theorem assertion_in_linearizable_history :
    ByteCall.WellFormed [.startRead 10 0, .startWrite 20 1 1, .completeRead 20 0 0] ∧
      Linearizable [.startRead 10 0, .startWrite 20 1 1, .completeRead 20 0 0] ∧
      ∃ tracker, [.startRead 10 0, .startWrite 20 1 1].foldlM ByteTracker.step .new = .ok tracker ∧
        tracker.call (.completeRead 20 0 0) = .error .noOverlap :=
  ⟨by decide +kernel, linearizable_touching, _, rfl, rfl⟩

end Gem5.Mem
