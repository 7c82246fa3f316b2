/-
This file models the reads of the DRAM controller (`mem/dram_ctrl.cc`): a read packet is cut
into bursts, those that an entry of the write queue covers are served at once, the others are
queued, and the packet is responded to when the last of them has been served. It proves that
every packet is responded to exactly once and then, whatever the order of service. A burst of
the topmost block, whose end wraps to zero, is taken for one that the write queue covers.
-/

import Gem5.Mem.DramWriteQueue
import Mathlib.Data.List.Perm.Basic

namespace Gem5.Mem.Dram

open Library List Function

/-- A burst in the read queue or the response queue: the number of its packet, and whether it
has a burst helper. -/
structure ReadBurst where
  pkt : Nat
  burst : DRAMPacket
  burstHelper : Bool
  deriving DecidableEq

/-- What the bursts of a packet share. -/
structure BurstHelper where
  burstCount : Nat
  burstsServiced : Nat

/-- The read side of the controller. The packets are numbered as they are accepted, and a burst
helper is known by the number of its packet; `responded` lists the packets that were
responded to, the latest first. -/
structure Reads where
  readQueue : List ReadBurst
  respQueue : List ReadBurst
  helpers : Nat → BurstHelper
  accepted : Nat
  responded : List Nat

namespace Reads

variable (config : Config)

def readQueueFull (reads : Reads) (neededEntries : Nat) : Prop :=
  config.readBufferSize < reads.readQueue.length + reads.respQueue.length + neededEntries
deriving Decidable

/-- The write queue is taken to hold all the bytes of a burst. -/
def foundInWrQ (writeQueue : List DRAMPacket) (burst : DRAMPacket) : Bool :=
  writeQueue.any fun entry =>
    entry.addr ≤ burst.addr ∧ rangeEnd burst.addr burst.size ≤ rangeEnd entry.addr entry.size

/-- The bursts of a packet that ends at `stop`. -/
def bursts (stop : Nat) : Nat → Nat → List DRAMPacket
  | 0, _ => []
  | count + 1, addr => burstAt config stop addr :: bursts stop count (config.nextBurst addr)

/-- The loop over the bursts, with the number of those that the write queue serves. -/
def queueBursts (writeQueue : List DRAMPacket) (pktCount : Nat) :
    List DRAMPacket → Reads → Nat → Except Fault (Reads × Nat)
  | [], reads, serviced => .ok (reads, serviced)
  | burst :: rest, reads, serviced =>
    if foundInWrQ writeQueue burst then queueBursts writeQueue pktCount rest reads (serviced + 1)
    else if reads.readQueueFull config 1 then .error .assertion
    else queueBursts writeQueue pktCount rest { reads with readQueue := reads.readQueue ++
      [⟨reads.accepted, burst, decide (1 < pktCount)⟩] } serviced

def addToReadQueue (writeQueue : List DRAMPacket) (addr size : Nat) (reads : Reads) :
    Except Fault Reads := do
  let pktCount := config.pktCount addr size
  if pktCount = 0 then throw .assertion
  let (queued, serviced) ←
    queueBursts config writeQueue pktCount (bursts config (rangeEnd addr size) pktCount addr)
      reads 0
  if serviced = pktCount then
    return { queued with accepted := reads.accepted + 1,
                         responded := reads.accepted :: queued.responded }
  return { queued with
    accepted := reads.accepted + 1
    helpers := if 1 < pktCount then
      update queued.helpers reads.accepted ⟨pktCount, serviced⟩ else queued.helpers }

/-- A read packet is refused if the queues have no room for all its bursts. -/
def recvRead (writeQueue : List DRAMPacket) (addr size : Nat) (reads : Reads) :
    Except Fault Reads :=
  if size = 0 then .error .assertion
  else if reads.readQueueFull config (config.pktCount addr size) then .ok reads
  else addToReadQueue config writeQueue addr size reads

/-- A burst has been read from the memory. -/
def service (index : Nat) (reads : Reads) : Except Fault Reads :=
  match reads.readQueue[index]? with
  | none => .error .assertion
  | some burst => .ok { reads with readQueue := reads.readQueue.eraseIdx index,
                                   respQueue := reads.respQueue ++ [burst] }

def processRespondEvent (reads : Reads) : Except Fault Reads :=
  match reads.respQueue with
  | [] => .error .assertion
  | burst :: rest =>
    if burst.burstHelper then
      let helper := reads.helpers burst.pkt
      let serviced := helper.burstsServiced + 1
      .ok { reads with
        respQueue := rest
        helpers := update reads.helpers burst.pkt { helper with burstsServiced := serviced }
        responded := if serviced = helper.burstCount then burst.pkt :: reads.responded
          else reads.responded }
    else .ok { reads with respQueue := rest, responded := burst.pkt :: reads.responded }

inductive Call where
  | recvRead (writeQueue : List DRAMPacket) (addr size : Nat)
  | service (index : Nat)
  | processRespondEvent

def start : Reads := ⟨[], [], fun _ => ⟨0, 0⟩, 0, []⟩

def step (reads : Reads) : Call → Except Fault Reads
  | .recvRead writeQueue addr size => recvRead config writeQueue addr size reads
  | .service index => reads.service index
  | .processRespondEvent => reads.processRespondEvent

/-- Packets fit, and a burst is served if there is one. -/
def Allowed (reads : Reads) : Call → Prop
  | .recvRead _ addr size => config.Fits addr size
  | .service index => index < reads.readQueue.length
  | .processRespondEvent => 0 < reads.respQueue.length

instance (reads : Reads) (call : Call) : Decidable (reads.Allowed config call) :=
  match call with
  | .recvRead .. => inferInstanceAs (Decidable (config.Fits _ _))
  | .service _ | .processRespondEvent => inferInstanceAs (Decidable (_ < _))

/-- The bursts of a packet among those that have not been served. -/
def outstanding (waiting : List ReadBurst) (pkt : Nat) : Nat := waiting.countP (·.pkt = pkt)

/-- A burst helper counts the bursts of its packet that were served, a packet without one has one
burst, and a packet is responded to when none of its bursts is left. -/
structure Shared (waiting : List ReadBurst) (helpers : Nat → BurstHelper) (accepted : Nat)
    (responded : List Nat) : Prop where
  known : ∀ burst ∈ waiting, burst.pkt < accepted
  counted : ∀ burst ∈ waiting, if burst.burstHelper then
    (helpers burst.pkt).burstsServiced + outstanding waiting burst.pkt =
      (helpers burst.pkt).burstCount else outstanding waiting burst.pkt = 1
  once : ∀ pkt, responded.count pkt = if pkt < accepted ∧ outstanding waiting pkt = 0 then 1 else 0

/-- What holds in every state. -/
structure Sound (config : Config) (reads : Reads) : Prop where
  bounded : reads.readQueue.length + reads.respQueue.length ≤ config.readBufferSize
  shared : Shared (reads.readQueue ++ reads.respQueue) reads.helpers reads.accepted reads.responded

variable {config} {reads next : Reads} {waiting : List ReadBurst} {helpers : Nat → BurstHelper}
  {accepted : Nat} {responded : List Nat}

theorem Shared.perm {other : List ReadBurst} (same : waiting.Perm other)
    (shared : Shared waiting helpers accepted responded) :
    Shared other helpers accepted responded := by
  have counts (pkt : Nat) : outstanding waiting pkt = outstanding other pkt := same.countP_eq _
  obtain ⟨known, counted, once⟩ := shared
  simp only [counts, same.mem_iff] at known counted once
  exact ⟨known, counted, once⟩

theorem outstanding_eq_length {new : List ReadBurst} {pkt : Nat}
    (each : ∀ burst ∈ new, burst.pkt = pkt) (other : Nat) :
    outstanding new other = if other = pkt then new.length else 0 := by
  split
  · rename_i same
    exact countP_eq_length.mpr fun burst member => decide_eq_true (same ▸ each burst member)
  · rename_i apart
    exact countP_eq_zero.mpr fun burst member same =>
      apart (of_decide_eq_true same ▸ each burst member)

theorem Shared.accept {new : List ReadBurst} {pktCount : Nat}
    (shared : Shared waiting helpers accepted responded) (length : new.length ≤ pktCount)
    (positive : 0 < pktCount)
    (each : ∀ burst ∈ new, burst.pkt = accepted ∧ burst.burstHelper = decide (1 < pktCount)) :
    Shared (new ++ waiting) (if 1 < pktCount ∧ new ≠ [] then
        update helpers accepted ⟨pktCount, pktCount - new.length⟩ else helpers)
      (accepted + 1) (if new = [] then accepted :: responded else responded) := by
  obtain ⟨known, counted, once⟩ := shared
  have old : outstanding waiting accepted = 0 := countP_eq_zero.mpr fun burst member same =>
    absurd (known burst member) (by simp_all)
  have counts (pkt : Nat) : outstanding (new ++ waiting) pkt =
      (if pkt = accepted then new.length else 0) + outstanding waiting pkt := by
    rw [← outstanding_eq_length fun burst member => (each burst member).1]
    exact countP_append
  refine ⟨fun burst member => ?_, fun burst member => ?_, fun pkt => ?_⟩
  · rcases mem_append.mp member with isNew | isOld
    · exact Nat.lt_succ_of_le (le_of_eq (each burst isNew).1)
    · exact Nat.lt_succ_of_lt (known burst isOld)
  · rcases mem_append.mp member with isNew | isOld
    · obtain ⟨same, helper⟩ := each burst isNew
      have some : new ≠ [] := ne_nil_of_mem isNew
      have long := length_pos_iff.mpr some
      rw [counts, same, helper, old, if_pos rfl]
      by_cases split : 1 < pktCount
      · simp only [split, some, ne_eq, not_false_eq_true, and_self, if_true, decide_true,
          update_self]
        omega
      · simp only [split, decide_false, Bool.false_eq_true, if_false]
        omega
    · have before := known burst isOld
      have apart : burst.pkt ≠ accepted := ne_of_lt before
      have same : (if 1 < pktCount ∧ new ≠ [] then
          update helpers accepted ⟨pktCount, pktCount - new.length⟩ else helpers) burst.pkt =
          helpers burst.pkt := by
        split
        · exact update_of_ne apart _ _
        · rfl
      rw [counts, if_neg apart, zero_add, same]
      exact counted burst isOld
  · rw [counts]
    have before := once pkt
    by_cases here : pkt = accepted
    · cases new with
      | nil => simp_all
      | cons => simp_all
    · have order : pkt < accepted + 1 ↔ pkt < accepted := by omega
      simp only [here, if_false, zero_add, order]
      split
      · rw [count_cons_of_ne (Ne.symm here), before]
      · exact before

theorem Shared.serve {burst : ReadBurst}
    (shared : Shared (burst :: waiting) helpers accepted responded) :
    if burst.burstHelper then
      Shared waiting (update helpers burst.pkt { helpers burst.pkt with
          burstsServiced := (helpers burst.pkt).burstsServiced + 1 }) accepted
        (if (helpers burst.pkt).burstsServiced + 1 = (helpers burst.pkt).burstCount then
          burst.pkt :: responded else responded)
    else Shared waiting helpers accepted (burst.pkt :: responded) := by
  obtain ⟨known, counted, once⟩ := shared
  have counts (pkt : Nat) : outstanding (burst :: waiting) pkt =
      outstanding waiting pkt + if burst.pkt = pkt then 1 else 0 := by
    rw [outstanding, countP_cons]
    simp only [decide_eq_true_eq]
    rfl
  have front := counted burst mem_cons_self
  have some (other : ReadBurst) (member : other ∈ waiting) : 0 < outstanding waiting other.pkt :=
    countP_pos_iff.mpr ⟨other, member, decide_eq_true rfl⟩
  split
  · rename_i helper
    rw [if_pos helper] at front
    refine ⟨fun other member => known other (mem_cons_of_mem _ member),
      fun other member => ?_, fun pkt => ?_⟩
    · have old := counted other (mem_cons_of_mem _ member)
      grind [update]
    · have old := once pkt
      grind
  · rename_i single
    rw [if_neg single] at front
    refine ⟨fun other member => known other (mem_cons_of_mem _ member),
      fun other member => ?_, fun pkt => ?_⟩
    · have old := counted other (mem_cons_of_mem _ member)
      grind
    · have old := once pkt
      grind

/-- The bursts of a packet that are not found in the write queue. -/
def queued (config : Config) (writeQueue : List DRAMPacket) (addr size pkt : Nat) :
    List ReadBurst :=
  ((bursts config (rangeEnd addr size) (config.pktCount addr size) addr).filter fun burst =>
    !foundInWrQ writeQueue burst).map (⟨pkt, ·, decide (1 < config.pktCount addr size)⟩)

theorem bursts_length (config : Config) (stop count addr : Nat) :
    (bursts config stop count addr).length = count := by
  induction count generalizing addr with
  | zero => rfl
  | succ _ hypothesis => rw [bursts, length_cons, hypothesis]

theorem queueBursts_eq {writeQueue list : List DRAMPacket} {pktCount serviced : Nat}
    (room : reads.readQueue.length + reads.respQueue.length + list.length ≤ config.readBufferSize) :
    queueBursts config writeQueue pktCount list reads serviced = .ok
      ({ reads with readQueue := reads.readQueue ++ (list.filter fun burst =>
          !foundInWrQ writeQueue burst).map (⟨reads.accepted, ·, decide (1 < pktCount)⟩) },
        serviced + list.countP (foundInWrQ writeQueue)) := by
  induction list generalizing reads serviced with
  | nil => simp [queueBursts]
  | cons burst _ hypothesis =>
    rw [length_cons] at room
    rw [queueBursts]
    cases found : foundInWrQ writeQueue burst with
    | true =>
      rw [if_pos rfl, hypothesis (by omega)]
      simp [found, add_assoc, add_comm 1]
    | false =>
      rw [if_neg (by simp), if_neg (by rw [readQueueFull]; omega), hypothesis]
      · simp [found]
      · simp only [length_append, length_singleton]
        omega

theorem recvRead_eq {writeQueue : List DRAMPacket} {addr size : Nat}
    (fits : config.Fits addr size)
    (room : ¬ reads.readQueueFull config (config.pktCount addr size)) :
    (queued config writeQueue addr size reads.accepted).length ≤ config.pktCount addr size ∧
    recvRead config writeQueue addr size reads = .ok { reads with
      readQueue := reads.readQueue ++ queued config writeQueue addr size reads.accepted
      accepted := reads.accepted + 1
      helpers := if 1 < config.pktCount addr size ∧
          queued config writeQueue addr size reads.accepted ≠ [] then
        update reads.helpers reads.accepted ⟨config.pktCount addr size,
          config.pktCount addr size - (queued config writeQueue addr size reads.accepted).length⟩
        else reads.helpers
      responded := if queued config writeQueue addr size reads.accepted = [] then
        reads.accepted :: reads.responded else reads.responded } := by
  have length := bursts_length config (rangeEnd addr size) (config.pktCount addr size) addr
  have split := length_eq_length_filter_add (foundInWrQ writeQueue)
    (l := bursts config (rangeEnd addr size) (config.pktCount addr size) addr)
  rw [length, ← countP_eq_length_filter] at split
  have queuedLength : (queued config writeQueue addr size reads.accepted).length =
      ((bursts config (rangeEnd addr size) (config.pktCount addr size) addr).filter fun burst =>
        !foundInWrQ writeQueue burst).length := length_map _
  refine ⟨by omega, ?_⟩
  rw [recvRead, if_neg (ne_of_gt fits.1), if_neg room, addToReadQueue,
    if_neg (ne_of_gt (config.pktCount_pos fits)),
    queueBursts_eq (by rw [length]; exact not_lt.mp room), zero_add, ← queued, ok_bind]
  dsimp only
  by_cases none : queued config writeQueue addr size reads.accepted = []
  · rw [none, length_nil] at queuedLength
    rw [if_pos (by omega), none, if_neg (by simp), if_pos rfl]
    rfl
  · have some := length_pos_iff.mpr none
    have served : (bursts config (rangeEnd addr size) (config.pktCount addr size) addr).countP
        (foundInWrQ writeQueue) = config.pktCount addr size -
          (queued config writeQueue addr size reads.accepted).length := by omega
    rw [if_neg (by omega), if_neg none, served]
    simp only [none, ne_eq, not_false_eq_true, and_true]
    rfl

theorem Sound.recvRead {writeQueue : List DRAMPacket} {addr size : Nat}
    (fits : config.Fits addr size) (sound : reads.Sound config) :
    ∃ next, Reads.recvRead config writeQueue addr size reads = .ok next ∧ next.Sound config := by
  by_cases full : reads.readQueueFull config (config.pktCount addr size)
  · exact ⟨reads, by rw [Reads.recvRead, if_neg (ne_of_gt fits.1), if_pos full], sound⟩
  obtain ⟨length, taken⟩ := @recvRead_eq config reads writeQueue addr size fits full
  refine ⟨_, taken, ?_⟩
  have each : ∀ burst ∈ queued config writeQueue addr size reads.accepted,
      burst.pkt = reads.accepted ∧ burst.burstHelper = decide (1 < config.pktCount addr size) := by
    intro burst member
    obtain ⟨_, _, rfl⟩ := mem_map.mp member
    exact ⟨rfl, rfl⟩
  have room : reads.readQueue.length + reads.respQueue.length + config.pktCount addr size ≤
    config.readBufferSize := not_lt.mp full
  generalize queued config writeQueue addr size reads.accepted = new at each length ⊢
  refine ⟨?_, ?_⟩
  · simp only [length_append]
    omega
  · refine (sound.shared.accept length (config.pktCount_pos fits) each).perm ?_
    rw [append_assoc, ← append_assoc new]
    exact (perm_append_comm.append_right _).trans (by rw [append_assoc])

section

variable (sound : reads.Sound config)
include sound

theorem Sound.service {index : Nat} (present : index < reads.readQueue.length) :
    ∃ next, reads.service index = .ok next ∧ next.Sound config := by
  rw [Reads.service, getElem?_eq_getElem present]
  refine ⟨_, rfl, ?_, sound.shared.perm ?_⟩
  · have bounded := sound.bounded
    simp only [length_eraseIdx_of_lt present, length_append, length_singleton]
    omega
  · have moved := (getElem_cons_eraseIdx_perm present).symm.append_right reads.respQueue
    refine moved.trans ?_
    rw [← append_assoc]
    exact (perm_append_singleton _ _).symm

theorem Sound.respond (some : 0 < reads.respQueue.length) :
    ∃ next, reads.processRespondEvent = .ok next ∧ next.Sound config := by
  obtain ⟨_, respQueue, _⟩ := reads
  obtain ⟨bounded, shared⟩ := sound
  cases respQueue with
  | nil => cases some
  | cons burst =>
    have served := (shared.perm perm_middle).serve
    dsimp only [processRespondEvent]
    cases helper : burst.burstHelper with
    | true =>
      rw [helper, if_pos rfl] at served
      exact ⟨_, rfl, Nat.le_of_succ_le bounded, served⟩
    | false =>
      rw [helper, if_neg Bool.false_ne_true] at served
      exact ⟨_, rfl, Nat.le_of_succ_le bounded, served⟩

theorem Sound.step {call : Call} (allowed : reads.Allowed config call) :
    ∃ next, reads.step config call = .ok next ∧ next.Sound config := by
  cases call with
  | recvRead => exact sound.recvRead allowed
  | service => exact sound.service allowed
  | processRespondEvent => exact sound.respond allowed

end

/-- The bursts of a packet that fits have its bytes, and those that are found in the write queue
are covered by an entry of it. -/
theorem bursts_spec {stop count addr : Nat} (high : stop + config.burstSize ≤ 2 ^ 64)
    (remaining : config.Remaining stop count addr) :
    (∀ burst ∈ bursts config stop count addr, burst.Bounded config) ∧
      ∀ place, (∃ burst ∈ bursts config stop count addr, burst.Covers place) ↔
        addr ≤ place ∧ place < stop := by
  induction count generalizing addr with
  | zero =>
    have later : addr < stop → config.block addr ≤ config.block (stop - 1) :=
      fun _ => config.block_mono (by omega)
    refine ⟨nofun, fun place => ⟨nofun, fun inside => ?_⟩⟩
    rcases remaining with ⟨_, _⟩ | ⟨before, _⟩
    · omega
    · have := later before
      omega
  | succ _ hypothesis =>
    obtain ⟨inside, rest⟩ := remaining.next
    obtain ⟨small, _, covers⟩ := burstAt_spec high inside
    have later := config.lt_blockEnd addr
    rw [bursts, config.nextBurst_eq (by omega)]
    obtain ⟨bounded, others⟩ := hypothesis rest
    refine ⟨forall_mem_cons.mpr ⟨small, bounded⟩, fun place => ?_⟩
    rw [exists_mem_cons_iff, covers, others]
    omega

theorem covered_of_foundInWrQ {writeQueue : List DRAMPacket} {burst : DRAMPacket}
    (small : burst.Bounded config)
    (typed : ∀ entry ∈ writeQueue, entry.addr < 2 ^ 64 ∧ entry.size < 2 ^ 32)
    (found : foundInWrQ writeQueue burst = true) :
    ∃ entry ∈ writeQueue, ∀ place, burst.Covers place → entry.Covers place := by
  obtain ⟨entry, member, holds⟩ := any_eq_true.mp found
  obtain ⟨first, last⟩ := of_decide_eq_true holds
  obtain ⟨_, _⟩ := typed entry member
  have positive := small.1
  rw [small.rangeEnd_eq.1, rangeEnd] at last
  refine ⟨entry, member, fun place covers => ?_⟩
  -- An entry whose own end wraps does not end after the burst.
  rw [DRAMPacket.Covers] at covers ⊢
  omega

/-- In every run no assertion fails, the queues keep to their bound, an accepted packet has each of
its bursts covered by an entry of the write queue or queued once, and a packet is responded to
once if none of its bursts is left, and has not been responded to otherwise. -/
theorem reads_responded_once {calls : List Call}
    (run : Run (step config) (Allowed config) start calls reads) :
    (∀ call, reads.Allowed config call → ∃ next, reads.step config call = .ok next) ∧
    reads.readQueue.length + reads.respQueue.length ≤ config.readBufferSize ∧
    (∀ writeQueue addr size, config.Fits addr size →
      (∀ entry ∈ writeQueue, entry.addr < 2 ^ 64 ∧ entry.size < 2 ^ 32) →
      ¬ reads.readQueueFull config (config.pktCount addr size) →
      (∃ next, reads.step config (.recvRead writeQueue addr size) = .ok next ∧
        next.accepted = reads.accepted + 1 ∧
        next.readQueue = reads.readQueue ++ queued config writeQueue addr size reads.accepted) ∧
      (∀ place, (∃ burst ∈ bursts config (rangeEnd addr size) (config.pktCount addr size) addr,
          burst.Covers place) ↔ addr ≤ place ∧ place < addr + size) ∧
      ∀ burst ∈ bursts config (rangeEnd addr size) (config.pktCount addr size) addr,
        foundInWrQ writeQueue burst = true →
          ∃ entry ∈ writeQueue, ∀ place, burst.Covers place → entry.Covers place) ∧
    ∀ pkt, reads.responded.count pkt = if pkt < reads.accepted ∧
      outstanding (reads.readQueue ++ reads.respQueue) pkt = 0 then 1 else 0 := by
  have sound : reads.Sound config := run.invariant_of_total (Sound config)
    (fun sound => sound.step) ⟨Nat.zero_le _, nofun, nofun, fun pkt => by simp [start]⟩
  refine ⟨fun call allowed => ?_, sound.bounded, fun writeQueue addr size fits typed room => ?_,
    sound.shared.once⟩
  · obtain ⟨next, taken, _⟩ := sound.step allowed
    exact ⟨next, taken⟩
  · obtain ⟨bounded, covers⟩ := bursts_spec fits.2.1 (config.remaining_pktCount fits)
    rw [rangeEnd_of_fits fits]
    refine ⟨⟨_, (recvRead_eq fits room).2, rfl, rfl⟩, covers, fun burst member => ?_⟩
    exact covered_of_foundInWrQ (bounded burst member) typed

/-- A read of two bursts, one of which a write covers, is responded to when the other is served. -/
theorem reads_responded_once_split : ∃ reads, Run (step WriteTrace.bursts64)
    (Allowed WriteTrace.bursts64) start
    [.recvRead [⟨64, 8⟩] 60 8, .service 0, .processRespondEvent] reads ∧
    reads.responded.count 0 = 1 := by
  refine Run.exists_checked (fun reads => reads.readQueue ++ reads.respQueue = [] ∧
      reads.accepted = 1)
    (by decide +kernel) fun _ run ⟨empty, one⟩ => ?_
  rw [(reads_responded_once run).2.2.2, empty, one]
  rfl

/-- The burst at the topmost block ends at zero: it is taken to be covered by a write of other
bytes, and the packet is responded to at once. -/
theorem uncovered_read_responded :
    ∃ reads, recvRead WriteTrace.bursts64 [⟨0, 8⟩] (2 ^ 64 - 64) 8 start = .ok reads ∧
      reads.readQueue = [] ∧ reads.responded = [0] ∧
      ¬ (DRAMPacket.mk 0 8).Covers (2 ^ 64 - 64) :=
  ⟨_, rfl, rfl, rfl, by decide⟩

end Reads

end Gem5.Mem.Dram
